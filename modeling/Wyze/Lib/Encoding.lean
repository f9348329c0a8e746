/-
**Numbers as bytes.**

Three ways to put a number into bytes, each with the law that reads it back:

* `toBytes`, a fixed number of bytes, lowest first: `ofBytes_toBytes`;
* `groups`, seven bits a byte, lowest first, the high bit set on every byte but the last: whatever the
  reader does with a group, `gather_groups` consumes exactly the bytes of the number,
  `gather_groups_value` gives the number where no group falls off the word, and
  `gather_eq_none_iff` says when the bytes run out;
* `zigzag`, signed words as unsigned ones of small size: `unzigzag_zigzag`.
-/
import Mathlib.Algebra.Group.Int.Defs
import Mathlib.Data.List.Basic
import Mathlib.Data.Nat.Bitwise
import Mathlib.Tactic.Ring

namespace Encoding

/-! ### A fixed number of bytes -/

/-- The lowest `width` bytes of a number, lowest first. -/
def toBytes : Nat → Nat → List UInt8
  | 0, _ => []
  | width + 1, value => value.toUInt8 :: toBytes width (value / 256)

def ofBytes : List UInt8 → Nat
  | [] => 0
  | byte :: bytes => byte.toNat + 256 * ofBytes bytes

@[simp]
theorem length_toBytes (width value : Nat) : (toBytes width value).length = width := by
  induction width generalizing value with
  | zero => rfl
  | succ width ih => rw [toBytes, List.length_cons, ih]

theorem ofBytes_toBytes {width value : Nat} (fits : value < 256 ^ width) :
    ofBytes (toBytes width value) = value := by
  induction width generalizing value with
  | zero =>
    have : value = 0 := by simpa using fits
    rw [this]
    rfl
  | succ width ih =>
    have smaller : value / 256 < 256 ^ width := by
      rw [Nat.div_lt_iff_lt_mul (by omega), ← Nat.pow_succ]
      exact fits
    have low : value.toUInt8.toNat = value % 256 := UInt8.toNat_ofNat'
    rw [toBytes, ofBytes, ih smaller, low]
    exact Nat.mod_add_div value 256

theorem toBytes_ofBytes (bytes : List UInt8) : toBytes bytes.length (ofBytes bytes) = bytes := by
  induction bytes with
  | nil => rfl
  | cons byte bytes ih =>
    have small := byte.toNat_lt
    have low : (byte.toNat + 256 * ofBytes bytes).toUInt8 = byte := by
      apply UInt8.toNat_inj.mp
      show (byte.toNat + 256 * ofBytes bytes) % 256 = byte.toNat
      omega
    have high : (byte.toNat + 256 * ofBytes bytes) / 256 = ofBytes bytes := by omega
    rw [ofBytes, List.length_cons, toBytes, low, high, ih]

theorem ofBytes_lt (bytes : List UInt8) : ofBytes bytes < 256 ^ bytes.length := by
  induction bytes with
  | nil => decide
  | cons byte bytes ih =>
    have small := byte.toNat_lt
    rw [ofBytes, List.length_cons, Nat.pow_succ]
    omega

/-- The bytes of a number of `width` bytes, the other way round. -/
def swap (width value : Nat) : Nat := ofBytes (toBytes width value).reverse

theorem toBytes_swap (width value : Nat) :
    toBytes width (swap width value) = (toBytes width value).reverse := by
  have back := toBytes_ofBytes (toBytes width value).reverse
  rwa [List.length_reverse, length_toBytes] at back

theorem swap_lt (width value : Nat) : swap width value < 256 ^ width := by
  have bound := ofBytes_lt (toBytes width value).reverse
  rwa [List.length_reverse, length_toBytes] at bound

theorem swap_swap {width value : Nat} (fits : value < 256 ^ width) :
    swap width (swap width value) = value := by
  rw [swap, toBytes_swap, List.reverse_reverse, ofBytes_toBytes fits]

/-! ### Groups of seven bits -/

/-- A number in groups of seven bits, at most `room` of them before the last. -/
def groups : Nat → Nat → List UInt8
  | 0, value => [value.toUInt8]
  | room + 1, value =>
    if value ≥ 0x80 then ((value &&& 0x7F) ||| 0x80).toUInt8 :: groups room (value >>> 7)
    else [value.toUInt8]

/-- The shifts `i`, `i + 7`, … -/
def shiftsFrom (i : Nat) : Nat → List Nat
  | 0 => []
  | count + 1 => i :: shiftsFrom (i + 7) count

@[simp]
theorem length_shiftsFrom (i count : Nat) : (shiftsFrom i count).length = count := by
  induction count generalizing i with
  | zero => rfl
  | succ count ih => rw [shiftsFrom, List.length_cons, ih]

section Gather

variable {ω : Type} [OrOp ω] (place : UInt8 → Nat → ω)

/-- Read groups, one for each shift, up to the first byte without the high bit. `place` says what a
group adds at its shift. -/
def gather : List Nat → ω → List UInt8 → Option (ω × List UInt8)
  | [], result, bytes => some (result, bytes)
  | _ :: _, _, [] => none
  | i :: shifts, result, byte :: bytes =>
    if byte < 0x80 then some (result ||| place byte i, bytes)
    else gather shifts (result ||| place (byte &&& 0x7F) i) bytes

theorem length_groups_pos (room value : Nat) : 1 ≤ (groups room value).length := by
  cases room with
  | zero => exact Nat.le_refl 1
  | succ room =>
    rw [groups]
    split
    · exact Nat.succ_pos _
    · exact Nat.le_refl 1

theorem toNat_low_group (value : Nat) :
    ((value &&& 0x7F) ||| 0x80).toUInt8.toNat = value % 128 + 128 := by
  have masked : value &&& 0x7F = value % 128 := Nat.and_two_pow_sub_one_eq_mod value 7
  have small : value % 128 < 2 ^ 7 := Nat.mod_lt _ (by decide)
  have joined : 128 + value % 128 = 128 ||| value % 128 := Nat.two_pow_add_eq_or_of_lt small 1
  have added : (value &&& 0x7F) ||| 0x80 = value % 128 + 128 := by
    rw [masked, Nat.or_comm, ← joined, Nat.add_comm]
  rw [added]
  show (value % 128 + 128) % 256 = value % 128 + 128
  omega

/-- The group a byte with the high bit carries. -/
theorem low_group_and (value : Nat) :
    (((value &&& 0x7F) ||| 0x80).toUInt8 &&& 0x7F).toNat = value % 128 := by
  rw [UInt8.toNat_and, toNat_low_group]
  show (value % 128 + 128) &&& (2 ^ 7 - 1) = value % 128
  rw [Nat.and_two_pow_sub_one_eq_mod]
  omega

theorem low_group_high (value : Nat) : ¬ ((value &&& 0x7F) ||| 0x80).toUInt8 < 0x80 := by
  rw [UInt8.lt_iff_toNat_lt, toNat_low_group]
  show ¬ value % 128 + 128 < 128
  omega

theorem last_group_low {value : Nat} (small : value < 128) : value.toUInt8 < 0x80 := by
  rw [UInt8.lt_iff_toNat_lt]
  show value % 256 < 128
  omega

theorem next_group_lt {value count : Nat} (fits : value < 128 ^ (count + 1 + 1)) :
    value / 2 ^ 7 < 128 ^ (count + 1) := by
  rw [Nat.div_lt_iff_lt_mul (by decide)]
  exact Nat.lt_of_lt_of_eq fits (Nat.pow_succ ..)

variable {place}

/-- **The reader stops behind the number**, whatever it makes of the groups. -/
theorem gather_groups {room value : Nat} {i : Nat} {shifts : List Nat}
    (written : value < 128 ^ (room + 1)) (enough : value < 128 ^ (shifts.length + 1)) (result : ω)
    (rest : List UInt8) :
    ∃ read, gather place (i :: shifts) result (groups room value ++ rest) = some (read, rest) := by
  induction room generalizing value i shifts result with
  | zero =>
    have small : value < 128 := by simpa using written
    exact ⟨_, if_pos (last_group_low small)⟩
  | succ room ih =>
    rw [groups]
    by_cases large : value ≥ 0x80
    · rw [if_pos large, Nat.shiftRight_eq_div_pow]
      rcases shifts with _ | ⟨next, shifts⟩
      · simp only [List.length_nil, Nat.zero_add, Nat.pow_one] at enough
        omega
      · obtain ⟨read, run⟩ := @ih (value / 2 ^ 7) next shifts (next_group_lt written)
          (next_group_lt enough)
          (result ||| place (((value &&& 0x7F) ||| 0x80).toUInt8 &&& 0x7F) i)
        exact ⟨read, (if_neg (low_group_high value)).trans run⟩
    · rw [if_neg large]
      exact ⟨_, if_pos (last_group_low (by omega))⟩

/-- What the reader took stands in front of what it left; with a shift to begin with it took something. -/
theorem gather_split {shifts : List Nat} {result read : ω} {bytes rest : List UInt8}
    (run : gather place shifts result bytes = some (read, rest)) :
    ∃ used, bytes = used ++ rest ∧ gather place shifts result used = some (read, []) ∧
      (shifts ≠ [] → used ≠ []) := by
  induction shifts generalizing result bytes with
  | nil =>
    cases run
    exact ⟨[], rfl, rfl, fun none_left => absurd rfl none_left⟩
  | cons i shifts ih =>
    rcases bytes with _ | ⟨byte, bytes⟩
    · cases run
    rw [gather] at run
    by_cases last : byte < 0x80
    · rw [if_pos last] at run
      cases run
      exact ⟨[byte], rfl, if_pos last, fun _ => List.cons_ne_nil byte []⟩
    · rw [if_neg last] at run
      obtain ⟨used, front, again, _⟩ := ih run
      refine ⟨byte :: used, congrArg (byte :: ·) front, ?_, fun _ => List.cons_ne_nil byte used⟩
      rw [gather, if_neg last]
      exact again

/-- **The bytes run out** when there is none for some shift and each of them has the high bit. -/
theorem gather_eq_none_iff {shifts : List Nat} {result : ω} {bytes : List UInt8} :
    gather place shifts result bytes = none ↔
      bytes.length < shifts.length ∧ ∀ byte ∈ bytes, ¬ byte < 0x80 := by
  induction shifts generalizing result bytes with
  | nil => exact ⟨fun run => (Option.some_ne_none _ run).elim, fun short => absurd short.1 (Nat.not_lt_zero _)⟩
  | cons i shifts ih =>
    rcases bytes with _ | ⟨byte, bytes⟩
    · exact iff_of_true rfl ⟨Nat.succ_pos _, fun _ absent => absurd absent List.not_mem_nil⟩
    rw [gather, List.forall_mem_cons, List.length_cons, List.length_cons, Nat.succ_lt_succ_iff]
    by_cases last : byte < 0x80
    · rw [if_pos last]
      exact iff_of_false (Option.some_ne_none _) fun short => short.2.1 last
    · rw [if_neg last, ih]
      exact and_congr_right fun _ => (and_iff_right last).symm

section Exact

variable {toNat : ω → Nat} {bits : Nat}
  (toNat_or : ∀ first second, toNat (first ||| second) = toNat first ||| toNat second)
  (exact_below : ∀ (byte : UInt8) (i : Nat), i < bits → byte.toNat * 2 ^ i < 2 ^ bits →
    toNat (place byte i) = byte.toNat * 2 ^ i)

include toNat_or exact_below in
/-- A group placed behind a shorter number is added to it. -/
theorem toNat_or_place {result : ω} {byte : UInt8} {i : Nat} (inside : i < bits)
    (below : toNat result < 2 ^ i) (fits : byte.toNat * 2 ^ i < 2 ^ bits) :
    toNat (result ||| place byte i) = toNat result + byte.toNat * 2 ^ i := by
  rw [toNat_or, exact_below byte i inside fits, Nat.or_comm, Nat.mul_comm,
    ← Nat.two_pow_add_eq_or_of_lt below, Nat.add_comm]

include toNat_or exact_below in
/-- **The value read** is the number, shifted to where reading began, as long as every group stays
below bit `bits`, where `place` is exact. -/
theorem gather_groups_value {room value i count : Nat} {result read : ω} {rest : List UInt8}
    (written : value < 128 ^ (room + 1)) (enough : value < 128 ^ (count + 1))
    (inside : i < bits) (below : toNat result < 2 ^ i) (fits : value * 2 ^ i < 2 ^ bits)
    (run : gather place (shiftsFrom i (count + 1)) result (groups room value ++ rest) =
      some (read, rest)) :
    toNat read = toNat result + value * 2 ^ i := by
  have last {value i : Nat} {result : ω} (small : value < 128) (inside : i < bits)
      (below : toNat result < 2 ^ i) (fits : value * 2 ^ i < 2 ^ bits) :
      toNat (result ||| place value.toUInt8 i) = toNat result + value * 2 ^ i := by
    have byteValue : value.toUInt8.toNat = value := Nat.mod_eq_of_lt (by omega)
    have placed := toNat_or_place toNat_or exact_below inside below (by rwa [byteValue])
    rwa [byteValue] at placed
  induction room generalizing value i count result with
  | zero =>
    have small : value < 128 := by simpa using written
    rw [groups, List.singleton_append, shiftsFrom, gather, if_pos (last_group_low small)] at run
    cases run
    exact last small inside below fits
  | succ room ih =>
    by_cases large : value ≥ 0x80
    · rw [groups, if_pos large, Nat.shiftRight_eq_div_pow, List.cons_append, shiftsFrom, gather,
        if_neg (low_group_high value)] at run
      rcases count with _ | count
      · simp only [Nat.zero_add, Nat.pow_one] at enough
        omega
      -- the first group is `value % 128` at shift `i`, the others are `value / 128` at `i + 7`
      have split : value / 128 * (128 * 2 ^ i) + value % 128 * 2 ^ i = value * 2 ^ i := by
        rw [← Nat.mul_assoc, ← Nat.add_mul, Nat.div_add_mod']
      have lowBound : value % 128 * 2 ^ i ≤ 127 * 2 ^ i := Nat.mul_le_mul_right _ (by omega)
      have power : 2 ^ (i + 7) = 128 * 2 ^ i := by
        rw [Nat.pow_add]
        ring
      have lowFits : (((value &&& 0x7F) ||| 0x80).toUInt8 &&& 0x7F).toNat * 2 ^ i < 2 ^ bits := by
        rw [low_group_and]
        omega
      have placed := toNat_or_place toNat_or exact_below inside below lowFits
      rw [low_group_and] at placed
      have othersFit : value / 128 * 2 ^ (i + 7) < 2 ^ bits := by
        rw [power]
        omega
      have deeper : i + 7 < bits := by
        have one : 1 * 2 ^ (i + 7) ≤ value / 128 * 2 ^ (i + 7) := Nat.mul_le_mul_right _ (by omega)
        exact (Nat.pow_lt_pow_iff_right (by decide : 1 < 2)).mp (by omega)
      have tail := ih (next_group_lt written) (next_group_lt enough) deeper
        (by rw [placed, power]; omega) othersFit run
      rw [tail, placed, power]
      show toNat result + value % 128 * 2 ^ i + value / 128 * (128 * 2 ^ i) = _
      omega
    · rw [groups, if_neg large, List.singleton_append, shiftsFrom, gather,
        if_pos (last_group_low (by omega))] at run
      cases run
      exact last (by omega) inside below fits

end Exact

/-- A reader whose groups all stay below `2 ^ bits` reads a number below `2 ^ bits`. -/
theorem gather_lt {toNat : ω → Nat} {bits : Nat}
    (toNat_or : ∀ first second, toNat (first ||| second) = toNat first ||| toNat second)
    (bounded : ∀ (byte : UInt8) (i : Nat), toNat (place byte i) < 2 ^ bits) {shifts : List Nat}
    {result read : ω} {bytes rest : List UInt8} (below : toNat result < 2 ^ bits)
    (run : gather place shifts result bytes = some (read, rest)) : toNat read < 2 ^ bits := by
  have step (byte : UInt8) (i : Nat) (result : ω) (below : toNat result < 2 ^ bits) :
      toNat (result ||| place byte i) < 2 ^ bits := by
    rw [toNat_or]
    exact Nat.or_lt_two_pow below (bounded byte i)
  induction shifts generalizing result bytes with
  | nil =>
    cases run
    exact below
  | cons i shifts ih =>
    rcases bytes with _ | ⟨byte, bytes⟩
    · cases run
    · rw [gather] at run
      split at run
      · cases run
        exact step byte i result below
      · exact ih (step _ i result below) run

end Gather

/-! ### Signed words -/

section Zigzag

/-- Negative words become odd ones, the others even ones. -/
def zigzag {w : Nat} (word : BitVec w) : BitVec w :=
  if word.slt 0 then -word * 2 - 1 else word * 2

def unzigzag {w : Nat} (code : BitVec w) : BitVec w := code >>> 1 ^^^ -(code &&& 1)

variable {w : Nat} {word code : BitVec (w + 1)}

theorem slt_zero_iff : word.slt 0 = true ↔ 2 ^ w ≤ word.toNat := by
  show word.slt 0#(w + 1) = true ↔ _
  rw [BitVec.slt_zero_iff_msb_cond, BitVec.msb_eq_decide, decide_eq_true_eq, Nat.add_sub_cancel]

theorem toNat_double : (word * 2).toNat = 2 * word.toNat % 2 ^ (w + 1) := by
  show word.toNat * (2 % 2 ^ (w + 1)) % 2 ^ (w + 1) = _
  rw [Nat.mul_mod, Nat.mod_mod, ← Nat.mul_mod, Nat.mul_comm]

theorem toNat_zigzag_of_nonneg (nonneg : ¬ word.slt 0 = true) :
    (zigzag word).toNat = 2 * word.toNat := by
  rw [slt_zero_iff] at nonneg
  have power : 2 ^ (w + 1) = 2 * 2 ^ w := Nat.pow_succ'
  rw [zigzag, if_neg (by rwa [slt_zero_iff]), toNat_double]
  exact Nat.mod_eq_of_lt (by omega)

theorem toNat_zigzag_of_neg (neg : word.slt 0 = true) :
    (zigzag word).toNat = 2 * (2 ^ (w + 1) - word.toNat) - 1 := by
  have large := slt_zero_iff.mp neg
  have bound := word.isLt
  have power : 2 ^ (w + 1) = 2 * 2 ^ w := Nat.pow_succ'
  have half : 1 ≤ 2 ^ w := Nat.one_le_two_pow
  have one : (1 : BitVec (w + 1)).toNat = 1 := BitVec.toNat_one (Nat.succ_pos w)
  have opposite : (-word).toNat = 2 ^ (w + 1) - word.toNat := by
    rw [BitVec.toNat_neg]
    exact Nat.mod_eq_of_lt (by omega)
  rw [zigzag, if_pos neg, BitVec.toNat_sub, toNat_double, opposite, one]
  -- the smallest word doubles to zero, and the subtraction wraps around
  by_cases smallest : word.toNat = 2 ^ w
  · have zero : 2 * (2 ^ (w + 1) - word.toNat) % 2 ^ (w + 1) = 0 := by
      rw [show 2 * (2 ^ (w + 1) - word.toNat) = 2 ^ (w + 1) by omega, Nat.mod_self]
    rw [zero, Nat.add_zero, Nat.mod_eq_of_lt (by omega)]
    omega
  · have double : 2 * (2 ^ (w + 1) - word.toNat) % 2 ^ (w + 1) =
        2 * (2 ^ (w + 1) - word.toNat) := Nat.mod_eq_of_lt (by omega)
    rw [double, show 2 ^ (w + 1) - 1 + 2 * (2 ^ (w + 1) - word.toNat) =
      2 * (2 ^ (w + 1) - word.toNat) - 1 + 2 ^ (w + 1) by omega, Nat.add_mod_right]
    exact Nat.mod_eq_of_lt (by omega)

theorem and_one_eq : code &&& 1 = if code.toNat % 2 = 1 then 1 else 0 := by
  apply BitVec.eq_of_toNat_eq
  have one : (1 : BitVec (w + 1)).toNat = 1 := BitVec.toNat_one (Nat.succ_pos w)
  rw [BitVec.toNat_and, one, Nat.and_one_is_mod]
  split
  · rename_i odd
    rw [odd, one]
  · show code.toNat % 2 = 0 % 2 ^ (w + 1)
    rw [Nat.zero_mod]
    omega

theorem toNat_unzigzag_of_even (even : code.toNat % 2 = 0) :
    (unzigzag code).toNat = code.toNat / 2 := by
  rw [unzigzag, and_one_eq, if_neg (by omega)]
  show (code >>> 1 ^^^ -0#(w + 1)).toNat = _
  rw [BitVec.neg_zero, BitVec.xor_zero, BitVec.toNat_ushiftRight, Nat.shiftRight_eq_div_pow]

theorem toNat_unzigzag_of_odd (odd : code.toNat % 2 = 1) :
    (unzigzag code).toNat = 2 ^ (w + 1) - 1 - code.toNat / 2 := by
  rw [unzigzag, and_one_eq, if_pos odd]
  show (code >>> 1 ^^^ -1#(w + 1)).toNat = _
  rw [BitVec.neg_one_eq_allOnes, BitVec.xor_allOnes, BitVec.toNat_not, BitVec.toNat_ushiftRight,
    Nat.shiftRight_eq_div_pow]

/-- **Zigzag loses nothing**, the smallest word and the largest included. -/
theorem unzigzag_zigzag (word : BitVec (w + 1)) : unzigzag (zigzag word) = word := by
  have bound := word.isLt
  apply BitVec.eq_of_toNat_eq
  by_cases neg : word.slt 0 = true
  · have encoded := toNat_zigzag_of_neg neg
    rw [toNat_unzigzag_of_odd (by omega), encoded]
    omega
  · have encoded := toNat_zigzag_of_nonneg neg
    rw [toNat_unzigzag_of_even (by omega), encoded]
    omega

theorem zigzag_unzigzag (code : BitVec (w + 1)) : zigzag (unzigzag code) = code := by
  have bound := code.isLt
  have power : 2 ^ (w + 1) = 2 * 2 ^ w := Nat.pow_succ'
  apply BitVec.eq_of_toNat_eq
  by_cases even : code.toNat % 2 = 0
  · have decoded := toNat_unzigzag_of_even even
    rw [toNat_zigzag_of_nonneg (by rw [slt_zero_iff]; omega), decoded]
    omega
  · have decoded := @toNat_unzigzag_of_odd w code (by omega)
    rw [toNat_zigzag_of_neg (by rw [slt_zero_iff]; omega), decoded]
    omega

/-- Zigzag turns small words into small ones: those of at most `bits` bits with their sign. -/
theorem zigzag_lt_iff (word : BitVec (w + 1)) {bits : Nat} (within : bits ≤ w) :
    (zigzag word).toNat < 2 ^ (bits + 1) ↔ -2 ^ bits ≤ word.toInt ∧ word.toInt < 2 ^ bits := by
  have bound := word.isLt
  have power : 2 ^ (w + 1) = 2 * 2 ^ w := Nat.pow_succ'
  have powerBits : 2 ^ (bits + 1) = 2 * 2 ^ bits := Nat.pow_succ'
  have smaller : 2 ^ bits ≤ 2 ^ w := Nat.pow_le_pow_right (by decide) within
  have cast : ((2 ^ bits : Nat) : Int) = 2 ^ bits := by push_cast; rfl
  rw [BitVec.toInt_eq_toNat_cond, ← cast]
  by_cases neg : word.slt 0 = true
  · rw [toNat_zigzag_of_neg neg]
    rw [slt_zero_iff] at neg
    rw [if_neg (by omega)]
    omega
  · rw [toNat_zigzag_of_nonneg neg]
    rw [slt_zero_iff] at neg
    rw [if_pos (by omega)]
    omega

end Zigzag

end Encoding
