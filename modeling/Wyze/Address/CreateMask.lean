/-
**`CreateMask` and `CountBytes`.**

The templates are instantiated with `uint32_t` and `uint8_t`, here words of a given width. The shift of
`CreateMask` is on `int`: for the prefix length 0 of a 32-bit address it is by the whole width, and for
1 its result minus one is below `INT_MIN`. The language leaves both open, and `Target` is whatever
comes out.

* `createMask_eq`: elsewhere the mask has the ones that the prefix does not cover.
* `countBytes_leading`: the loop counts leading ones.
-/
import Wyze.Lib.Masks
import Wyze.Lib.Words

namespace Wyze.Address

open Masks

/-- What the compiler and the machine fix. -/
structure Target where
  bigEndian : Bool
  /-- `1 << amount` on `int` for an amount from 32 on. -/
  overShift : Nat → BitVec 32
  /-- `INT_MIN - 1`. -/
  underflow : BitVec 32

/-- A little-endian machine on which shifts use the low bits of the amount and sums wrap. -/
def x86 : Target :=
  { bigEndian := false
    overShift := fun amount => 1#32 <<< (amount % 32)
    underflow := BitVec.intMax 32 }

/-- `sizeof(T) * 8 - bits`, of type `size_t`. -/
def shiftAmount (width : Nat) (bits : UInt32) : Nat := sub64 width bits.toNat

/-- `1 << amount` on `int`. -/
def oneShifted (target : Target) (amount : Nat) : BitVec 32 :=
  if amount < 32 then 1#32 <<< amount else target.overShift amount

/-- `value - 1` on `int`. -/
def minusOne (target : Target) (value : BitVec 32) : BitVec 32 :=
  if value = BitVec.intMin 32 then target.underflow else value - 1#32

/-- `CreateMask<T>` for a `T` of that width. -/
def createMask (target : Target) (width : Nat) (bits : UInt32) : BitVec width :=
  (minusOne target (oneShifted target (shiftAmount width bits))).setWidth width

/-- The loop of `CountBytes`. -/
def countRounds {width : Nat} (value : BitVec width) (rt : BitVec 32) : BitVec 32 :=
  if value = BitVec.ofNat width 0 then rt
  else countRounds (value &&& (value - BitVec.ofNat width 1)) (rt + 1#32)
termination_by value.toNat
decreasing_by exact and_pred_lt (by assumption)

/-- `CountBytes<T>` for a `T` of that width. -/
def countBytes {width : Nat} (value : BitVec width) : BitVec width :=
  (countRounds value 0#32).setWidth width

variable {target : Target} {width count : Nat} {bits : UInt32}

theorem shiftAmount_of_le (fits : bits.toNat ≤ width) (small : width < 2 ^ 64) :
    shiftAmount width bits = width - bits.toNat :=
  sub64_of_le fits small

/-- **The mask** of a prefix whose shift stays in an `int`, where the subtraction does or wraps. -/
theorem createMask_eq (narrow : width ≤ 32) (fits : bits.toNat ≤ width)
    (inside : width - bits.toNat < 32)
    (wraps : width - bits.toNat = 31 → target.underflow = BitVec.intMax 32) :
    createMask target width bits = low width (width - bits.toNat) := by
  have amount : shiftAmount width bits = width - bits.toNat :=
    shiftAmount_of_le fits (by omega)
  have less : minusOne target (1#32 <<< (width - bits.toNat)) = low 32 (width - bits.toNat) := by
    rw [minusOne]
    by_cases last : width - bits.toNat = 31
    · rw [last, if_pos (by decide), wraps last]
      decide
    · have other : (1#32 <<< (width - bits.toNat)) ≠ BitVec.intMin 32 := by
        intro same
        have bit := congrArg (BitVec.getLsbD · (width - bits.toNat)) same
        rw [← BitVec.twoPow_eq] at bit
        simp only [BitVec.getLsbD_twoPow, BitVec.getLsbD_intMin] at bit
        grind
      rw [if_neg other, one_shiftLeft_sub_one inside]
  rw [createMask, oneShifted, amount, if_pos inside, less, setWidth_low narrow]

/-- The loop makes one round for each of the leading ones. -/
theorem countRounds_leading : ∀ {count : Nat}, count ≤ width → ∀ rt : BitVec 32,
    countRounds (leading width count) rt = rt + BitVec.ofNat 32 count := by
  intro count
  induction count with
  | zero =>
      intro _ rt
      rw [leading_zero, countRounds, if_pos rfl, BitVec.add_zero]
  | succ count ih =>
      intro fits rt
      rw [countRounds, if_neg (leading_ne_zero fits), leading_and_pred fits, ih (by omega),
        BitVec.add_assoc, ← BitVec.ofNat_add, Nat.add_comm 1 count]

/-- **`CountBytes` of leading ones** is their number. -/
theorem countBytes_leading (narrow : width ≤ 32) (fits : count ≤ width) :
    (countBytes (leading width count)).toNat = count := by
  have small : count < 2 ^ width := lt_of_le_of_lt fits Nat.lt_two_pow_self
  have less : count < 2 ^ 32 := lt_of_le_of_lt (fits.trans narrow) (by decide)
  rw [countBytes, countRounds_leading fits, BitVec.zero_add, BitVec.toNat_setWidth,
    BitVec.toNat_ofNat, Nat.mod_eq_of_lt less, Nat.mod_eq_of_lt small]

end Wyze.Address
