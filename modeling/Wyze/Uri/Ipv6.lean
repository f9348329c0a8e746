/-
**Which IPv6 literals `Create` takes.**

A literal of the grammar of addresses repeats the groups in front of `"::"` up to a number of times and
has a `dec_octet` up to 255; `uri.rl` repeats them an exact number of times and has none from 200 to 249.

* `mem_ipv6With`: the text of an address is its pieces, cut at the colons (`Spells`).
* `cut`: how many words of 16 bits the pieces are, and which octets a dotted tail has.
* `mem_decOctet_of_mem_rfcOctet`, `not_twoHundreds`: the octets of both grammars.
* `literal_iff`: the literals that are taken.
-/
import Mathlib.Tactic.IntervalCases
import Wyze.Uri.Literal

namespace Wyze

open Grammar RegularExpression
open Http (ascii)
open Http.Message (isDigit isXdigit digits)

namespace UriGrammar

/-! ### The grammar of addresses -/

/-- `dec-octet` of the grammar of addresses. -/
def rfcOctet : RegularExpression UInt8 := octetWith 50

/-- `IPv6address` of the grammar of addresses: `*n` repeats up to `n` times. -/
def rfcIpv6address : RegularExpression UInt8 := ipv6With upTo rfcOctet

/-- The octets from 200 to 249. -/
def TwoHundreds (octet : List UInt8) : Prop := 200 ≤ digits octet ∧ digits octet < 250

instance (octet : List UInt8) : Decidable (TwoHundreds octet) :=
  inferInstanceAs (Decidable (200 ≤ digits octet ∧ digits octet < 250))

/-- The words of 16 bits that a literal spells: its groups, and one more with a dotted tail. -/
def units (literal : List UInt8) : Nat :=
  ((literal.splitOn 58).filter (· ≠ [])).length + if 46 ∈ literal then 1 else 0

/-- The octets of a dotted tail. -/
def octets (literal : List UInt8) : List (List UInt8) :=
  if 46 ∈ literal then (((literal.splitOn 58).getLast?).getD []).splitOn 46 else []

/-- **A literal that `uri.rl` takes**: nothing is in front of `"::"`, or at least seven words are
spelled; and no octet is from 200 to 249. -/
def Kept (literal : List UInt8) : Prop :=
  (literal.head? = some 58 ∨ 7 ≤ units literal) ∧ ∀ octet ∈ octets literal, ¬ TwoHundreds octet

instance (literal : List UInt8) : Decidable (Kept literal) :=
  inferInstanceAs (Decidable ((literal.head? = some 58 ∨ 7 ≤ units literal) ∧
    ∀ octet ∈ octets literal, ¬ TwoHundreds octet))

/-! ### Words of the grammar -/

variable {text piece : List UInt8}

theorem mem_kind {may : UInt8 → Bool} :
    text ∈ (kind may).matches' ↔ ∃ byte, may byte = true ∧ text = [byte] := by
  rw [kind, mem_oneOf]
  simp only [List.mem_filter, mem_bytes, true_and]

theorem of_mem_h16 (mem : piece ∈ h16.matches') :
    piece ≠ [] ∧ ∀ byte ∈ piece, isXdigit byte = true := by
  obtain ⟨count, some_digits, _, repeated⟩ := mem_between.mp mem
  obtain ⟨length, all⟩ := mem_pow_oneOf.mp repeated
  exact ⟨List.ne_nil_of_length_pos (by omega), fun byte here => (List.mem_filter.mp (all byte here)).2⟩

theorem isXdigit_ne {byte other : UInt8} (digit : isXdigit byte = true)
    (none : isXdigit other = false) : byte ≠ other := by
  rintro rfl
  rw [none] at digit
  cases digit

theorem not_mem_of_mem_h16 {other : UInt8} (none : isXdigit other = false)
    (mem : piece ∈ h16.matches') : other ∉ piece :=
  fun here => isXdigit_ne ((of_mem_h16 mem).2 other here) none rfl

/-- The spellings of an octet. -/
theorem mem_octetWith {two : UInt8} : piece ∈ (octetWith two).matches' ↔
    (∃ a, isDigit a = true ∧ piece = [a]) ∨
    (∃ a b, (49 ≤ a ∧ a ≤ 57) ∧ isDigit b = true ∧ piece = [a, b]) ∨
    (∃ a b, isDigit a = true ∧ isDigit b = true ∧ piece = [49, a, b]) ∨
    (∃ a b, (48 ≤ a ∧ a ≤ 52) ∧ isDigit b = true ∧ piece = [two, a, b]) ∨
    ∃ a, (48 ≤ a ∧ a ≤ 53) ∧ piece = [50, 53, a] := by
  have inRange {low high : UInt8} {text : List UInt8} :
      text ∈ (range low high).matches' ↔ ∃ a, (low ≤ a ∧ a ≤ high) ∧ text = [a] := by
    rw [range, mem_kind]
    simp only [Bool.and_eq_true, decide_eq_true_eq]
  have isDigit' {text : List UInt8} :
      text ∈ digit.matches' ↔ ∃ a, isDigit a = true ∧ text = [a] := mem_kind
  have twice {text : List UInt8} : text ∈ digit.matches' ^ 2 ↔
      ∃ a b, isDigit a = true ∧ isDigit b = true ∧ text = [a, b] := by
    rw [pow_two, Language.mem_mul]
    simp only [isDigit']
    constructor
    · rintro ⟨_, ⟨a, first, rfl⟩, _, ⟨b, second, rfl⟩, rfl⟩
      exact ⟨a, b, first, second, rfl⟩
    · rintro ⟨a, b, first, second, rfl⟩
      exact ⟨[a], ⟨a, first, rfl⟩, [b], ⟨b, second, rfl⟩, rfl⟩
  have spelled : ascii "25" = [50, 53] := by decide
  simp only [octetWith, matches'_add, matches'_mul, matches'_pow, matches'_char, Language.mem_add,
    Language.mem_mul, isDigit', inRange, twice, mem_word, spelled, or_assoc]
  refine or_congr Iff.rfl (or_congr ?_ (or_congr ?_ (or_congr ?_ ?_)))
  · constructor
    · rintro ⟨_, ⟨a, first, rfl⟩, _, ⟨b, second, rfl⟩, rfl⟩
      exact ⟨a, b, first, second, rfl⟩
    · rintro ⟨a, b, first, second, rfl⟩
      exact ⟨[a], ⟨a, first, rfl⟩, [b], ⟨b, second, rfl⟩, rfl⟩
  · constructor
    · rintro ⟨_, rfl, _, ⟨a, b, first, second, rfl⟩, rfl⟩
      exact ⟨a, b, first, second, rfl⟩
    · rintro ⟨a, b, first, second, rfl⟩
      exact ⟨[49], rfl, [a, b], ⟨a, b, first, second, rfl⟩, rfl⟩
  · constructor
    · rintro ⟨_, rfl, _, ⟨_, ⟨a, first, rfl⟩, _, ⟨b, second, rfl⟩, rfl⟩, rfl⟩
      exact ⟨a, b, first, second, rfl⟩
    · rintro ⟨a, b, first, second, rfl⟩
      exact ⟨[two], rfl, [a, b], ⟨[a], ⟨a, first, rfl⟩, [b], ⟨b, second, rfl⟩, rfl⟩, rfl⟩
  · constructor
    · rintro ⟨_, rfl, _, ⟨a, last, rfl⟩, rfl⟩
      exact ⟨a, last, rfl⟩
    · rintro ⟨a, last, rfl⟩
      exact ⟨[50, 53], rfl, [a], ⟨a, last, rfl⟩, rfl⟩

theorem toNat_isDigit {byte : UInt8} (digit : isDigit byte = true) :
    48 ≤ byte.toNat ∧ byte.toNat ≤ 57 := by
  simpa [isDigit, UInt8.le_iff_toNat_le] using digit

/-- No octet of `uri.rl` is from 200 to 249. -/
theorem not_twoHundreds (mem : piece ∈ decOctet.matches') : ¬ TwoHundreds piece := by
  unfold TwoHundreds digits
  rcases mem_octetWith.mp mem with ⟨a, first, rfl⟩ | ⟨a, b, ⟨_, most⟩, second, rfl⟩ |
    ⟨a, b, first, second, rfl⟩ | ⟨a, b, ⟨_, most⟩, second, rfl⟩ | ⟨a, ⟨least, _⟩, rfl⟩
  · have := toNat_isDigit first
    simp only [List.foldl_cons, List.foldl_nil]
    omega
  · have := toNat_isDigit second
    have := UInt8.le_iff_toNat_le.mp most
    simp only [List.foldl_cons, List.foldl_nil, UInt8.reduceToNat] at *
    omega
  · have := toNat_isDigit first
    have := toNat_isDigit second
    simp only [List.foldl_cons, List.foldl_nil, UInt8.reduceToNat]
    omega
  · have := toNat_isDigit second
    have := UInt8.le_iff_toNat_le.mp most
    simp only [List.foldl_cons, List.foldl_nil, UInt8.reduceToNat] at *
    omega
  · simp only [List.foldl_cons, List.foldl_nil, UInt8.reduceToNat]
    omega

/-- Every other octet of the grammar of addresses is one of `uri.rl`. -/
theorem mem_decOctet_of_mem_rfcOctet (mem : piece ∈ rfcOctet.matches') (other : ¬ TwoHundreds piece) :
    piece ∈ decOctet.matches' := by
  refine mem_octetWith.mpr ?_
  rcases mem_octetWith.mp mem with one | two | hundred | ⟨a, b, ⟨least, most⟩, second, rfl⟩ | upper
  · exact Or.inl one
  · exact Or.inr (Or.inl two)
  · exact Or.inr (Or.inr (Or.inl hundred))
  · have := toNat_isDigit second
    have := UInt8.le_iff_toNat_le.mp least
    have := UInt8.le_iff_toNat_le.mp most
    refine absurd ?_ other
    unfold TwoHundreds digits
    simp only [List.foldl_cons, List.foldl_nil, UInt8.reduceToNat] at *
    omega
  · exact Or.inr (Or.inr (Or.inr (Or.inr upper)))

/-! ### The pieces of an address -/

/-- Groups with colons behind them and a last piece, that are `count` words together: the last piece is
a group or a dotted tail, and only nothing at all has none. -/
def Tail (octet : RegularExpression UInt8) (count : Nat) (groups : List (List UInt8))
    (last : List UInt8) : Prop :=
  (∀ group ∈ groups, group ∈ h16.matches') ∧
    (last = [] ∧ groups = [] ∧ count = 0 ∨ last ∈ h16.matches' ∧ count = groups.length + 1 ∨
      last ∈ (ipv4address octet).matches' ∧ count = groups.length + 2)

/-- What stands behind `"::"`, for each number of words. -/
def back (octet : RegularExpression UInt8) : Nat → RegularExpression UInt8
  | 0 => 1
  | 1 => h16
  | more + 2 => h16c ^ more * ls32 octet

variable {octet : RegularExpression UInt8}

theorem mem_pow_h16c {count : Nat} : text ∈ (h16c ^ count).matches' ↔
    ∃ groups : List (List UInt8), groups.length = count ∧ (∀ group ∈ groups, group ∈ h16.matches') ∧
      text = terminated 58 groups := by
  rw [matches'_pow]
  exact mem_pow_terminated

/-- The last two words. -/
theorem mem_ls32 : text ∈ (ls32 octet).matches' ↔
    (∃ group last, group ∈ h16.matches' ∧ last ∈ h16.matches' ∧ text = group ++ [58] ++ last) ∨
      text ∈ (ipv4address octet).matches' := by
  refine (Language.mem_add _ _ _).trans (or_congr_left ?_)
  rw [h16c, matches'_mul, matches'_mul, Language.mem_mul]
  constructor
  · rintro ⟨_, ⟨group, first, _, rfl, rfl⟩, last, second, rfl⟩
    exact ⟨group, last, first, second, rfl⟩
  · rintro ⟨group, last, first, second, rfl⟩
    exact ⟨_, ⟨group, first, [58], rfl, rfl⟩, last, second, rfl⟩

theorem mem_back {count : Nat} : text ∈ (back octet count).matches' ↔
    ∃ groups last, Tail octet count groups last ∧ text = terminated 58 groups ++ last := by
  rcases count with _ | _ | more
  · constructor
    · intro empty
      exact ⟨[], [], ⟨by simp, Or.inl ⟨rfl, rfl, rfl⟩⟩, empty⟩
    · rintro ⟨groups, last, ⟨_, ⟨rfl, rfl, _⟩ | ⟨_, few⟩ | ⟨_, few⟩⟩, rfl⟩
      · rfl
      · omega
      · omega
  · constructor
    · intro group
      exact ⟨[], text, ⟨by simp, Or.inr (Or.inl ⟨group, rfl⟩)⟩, rfl⟩
    · rintro ⟨groups, last, ⟨_, ⟨_, _, few⟩ | ⟨group, few⟩ | ⟨_, few⟩⟩, rfl⟩
      · omega
      · rw [List.length_eq_zero_iff.mp (Nat.succ.inj few).symm]
        exact group
      · omega
  · rw [back, matches'_mul, Language.mem_mul]
    constructor
    · rintro ⟨_, front, rest, ends, rfl⟩
      obtain ⟨groups, length, all, rfl⟩ := mem_pow_h16c.mp front
      rcases mem_ls32.mp ends with ⟨group, last, first, second, rfl⟩ | dotted
      · refine ⟨groups ++ [group], last, ⟨?_, Or.inr (Or.inl ⟨second, ?_⟩)⟩, ?_⟩
        · rw [List.forall_mem_append, List.forall_mem_singleton]
          exact ⟨all, first⟩
        · rw [List.length_append, length]
          rfl
        · rw [terminated_concat]
          simp
      · exact ⟨groups, rest, ⟨all, Or.inr (Or.inr ⟨dotted, by rw [length]⟩)⟩, rfl⟩
    · rintro ⟨groups, last, ⟨all, ⟨_, _, few⟩ | ⟨second, length⟩ | ⟨dotted, length⟩⟩, rfl⟩
      · omega
      · obtain ⟨front, group, rfl⟩ : ∃ front group, groups = front ++ [group] :=
          (List.eq_nil_or_concat' groups).resolve_left (by rintro rfl; simp at length)
        rw [List.forall_mem_append, List.forall_mem_singleton] at all
        rw [List.length_append, List.length_singleton] at length
        refine ⟨terminated 58 front, mem_pow_h16c.mpr ⟨front, by omega, all.1, rfl⟩,
          group ++ [58] ++ last, mem_ls32.mpr (Or.inl ⟨group, last, all.2, second, rfl⟩), ?_⟩
        rw [terminated_concat]
        simp
      · exact ⟨terminated 58 groups, mem_pow_h16c.mpr ⟨groups, by omega, all, rfl⟩, last,
          mem_ls32.mpr (Or.inr dotted), rfl⟩

/-- The pieces up to the `"::"` with these groups in front of it. -/
def gapped (front : List (List UInt8)) : List (List UInt8) :=
  (if front = [] then [[]] else front) ++ [[]]

section Times

variable {times : RegularExpression UInt8 → Nat → RegularExpression UInt8} {allowed : Nat → Nat → Prop}

/-- What stands in front of so many words, up to the `"::"`. -/
def before (times : RegularExpression UInt8 → Nat → RegularExpression UInt8) :
    Nat → RegularExpression UInt8
  | 6 => opt h16 * gap
  | 7 => gap
  | count => opt (times h16c (6 - count) * h16) * gap

/-- How many groups may stand in front of so many words, when `allowed` says how many `times` gives. -/
def Fits (allowed : Nat → Nat → Prop) (front count : Nat) : Prop :=
  front = 0 ∨ ∃ more, front = more + 1 ∧ count ≤ 6 ∧ allowed more (6 - count)

theorem mem_gap : text ∈ gap.matches' ↔ text = [58, 58] := by
  have spelled : ascii "::" = [58, 58] := by decide
  rw [gap, mem_word, spelled]

/-- A group, or groups and one more, in front of `"::"`. -/
theorem mem_opt_gap {groups : RegularExpression UInt8} {holds : Nat → Prop}
    (counts : ∀ text, text ∈ groups.matches' ↔ ∃ count, holds count ∧ text ∈ h16c.matches' ^ count) :
    text ∈ (opt (groups * h16) * gap).matches' ↔
      ∃ front : List (List UInt8), (∀ group ∈ front, group ∈ h16.matches') ∧
        (front.length = 0 ∨ ∃ more, front.length = more + 1 ∧ holds more) ∧
        text = terminated 58 (gapped front) := by
  rw [matches'_mul, Language.mem_mul]
  constructor
  · rintro ⟨first, may, _, colons, rfl⟩
    rw [mem_gap.mp colons]
    rcases mem_opt.mp may with some_groups | rfl
    · rw [matches'_mul, Language.mem_mul] at some_groups
      obtain ⟨_, front, group, last, rfl⟩ := some_groups
      obtain ⟨count, held, repeated⟩ := (counts _).mp front
      rw [← matches'_pow] at repeated
      obtain ⟨pieces, length, all, rfl⟩ := mem_pow_h16c.mp repeated
      refine ⟨pieces ++ [group], ?_, Or.inr ⟨count, by rw [List.length_append, length]; rfl, held⟩, ?_⟩
      · rw [List.forall_mem_append, List.forall_mem_singleton]
        exact ⟨all, last⟩
      · rw [gapped, if_neg (by simp), terminated_concat, terminated_concat]
        simp
    · exact ⟨[], by simp, Or.inl rfl, rfl⟩
  · rintro ⟨front, all, counted, rfl⟩
    rcases List.eq_nil_or_concat' front with rfl | ⟨pieces, group, rfl⟩
    · exact ⟨[], mem_opt.mpr (Or.inr rfl), [58, 58], mem_gap.mpr rfl, rfl⟩
    · rw [List.forall_mem_append, List.forall_mem_singleton] at all
      rw [List.length_append, List.length_singleton] at counted
      obtain ⟨more, length, held⟩ := counted.resolve_left (Nat.succ_ne_zero _)
      refine ⟨terminated 58 pieces ++ group, mem_opt.mpr (Or.inl ?_), [58, 58], mem_gap.mpr rfl, ?_⟩
      · rw [matches'_mul]
        refine Language.append_mem_mul ((counts _).mpr ⟨more, held, ?_⟩) all.2
        rw [← matches'_pow]
        exact mem_pow_h16c.mpr ⟨pieces, Nat.succ.inj length, all.1, rfl⟩
      · rw [gapped, if_neg (by simp), terminated_concat, terminated_concat]
        simp

variable (counts : ∀ most text, text ∈ (times h16c most).matches' ↔
  ∃ count, allowed count most ∧ text ∈ h16c.matches' ^ count)
  (least : ∀ count, allowed count 0 ↔ count = 0)

include counts least in
theorem mem_before {count : Nat} (few : count ≤ 7) : text ∈ (before times count).matches' ↔
    ∃ front : List (List UInt8), (∀ group ∈ front, group ∈ h16.matches') ∧
      Fits allowed front.length count ∧ text = terminated 58 (gapped front) := by
  have none_times (text : List UInt8) : text ∈ (1 : RegularExpression UInt8).matches' ↔
      ∃ count, count = 0 ∧ text ∈ h16c.matches' ^ count := by
    rw [exists_eq_left, pow_zero]
    rfl
  unfold before
  split
  · have optional : text ∈ (opt h16 * gap).matches' ↔ text ∈ (opt (1 * h16) * gap).matches' := by
      simp only [opt, matches'_mul, matches'_add, matches'_epsilon, one_mul]
    rw [optional, mem_opt_gap none_times]
    simp only [Fits, Nat.sub_self, least, le_refl, true_and]
  · rw [mem_gap]
    constructor
    · rintro rfl
      exact ⟨[], by simp, Or.inl rfl, rfl⟩
    · rintro ⟨front, _, none_left | ⟨_, _, absurd_, _⟩, rfl⟩
      · rw [List.length_eq_zero_iff.mp none_left]
        rfl
      · omega
  · rename_i notSix notSeven
    have here : count ≤ 6 := by
      have : count ≠ 7 := notSeven
      omega
    rw [mem_opt_gap (counts (6 - count))]
    simp only [Fits, here, true_and]

/-- The pieces of an address. -/
def Spells (allowed : Nat → Nat → Prop) (octet : RegularExpression UInt8) (text : List UInt8) : Prop :=
  (∃ groups last, Tail octet 8 groups last ∧ text = terminated 58 groups ++ last) ∨
    ∃ front count groups last, (∀ group ∈ front, group ∈ h16.matches') ∧ count ≤ 7 ∧
      Fits allowed front.length count ∧ Tail octet count groups last ∧
      text = terminated 58 (gapped front ++ groups) ++ last

/-- Nine lines, eight of them counted down. -/
theorem lines_iff (full : Prop) (line : Nat → Prop) :
    ((((((((full ∨ line 7) ∨ line 6) ∨ line 5) ∨ line 4) ∨ line 3) ∨ line 2) ∨ line 1) ∨ line 0) ↔
      full ∨ ∃ count ≤ 7, line count := by
  constructor
  · rintro ((((((((full | here) | here) | here) | here) | here) | here) | here) | here)
    · exact Or.inl full
    · exact Or.inr ⟨7, by decide, here⟩
    · exact Or.inr ⟨6, by decide, here⟩
    · exact Or.inr ⟨5, by decide, here⟩
    · exact Or.inr ⟨4, by decide, here⟩
    · exact Or.inr ⟨3, by decide, here⟩
    · exact Or.inr ⟨2, by decide, here⟩
    · exact Or.inr ⟨1, by decide, here⟩
    · exact Or.inr ⟨0, by decide, here⟩
  · rintro (full | ⟨count, few, here⟩)
    · simp only [full, true_or]
    · interval_cases count <;> simp only [here, true_or, or_true]

/-- The nine lines of the grammar, those with `"::"` by the words behind it. -/
theorem mem_lines : text ∈ (ipv6With times octet).matches' ↔
    text ∈ (back octet 8).matches' ∨
      ∃ count ≤ 7, text ∈ (before times count * back octet count).matches' := by
  let line (count : Nat) := text ∈ (before times count * back octet count).matches'
  have last : text ∈ (opt (times h16c 6 * h16) * gap).matches' ↔ line 0 := by
    show _ ↔ text ∈ (opt (times h16c 6 * h16) * gap * 1).matches'
    rw [matches'_mul _ 1, matches'_epsilon, mul_one]
  have direct : text ∈ (opt (times h16c 4 * h16) * gap * ls32 octet).matches' ↔ line 2 := by
    show _ ↔ text ∈ (opt (times h16c 4 * h16) * gap * (1 * ls32 octet)).matches'
    rw [matches'_mul, matches'_mul _ (1 * ls32 octet), matches'_mul 1, matches'_epsilon, one_mul]
  have lines : text ∈ (ipv6With times octet).matches' ↔
      ((((((((text ∈ (back octet 8).matches' ∨ line 7) ∨ line 6) ∨ line 5) ∨ line 4) ∨ line 3) ∨
        line 2) ∨ line 1) ∨ line 0) := by
    simp only [ipv6With, matches'_add, Language.mem_add, last, direct]
    exact Iff.rfl
  exact lines.trans (lines_iff _ line)

include counts least in
/-- **The text of an address is its pieces**, each but the last with a colon behind it. -/
theorem mem_ipv6With : text ∈ (ipv6With times octet).matches' ↔ Spells allowed octet text := by
  rw [mem_lines, Spells, mem_back]
  refine or_congr Iff.rfl ?_
  constructor
  · rintro ⟨count, few, mem⟩
    rw [matches'_mul, Language.mem_mul] at mem
    obtain ⟨_, gone, _, behind, rfl⟩ := mem
    obtain ⟨front, all, fits, rfl⟩ := (mem_before counts least few).mp gone
    obtain ⟨groups, last, tail, rfl⟩ := mem_back.mp behind
    exact ⟨front, count, groups, last, all, few, fits, tail,
      by rw [terminated_append, List.append_assoc]⟩
  · rintro ⟨front, count, groups, last, all, few, fits, tail, rfl⟩
    refine ⟨count, few, ?_⟩
    rw [matches'_mul, terminated_append, List.append_assoc]
    exact Language.append_mem_mul ((mem_before counts least few).mpr ⟨front, all, fits, rfl⟩)
      (mem_back.mpr ⟨groups, last, tail, rfl⟩)

end Times

/-! ### What a literal spells -/

/-- Octets are spelled with digits, or with the byte 2. -/
def Plain (octet : RegularExpression UInt8) : Prop :=
  ∀ piece ∈ octet.matches', ∀ byte ∈ piece, isDigit byte = true ∨ byte = 2

theorem plain_octetWith {two : UInt8} (known : isDigit two = true ∨ two = 2) :
    Plain (octetWith two) := by
  have digitOf {low high byte : UInt8} (from_ : 48 ≤ low) (upTo_ : high ≤ 57)
      (inside : low ≤ byte ∧ byte ≤ high) : isDigit byte = true := by
    rw [isDigit, Bool.and_eq_true, decide_eq_true_eq, decide_eq_true_eq]
    exact ⟨UInt8.le_trans from_ inside.1, UInt8.le_trans inside.2 upTo_⟩
  intro piece mem
  rcases mem_octetWith.mp mem with ⟨a, first, rfl⟩ | ⟨a, b, first, second, rfl⟩ |
    ⟨a, b, first, second, rfl⟩ | ⟨a, b, first, second, rfl⟩ | ⟨a, first, rfl⟩
  · simp [first]
  · simp [digitOf (by decide) (by decide) first, second]
  · simp [first, second, show isDigit 49 = true from rfl]
  · simp [digitOf (by decide) (by decide) first, second, known]
  · simp [digitOf (by decide) (by decide) first, show isDigit 50 = true from rfl,
      show isDigit 53 = true from rfl]

theorem Plain.not_mem (plain : Plain octet) {other : UInt8} (none : isDigit other = false)
    (notTwo : other ≠ 2) (mem : piece ∈ octet.matches') : other ∉ piece := by
  intro here
  rcases plain piece mem other here with digit | two
  · rw [none] at digit
    cases digit
  · exact notTwo two

/-- The octets of a dotted tail. -/
theorem mem_ipv4address : text ∈ (ipv4address octet).matches' ↔
    ∃ parts last, parts.length = 3 ∧ (∀ part ∈ parts, part ∈ octet.matches') ∧
      last ∈ octet.matches' ∧ text = terminated 46 parts ++ last := by
  rw [ipv4address, matches'_mul, matches'_pow, Language.mem_mul]
  constructor
  · rintro ⟨_, front, last, ends, rfl⟩
    obtain ⟨parts, length, all, rfl⟩ := mem_pow_terminated.mp front
    exact ⟨parts, last, length, all, ends, rfl⟩
  · rintro ⟨parts, last, length, all, ends, rfl⟩
    exact ⟨_, mem_pow_terminated.mpr ⟨parts, length, all, rfl⟩, last, ends, rfl⟩

/-- A dotted tail has a dot, no colon, and is cut at its dots. -/
theorem Plain.dotted (plain : Plain octet) (mem : text ∈ (ipv4address octet).matches') :
    46 ∈ text ∧ (∀ byte ∈ text, isDigit byte = true ∨ byte = 2 ∨ byte = 46) ∧
      ∀ part ∈ text.splitOn 46, part ∈ octet.matches' := by
  obtain ⟨parts, last, length, all, ends, rfl⟩ := mem_ipv4address.mp mem
  refine ⟨?_, ?_, ?_⟩
  · obtain ⟨first, others, rfl⟩ := List.exists_cons_of_ne_nil
      (show parts ≠ [] by rintro rfl; cases length)
    rw [terminated_cons]
    simp
  · intro byte here
    have known {piece : List UInt8} (mem : piece ∈ octet.matches') (inside : byte ∈ piece) :
        isDigit byte = true ∨ byte = 2 ∨ byte = 46 :=
      (plain piece mem byte inside).imp_right Or.inl
    rcases List.mem_append.mp here with front | inside
    · rcases of_mem_terminated front with dot | ⟨part, mem, inside⟩
      · exact Or.inr (Or.inr dot)
      · exact known (all part mem) inside
    · exact known ends inside
  · rw [splitOn_terminated (fun part mem => plain.not_mem rfl (by decide) (all part mem))
      (plain.not_mem rfl (by decide) ends), List.forall_mem_append, List.forall_mem_singleton]
    exact ⟨all, ends⟩

theorem isXdigit_of_isDigit {byte : UInt8} (digit : isDigit byte = true) : isXdigit byte = true := by
  rw [isXdigit, digit]
  rfl

/-- The bytes of a literal. -/
def isLiteralByte (byte : UInt8) : Bool := isXdigit byte || byte = 2 || byte = 46 || byte = 58

/-- The last piece of a tail has no colon, and a dot exactly when it is dotted. -/
theorem Tail.last (plain : Plain octet) {count : Nat} {groups : List (List UInt8)}
    {last : List UInt8} (tail : Tail octet count groups last) :
    58 ∉ last ∧ (∀ byte ∈ last, isLiteralByte byte = true) ∧
      groups.length + [last].countP (· ≠ []) + (if 46 ∈ last then 1 else 0) = count ∧
      (46 ∈ last → last ∈ (ipv4address octet).matches') := by
  obtain ⟨_, ⟨rfl, rfl, rfl⟩ | ⟨group, rfl⟩ | ⟨dotted, rfl⟩⟩ := tail
  · simp
  · have noDot := not_mem_of_mem_h16 (show isXdigit 46 = false by decide) group
    refine ⟨not_mem_of_mem_h16 (by decide) group, fun byte here => ?_, ?_, fun dot => absurd dot noDot⟩
    · simp [isLiteralByte, (of_mem_h16 group).2 byte here]
    · simp [noDot, (of_mem_h16 group).1]
  · obtain ⟨dot, bytes, _⟩ := plain.dotted dotted
    have nonempty : last ≠ [] := List.ne_nil_of_mem dot
    refine ⟨fun colon => absurd (bytes 58 colon) (by decide), fun byte here => ?_, ?_, fun _ => dotted⟩
    · rcases bytes byte here with digit | two | dot
      · simp [isLiteralByte, isXdigit_of_isDigit digit]
      · simp [isLiteralByte, two]
      · simp [isLiteralByte, dot]
    · simp [dot, nonempty]

/-- No group is empty. -/
theorem countP_groups {groups : List (List UInt8)} (all : ∀ group ∈ groups, group ∈ h16.matches') :
    groups.countP (· ≠ []) = groups.length := by
  rw [List.countP_eq_length]
  exact fun group mem => decide_eq_true (of_mem_h16 (all group mem)).1

/-- **What the pieces of a text say about it**, when all but those of a tail are empty or groups. -/
theorem cut (plain : Plain octet) {lead : List (List UInt8)}
    (groupsOrNothing : ∀ piece ∈ lead, piece = [] ∨ piece ∈ h16.matches') {count : Nat}
    {groups : List (List UInt8)} {last : List UInt8} (tail : Tail octet count groups last)
    (spelled : text = terminated 58 (lead ++ groups) ++ last) :
    units text = lead.countP (· ≠ []) + count ∧
      octets text = (if 46 ∈ last then last.splitOn 46 else []) ∧
      ∀ byte ∈ text, isLiteralByte byte = true := by
  obtain ⟨noColon, lastBytes, total, _⟩ := tail.last plain
  have group_of {piece : List UInt8} (mem : piece ∈ lead ++ groups) :
      piece = [] ∨ piece ∈ h16.matches' :=
    (List.mem_append.mp mem).elim (groupsOrNothing piece) fun mem => Or.inr (tail.1 piece mem)
  have apart {other : UInt8} (none : isXdigit other = false) :
      ∀ piece ∈ lead ++ groups, other ∉ piece := by
    intro piece mem
    rcases group_of mem with rfl | group
    · exact List.not_mem_nil
    · exact not_mem_of_mem_h16 none group
  have pieces : text.splitOn 58 = lead ++ groups ++ [last] := by
    rw [spelled]
    exact splitOn_terminated (apart (by decide)) noColon
  have dot : 46 ∈ text ↔ 46 ∈ last := by
    rw [spelled, List.mem_append, or_iff_right]
    intro front
    rcases of_mem_terminated front with same | ⟨piece, mem, here⟩
    · cases same
    · exact apart (by decide) piece mem here
  refine ⟨?_, ?_, fun byte here => ?_⟩
  · rw [units, pieces, ← List.countP_eq_length_filter, List.countP_append, List.countP_append,
      countP_groups tail.1]
    simp only [dot]
    omega
  · rw [octets, pieces, List.getLast?_concat]
    simp only [dot, Option.getD_some]
  · rw [spelled] at here
    rcases List.mem_append.mp here with front | inside
    · rcases of_mem_terminated front with rfl | ⟨piece, mem, inside⟩
      · rfl
      · rcases group_of mem with rfl | group
        · cases inside
        · simp [isLiteralByte, (of_mem_h16 group).2 byte inside]
    · exact lastBytes byte inside

theorem no_lead : ∀ piece ∈ ([] : List (List UInt8)), piece = [] ∨ piece ∈ h16.matches' :=
  fun _ mem => absurd mem List.not_mem_nil

theorem gapped_or {front : List (List UInt8)} (all : ∀ group ∈ front, group ∈ h16.matches') :
    ∀ piece ∈ gapped front, piece = [] ∨ piece ∈ h16.matches' := by
  intro piece mem
  rw [gapped] at mem
  rcases List.mem_append.mp mem with here | last
  · split at here
    · exact Or.inl (List.mem_singleton.mp here)
    · exact Or.inr (all piece here)
  · exact Or.inl (List.mem_singleton.mp last)

theorem countP_gapped {front : List (List UInt8)} (all : ∀ group ∈ front, group ∈ h16.matches') :
    (gapped front).countP (· ≠ []) = front.length := by
  rw [gapped, List.countP_append]
  split
  · rename_i empty
    rw [empty]
    rfl
  · rw [countP_groups all]
    rfl

/-- A literal begins with a colon when nothing is in front of `"::"`. -/
theorem head_gapped {front : List (List UInt8)} (all : ∀ group ∈ front, group ∈ h16.matches')
    (rest : List (List UInt8)) (last : List UInt8) :
    (terminated 58 (gapped front ++ rest) ++ last).head? = some 58 ↔ front = [] := by
  rcases front with _ | ⟨group, front⟩
  · exact iff_of_true rfl rfl
  · refine iff_of_false ?_ (List.cons_ne_nil _ _)
    have first := List.forall_mem_cons.mp all |>.1
    obtain ⟨byte, bytes, rfl⟩ := List.exists_cons_of_ne_nil (of_mem_h16 first).1
    intro colon
    cases colon
    exact not_mem_of_mem_h16 (by decide) first List.mem_cons_self

theorem plain_decOctet : Plain decOctet := plain_octetWith (Or.inr rfl)

theorem plain_rfcOctet : Plain rfcOctet := plain_octetWith (Or.inl (by decide))

/-- The octets of a tail of `uri.rl`. -/
theorem Tail.not_twoHundreds {count : Nat} {groups : List (List UInt8)} {last : List UInt8}
    (tail : Tail decOctet count groups last) :
    ∀ octet ∈ if 46 ∈ last then last.splitOn 46 else [], ¬ TwoHundreds octet := by
  obtain ⟨_, _, _, dotted⟩ := tail.last plain_decOctet
  split
  · rename_i dot
    intro octet mem
    exact UriGrammar.not_twoHundreds ((plain_decOctet.dotted (dotted dot)).2.2 octet mem)
  · simp

/-- A tail of an address whose octets are none from 200 to 249 is one of `uri.rl`. -/
theorem Tail.kept {count : Nat} {groups : List (List UInt8)} {last : List UInt8}
    (tail : Tail rfcOctet count groups last)
    (others : ∀ octet ∈ if 46 ∈ last then last.splitOn 46 else [], ¬ TwoHundreds octet) :
    Tail decOctet count groups last := by
  obtain ⟨all, nothing | group | ⟨dotted, length⟩⟩ := tail
  · exact ⟨all, Or.inl nothing⟩
  · exact ⟨all, Or.inr (Or.inl group)⟩
  · refine ⟨all, Or.inr (Or.inr ⟨?_, length⟩)⟩
    obtain ⟨dot, _, _⟩ := plain_rfcOctet.dotted dotted
    obtain ⟨parts, final, three, parts_mem, final_mem, rfl⟩ := mem_ipv4address.mp dotted
    rw [if_pos dot, splitOn_terminated
      (fun part mem => plain_rfcOctet.not_mem rfl (by decide) (parts_mem part mem))
      (plain_rfcOctet.not_mem rfl (by decide) final_mem), List.forall_mem_append,
      List.forall_mem_singleton] at others
    exact mem_ipv4address.mpr ⟨parts, final, three,
      fun part mem => mem_decOctet_of_mem_rfcOctet (parts_mem part mem) (others.1 part mem),
      mem_decOctet_of_mem_rfcOctet final_mem others.2, rfl⟩

theorem kept_of_spells (spells : Spells (· = ·) decOctet text) : Kept text := by
  rcases spells with ⟨groups, last, tail, spelled⟩ |
    ⟨front, count, groups, last, all, _, fits, tail, spelled⟩
  · obtain ⟨words, dotted, _⟩ := cut plain_decOctet no_lead tail spelled
    refine ⟨Or.inr ?_, ?_⟩
    · rw [words]
      exact Nat.le_add_left 7 1
    · rw [dotted]
      exact tail.not_twoHundreds
  · obtain ⟨words, dotted, _⟩ := cut plain_decOctet (gapped_or all) tail spelled
    rw [countP_gapped all] at words
    refine ⟨?_, ?_⟩
    · rcases fits with none_left | ⟨more, length, few, exactly⟩
      · rw [spelled]
        exact Or.inl ((head_gapped all groups last).mpr (List.length_eq_zero_iff.mp none_left))
      · exact Or.inr (by omega)
    · rw [dotted]
      exact tail.not_twoHundreds

theorem spells_of_kept (spells : Spells (· ≤ ·) rfcOctet text) (kept : Kept text) :
    Spells (· = ·) decOctet text := by
  obtain ⟨shape, others⟩ := kept
  rcases spells with ⟨groups, last, tail, spelled⟩ |
    ⟨front, count, groups, last, all, few, fits, tail, spelled⟩
  · obtain ⟨_, dotted, _⟩ := cut plain_rfcOctet no_lead tail spelled
    rw [dotted] at others
    exact Or.inl ⟨groups, last, tail.kept others, spelled⟩
  · obtain ⟨words, dotted, _⟩ := cut plain_rfcOctet (gapped_or all) tail spelled
    rw [dotted] at others
    rw [countP_gapped all] at words
    refine Or.inr ⟨front, count, groups, last, all, few, ?_, tail.kept others, spelled⟩
    rcases fits with none_left | ⟨more, length, most, up⟩
    · exact Or.inl none_left
    · rcases shape with colon | seven
      · rw [spelled, head_gapped all] at colon
        exact Or.inl (List.length_eq_zero_iff.mpr colon)
      · exact Or.inr ⟨more, length, most, by omega⟩

theorem mem_ipv6address : text ∈ ipv6address.matches' ↔ Spells (· = ·) decOctet text := by
  refine mem_ipv6With (fun most text => ?_) fun count => Iff.rfl
  rw [exists_eq_left, matches'_pow]

theorem mem_rfcIpv6address : text ∈ rfcIpv6address.matches' ↔ Spells (· ≤ ·) rfcOctet text :=
  mem_ipv6With (fun _ _ => mem_upTo) fun _ => Nat.le_zero

theorem isLiteralByte_of_spells {allowed : Nat → Nat → Prop} (plain : Plain octet)
    (spells : Spells allowed octet text) : ∀ byte ∈ text, isLiteralByte byte = true := by
  rcases spells with ⟨groups, last, tail, spelled⟩ |
    ⟨front, count, groups, last, all, _, _, tail, spelled⟩
  · exact (cut plain no_lead tail spelled).2.2
  · exact (cut plain (gapped_or all) tail spelled).2.2

/-- An address is no `IPvFuture`, which begins with a letter of its own. -/
theorem not_mem_ipvFuture (bytes : ∀ byte ∈ text, isLiteralByte byte = true) :
    text ∉ ipvFuture.matches' := by
  intro future
  simp only [ipvFuture, matches'_mul, mul_assoc, Language.mem_mul] at future
  obtain ⟨_, rfl, _, _, rfl⟩ := future
  exact absurd (bytes 118 (List.mem_append_left _ (List.mem_singleton.mpr rfl))) (by decide)

/-- **Which addresses stand between the brackets of an `IP_literal`.** -/
theorem mem_bracketed (legal : text ∈ rfcIpv6address.matches') :
    text ∈ bracketed.matches' ↔ Kept text := by
  have spells := mem_rfcIpv6address.mp legal
  rw [bracketed, matches'_add, Language.mem_add,
    or_iff_left (not_mem_ipvFuture (isLiteralByte_of_spells plain_rfcOctet spells)), mem_ipv6address]
  exact ⟨kept_of_spells, spells_of_kept spells⟩

end UriGrammar

namespace IpLiteral

open UriGrammar

/-- `Create` takes the literal as its host. -/
def TakesHost (literal : List UInt8) : Prop :=
  ∃ uri, create (ascii "http://[" ++ literal ++ ascii "]/") = .uri uri ∧
    uri.host = ascii "[" ++ literal ++ ascii "]"

theorem takesHost_iff {literal : List UInt8} (inside : (93 : UInt8) ∉ literal) :
    TakesHost literal ↔ literal ∈ bracketed.matches' := by
  rw [TakesHost, create_literal inside]
  by_cases taken : literal ∈ bracketed.matches'
  · rw [if_pos taken]
    exact iff_of_true ⟨uriOf literal, rfl, rfl⟩ taken
  · rw [if_neg taken]
    refine iff_of_false ?_ taken
    rintro ⟨_, ⟨⟩, _⟩

/-- **IPv6 literals.** For every literal of the grammar of addresses the URI is made, with the literal in
its brackets as its host, if and only if nothing is in front of a `"::"`, or seven words are spelled
beside it, or there is none; and no octet of a dotted tail is from 200 to 249. -/
theorem literal_iff (literal : List UInt8) (legal : literal ∈ rfcIpv6address.matches') :
    TakesHost literal ↔ Kept literal := by
  have inside : (93 : UInt8) ∉ literal := fun bracket =>
    absurd (isLiteralByte_of_spells plain_rfcOctet (mem_rfcIpv6address.mp legal) 93 bracket) (by decide)
  rw [takesHost_iff inside, mem_bracketed legal]

/-- Nothing in front of `"::"`, and a dotted tail. -/
theorem literal_mapped : ascii "::ffff:192.0.2.33" ∈ rfcIpv6address.matches' ∧
    TakesHost (ascii "::ffff:192.0.2.33") := by
  have legal : ascii "::ffff:192.0.2.33" ∈ rfcIpv6address.matches' := by decide +kernel
  exact ⟨legal, (literal_iff (ascii "::ffff:192.0.2.33") legal).mpr (by decide)⟩

/-- **Literals that are refused**: one group on either side of `"::"`, and an octet of 204. -/
theorem literal_refused :
    (ascii "fe80::1" ∈ rfcIpv6address.matches' ∧ ¬ TakesHost (ascii "fe80::1")) ∧
    ascii "::ffff:1.2.3.204" ∈ rfcIpv6address.matches' ∧
      ¬ TakesHost (ascii "::ffff:1.2.3.204") := by
  have none_made {literal : List UInt8}
      (null : create (ascii "http://[" ++ literal ++ ascii "]/") = .null) : ¬ TakesHost literal := by
    rintro ⟨uri, made, _⟩
    rw [null] at made
    cases made
  refine ⟨⟨?_, none_made ?_⟩, ?_, none_made ?_⟩ <;> decide +kernel

end IpLiteral

end Wyze
