/-
**Words whose ones are at one end.**

`low` has its `count` least significant bits set, `leading` its `count` most significant ones; each is
known by its bits.

* `not_leading`: the complement of a word of leading ones.
* `leading_and_pred`: `x & (x - 1)` takes one bit from the leading ones, so a loop that does this until
  nothing is left makes one round a bit.
-/
import Mathlib.Data.Nat.Bitwise
import Mathlib.Algebra.Order.Group.Nat

namespace Masks

variable {width : Nat}

/-- The `count` least significant ones. -/
def low (width count : Nat) : BitVec width := BitVec.ofNat width (2 ^ count - 1)

/-- The `count` most significant ones. -/
def leading (width count : Nat) : BitVec width := BitVec.allOnes width <<< (width - count)

theorem getLsbD_low (width count i : Nat) :
    (low width count).getLsbD i = (decide (i < width) && decide (i < count)) := by
  rw [low, BitVec.getLsbD_ofNat, Nat.testBit_two_pow_sub_one]

theorem getLsbD_leading (count i : Nat) :
    (leading width count).getLsbD i = (decide (i < width) && decide (width - count ≤ i)) := by
  rw [leading, BitVec.getLsbD_shiftLeft, BitVec.getLsbD_allOnes]
  grind

/-- `(1 << count) - 1` where the shift stays in the word. -/
theorem one_shiftLeft_sub_one {count : Nat} (inside : count < width) :
    (BitVec.ofNat width 1 <<< count) - BitVec.ofNat width 1 = low width count := by
  have fits : 2 ^ count < 2 ^ width := Nat.pow_lt_pow_right (by decide) inside
  have positive : 0 < 2 ^ count := Nat.two_pow_pos count
  have one : 1 < 2 ^ width := lt_of_le_of_lt positive fits
  apply BitVec.eq_of_toNat_eq
  rw [BitVec.toNat_sub, ← BitVec.twoPow_eq, BitVec.toNat_twoPow_of_lt inside, low,
    BitVec.toNat_ofNat, BitVec.toNat_ofNat, Nat.mod_eq_of_lt one]
  rw [show 2 ^ width - 1 + 2 ^ count = 2 ^ count - 1 + 2 ^ width by omega, Nat.add_mod_right]

/-- A narrower word of low ones. -/
theorem setWidth_low {narrow : Nat} (narrower : narrow ≤ width) (count : Nat) :
    (low width count).setWidth narrow = low narrow count := by
  refine BitVec.eq_of_getLsbD_eq fun i inside => ?_
  rw [BitVec.getLsbD_setWidth, getLsbD_low, getLsbD_low]
  grind

/-- **The complement of leading ones.** -/
theorem not_leading (width count : Nat) :
    ~~~ leading width count = low width (width - count) := by
  refine BitVec.eq_of_getLsbD_eq fun i inside => ?_
  rw [BitVec.getLsbD_not, getLsbD_leading, getLsbD_low]
  grind

theorem not_low (width count : Nat) : ~~~ low width (width - count) = leading width count := by
  rw [← not_leading, BitVec.not_not]

@[simp]
theorem leading_zero (width : Nat) : leading width 0 = BitVec.ofNat width 0 := by
  rw [leading, Nat.sub_zero, BitVec.shiftLeft_eq_zero le_rfl]

/-- One more leading one is one more bit. -/
theorem leading_succ {count : Nat} (fits : count < width) :
    leading width (count + 1) = leading width count ||| BitVec.twoPow width (width - count - 1) := by
  refine BitVec.eq_of_getLsbD_eq fun i inside => ?_
  rw [BitVec.getLsbD_or, getLsbD_leading, getLsbD_leading, BitVec.getLsbD_twoPow]
  grind

/-- The leading ones and the bits below them have nothing in common. -/
theorem leading_and_low {count least : Nat} (below : least ≤ width - count) :
    leading width count &&& low width least = BitVec.ofNat width 0 := by
  refine BitVec.eq_of_getLsbD_eq fun i inside => ?_
  rw [BitVec.getLsbD_and, getLsbD_leading, getLsbD_low, BitVec.getLsbD_zero]
  grind

/-- **`x & (x - 1)`** takes the last of the leading ones. -/
theorem leading_and_pred {count : Nat} (fits : count < width) :
    leading width (count + 1) &&& (leading width (count + 1) - BitVec.ofNat width 1) =
      leading width count := by
  have apart : leading width count &&& BitVec.twoPow width (width - count - 1) =
      BitVec.ofNat width 0 := by
    refine BitVec.eq_of_getLsbD_eq fun i inside => ?_
    rw [BitVec.getLsbD_and, getLsbD_leading, BitVec.getLsbD_twoPow, BitVec.getLsbD_zero]
    grind
  -- the subtraction clears the bit and sets those below it
  have pred : leading width (count + 1) - BitVec.ofNat width 1 =
      leading width count ||| low width (width - count - 1) := by
    rw [leading_succ fits, ← BitVec.add_eq_or_of_and_eq_zero _ _ apart, BitVec.sub_eq_add_neg,
      BitVec.add_assoc, ← BitVec.sub_eq_add_neg, BitVec.twoPow_eq, one_shiftLeft_sub_one (by omega),
      BitVec.add_eq_or_of_and_eq_zero _ _ (leading_and_low (by omega))]
  rw [pred]
  refine BitVec.eq_of_getLsbD_eq fun i inside => ?_
  rw [BitVec.getLsbD_and, BitVec.getLsbD_or, getLsbD_leading, getLsbD_leading, getLsbD_low]
  grind

theorem leading_ne_zero {count : Nat} (fits : count < width) :
    leading width (count + 1) ≠ BitVec.ofNat width 0 := by
  intro zero
  have bit := congrArg (BitVec.getLsbD · (width - 1)) zero
  simp only [getLsbD_leading, BitVec.getLsbD_zero] at bit
  grind

/-- A word has the same bits inside and outside of a mask only when it has none. -/
theorem and_not_eq_and_iff (value mask : BitVec width) :
    value &&& ~~~ mask = value &&& mask ↔ value = BitVec.ofNat width 0 := by
  constructor
  · intro same
    refine BitVec.eq_of_getLsbD_eq fun i inside => ?_
    have bit := congrArg (BitVec.getLsbD · i) same
    simp only [BitVec.getLsbD_and, BitVec.getLsbD_not] at bit
    rw [BitVec.getLsbD_zero]
    grind
  · rintro rfl
    rw [BitVec.zero_and, BitVec.zero_and]

/-- `x & (x - 1)` is smaller than `x`. -/
theorem and_pred_lt {value : BitVec width} (nonzero : value ≠ BitVec.ofNat width 0) :
    (value &&& (value - BitVec.ofNat width 1)).toNat < value.toNat := by
  have positive : 0 < value.toNat :=
    Nat.pos_of_ne_zero fun zero => nonzero (BitVec.eq_of_toNat_eq zero)
  have one : 1 < 2 ^ width := lt_of_le_of_lt positive value.isLt
  have pred : (value - BitVec.ofNat width 1).toNat = value.toNat - 1 := by
    rw [BitVec.toNat_sub, BitVec.toNat_ofNat, Nat.mod_eq_of_lt one,
      show 2 ^ width - 1 + value.toNat = value.toNat - 1 + 2 ^ width by omega, Nat.add_mod_right,
      Nat.mod_eq_of_lt (by omega)]
  rw [BitVec.toNat_and, pred]
  exact lt_of_le_of_lt Nat.and_le_right (by omega)

end Masks
