/-
**Machine words as natural numbers.**

Sums and differences on `uint64_t` and the conversion to `int`, each with the range in which it is the
plain operation and what it is beyond.
-/
import Mathlib.Algebra.Group.Int.Defs
import Mathlib.Algebra.Order.Group.Nat

namespace Wyze

/-- `a + b` on `uint64_t`. -/
def add64 (a b : Nat) : Nat := (a + b) % 2 ^ 64

/-- `a - b` on `uint64_t`. -/
def sub64 (a b : Nat) : Nat := (a + (2 ^ 64 - b % 2 ^ 64)) % 2 ^ 64

/-- The conversion to `int`. -/
def toInt32 (value : Nat) : Int :=
  if value % 2 ^ 32 < 2 ^ 31 then (value % 2 ^ 32 : Nat) else (value % 2 ^ 32 : Nat) - 2 ^ 32

variable {a b value : Nat}

theorem add64_of_lt (fits : a + b < 2 ^ 64) : add64 a b = a + b :=
  Nat.mod_eq_of_lt fits

/-- A sum does not wrap exactly when it fits. -/
theorem add64_eq_iff (a b : Nat) : add64 a b = a + b ↔ a + b < 2 ^ 64 := by
  refine ⟨fun same => ?_, add64_of_lt⟩
  rw [← same]
  exact Nat.mod_lt _ (by decide)

theorem sub64_of_le (least : b ≤ a) (fits : a < 2 ^ 64) : sub64 a b = a - b := by
  have small : b % 2 ^ 64 = b := Nat.mod_eq_of_lt (least.trans_lt fits)
  rw [sub64, small, show a + (2 ^ 64 - b) = a - b + 2 ^ 64 by omega, Nat.add_mod_right]
  exact Nat.mod_eq_of_lt (by omega)

/-- A difference below zero wraps. -/
theorem sub64_of_lt (below : a < b) (fits : b < 2 ^ 64) : sub64 a b = a + (2 ^ 64 - b) := by
  rw [sub64, Nat.mod_eq_of_lt fits]
  exact Nat.mod_eq_of_lt (by omega)

theorem toInt32_of_lt (small : value < 2 ^ 31) : toInt32 value = value := by
  rw [toInt32, Nat.mod_eq_of_lt (by omega), if_pos small]

theorem toInt32_le (value : Nat) : toInt32 value ≤ value := by
  unfold toInt32
  have small := Nat.mod_le value (2 ^ 32)
  split <;> omega

end Wyze
