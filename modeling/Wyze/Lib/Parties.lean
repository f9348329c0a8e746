/-
**Counting the parties of a system that are in some phase.**

A system keeps a phase for each of its parties, `parties : ι → W`, and a step moves one of them.
`howMany p parties` is the number of parties whose phase satisfies `p`; `howMany_update` is what one
move does to it, so a counter that the program keeps beside its parties is compared step by step.
-/
import Mathlib.Data.Fintype.Basic
import Mathlib.Data.Finset.Card
import Mathlib.Logic.Function.Basic

namespace Parties

variable {ι W : Type*} [Fintype ι]

/-- The number of parties in a phase that satisfies `p`. -/
def howMany (p : W → Bool) (parties : ι → W) : Nat :=
  (Finset.univ.filter fun i => p (parties i) = true).card

theorem howMany_pos {p : W → Bool} {parties : ι → W} {i : ι} (here : p (parties i) = true) :
    0 < howMany p parties :=
  Finset.card_pos.mpr ⟨i, Finset.mem_filter.mpr ⟨Finset.mem_univ i, here⟩⟩

theorem howMany_const_false {p : W → Bool} {phase : W} (never : p phase = false) :
    howMany p (fun _ : ι => phase) = 0 := by
  unfold howMany
  rw [Finset.card_eq_zero, Finset.filter_eq_empty_iff]
  intro i _
  rw [never]
  exact Bool.false_ne_true

variable [DecidableEq ι]

/-- The parties that satisfy `p` after a move: those other than the mover as before. -/
theorem filter_update (p : W → Bool) (parties : ι → W) (i : ι) (phase : W) :
    (Finset.univ.filter fun j => p (Function.update parties i phase j) = true).erase i =
      (Finset.univ.filter fun j => p (parties j) = true).erase i := by
  ext j
  simp only [Finset.mem_erase, Finset.mem_filter, Finset.mem_univ, true_and]
  refine and_congr_right fun other => ?_
  rw [Function.update_of_ne other]

/-- The count without party `i`, and party `i`. -/
theorem howMany_eq_erase (p : W → Bool) (parties : ι → W) (i : ι) :
    howMany p parties = ((Finset.univ.filter fun j => p (parties j) = true).erase i).card +
      (p (parties i)).toNat := by
  unfold howMany
  by_cases here : p (parties i) = true
  · rw [here, Bool.toNat_true, Finset.card_erase_add_one]
    exact Finset.mem_filter.mpr ⟨Finset.mem_univ i, here⟩
  · rw [Bool.not_eq_true] at here
    rw [here, Bool.toNat_false, Finset.erase_eq_of_notMem, Nat.add_zero]
    rw [Finset.mem_filter, here]
    exact fun mem => Bool.false_ne_true mem.2

/-- **One move**: the mover stops being counted for its old phase and is counted for its new one. -/
theorem howMany_update (p : W → Bool) (parties : ι → W) (i : ι) (phase : W) :
    howMany p (Function.update parties i phase) + (p (parties i)).toNat =
      howMany p parties + (p phase).toNat := by
  rw [howMany_eq_erase p (Function.update parties i phase) i, filter_update,
    Function.update_self, howMany_eq_erase p parties i]
  omega

end Parties
