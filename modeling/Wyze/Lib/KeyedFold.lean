/-
**Folding updates over distinct keys.**

A list of items is folded over a state with a step that may fail. The step for an item changes what the
state holds under the key of that item only. When the keys are distinct, the steps do not interfere:
the fold succeeds exactly when every item is allowed, what a step establishes holds at the end, and
other keys keep what they held.
-/
import Mathlib.Data.List.Nodup

namespace KeyedFold

variable {σ ι κ β : Type} {step : σ → ι → Option σ} {get : σ → κ → β} {key : ι → κ}
  {allowed : ι → Prop} {post : ι → β → Prop}

/-- **The fold rule.** -/
theorem foldlM_spec
    (succeeds : ∀ state item, allowed item → ∃ next, step state item = some next ∧
      post item (get next (key item)) ∧ ∀ other, other ≠ key item → get next other = get state other)
    (items : List ι) (distinct : (items.map key).Nodup) (all : ∀ item ∈ items, allowed item)
    (state : σ) :
    ∃ final, items.foldlM step state = some final ∧
      (∀ item ∈ items, post item (get final (key item))) ∧
      ∀ other, other ∉ items.map key → get final other = get state other := by
  induction items generalizing state with
  | nil => exact ⟨state, rfl, nofun, fun _ _ => rfl⟩
  | cons item items ih =>
    rw [List.map_cons, List.nodup_cons] at distinct
    obtain ⟨next, stepped, here, frame⟩ := succeeds state item (all item List.mem_cons_self)
    obtain ⟨final, run, later, rest⟩ := ih distinct.2
      (fun other mem => all other (List.mem_cons_of_mem _ mem)) next
    refine ⟨final, ?_, ?_, ?_⟩
    · rw [List.foldlM_cons, stepped]
      exact run
    · intro other mem
      rcases List.mem_cons.mp mem with rfl | mem
      · rw [rest _ distinct.1]
        exact here
      · exact later other mem
    · intro other absent
      rw [List.map_cons, List.mem_cons, not_or] at absent
      rw [rest other absent.2, frame other absent.1]

/-- An item that is not allowed makes the fold fail, whatever the items before it do. -/
theorem foldlM_eq_none (fails : ∀ state item, ¬ allowed item → step state item = none)
    {items : List ι} {item : ι} (mem : item ∈ items) (bad : ¬ allowed item) (state : σ) :
    items.foldlM step state = none := by
  induction items generalizing state with
  | nil => cases mem
  | cons first items ih =>
    rw [List.foldlM_cons]
    rcases List.mem_cons.mp mem with rfl | mem
    · rw [fails state item bad]
      rfl
    · cases stepped : step state first with
      | none => rfl
      | some next => exact ih mem next

end KeyedFold
