/-
**What a system can show again and again.**

Of the labels of a system some are its own: nobody has to ask for them. `CanRepeat` says that a system
left to these can show an output as often as one likes; a loop that has nothing to wait for is of this
kind.

* `canRepeat_of_progress`: it can where every good state gets to a good state and shows the output.
* `not_canRepeat_of_potential`: it can not where each showing of the output is paid for.
-/
import Wyze.Lib.Run

namespace Labelled

variable {σ ℓ ω : Type*} [DecidableEq ω] {step : σ → ℓ → Option (σ × ω)} {own : ℓ → Prop} {output : ω}

/-- For every number of times there is a run of the system's own that shows the output as often. -/
def CanRepeat (step : σ → ℓ → Option (σ × ω)) (own : ℓ → Prop) (output : ω) (state : σ) : Prop :=
  ∀ times, ∃ labels final outputs, (∀ label ∈ labels, own label) ∧
    trace step state labels = some (final, outputs) ∧ times ≤ outputs.count output

/-- What comes before may be any run of the system's own. -/
theorem canRepeat_of_trace {state middle : σ} {labels : List ℓ} {front : List ω}
    (each : ∀ label ∈ labels, own label) (executed : trace step state labels = some (middle, front))
    (later : CanRepeat step own output middle) : CanRepeat step own output state := by
  intro times
  obtain ⟨labels', final, back, each', executed', enough⟩ := later times
  refine ⟨labels ++ labels', final, front ++ back, ?_, ?_, ?_⟩
  · intro label member
    exact (List.mem_append.mp member).elim (each label) (each' label)
  · exact trace_append_eq_some.mpr ⟨middle, front, back, executed, executed', rfl⟩
  · rw [List.count_append]
    omega

/-- **Progress.** -/
theorem canRepeat_of_progress {good : σ → Prop}
    (progress : ∀ state, good state → ∃ labels final outputs, (∀ label ∈ labels, own label) ∧
      trace step state labels = some (final, outputs) ∧ output ∈ outputs ∧ good final)
    {state : σ} (start : good state) : CanRepeat step own output state := by
  intro times
  induction times generalizing state with
  | zero => exact ⟨[], state, [], nofun, rfl, Nat.zero_le _⟩
  | succ times ih =>
      obtain ⟨labels, middle, front, each, executed, shown, kept⟩ := progress state start
      obtain ⟨labels', final, back, each', executed', enough⟩ := ih kept
      refine ⟨labels ++ labels', final, front ++ back, ?_, ?_, ?_⟩
      · intro label member
        exact (List.mem_append.mp member).elim (each label) (each' label)
      · exact trace_append_eq_some.mpr ⟨middle, front, back, executed, executed', rfl⟩
      · have once : 0 < front.count output := List.count_pos_iff.mpr shown
        rw [List.count_append]
        omega

/-- **A potential**: what is shown has been there to be spent. -/
theorem count_le_potential {holds : σ → Prop} (potential : σ → Nat)
    (pays : ∀ state label next, holds state → own label → step state label = some next →
      holds next.1 ∧ List.count output [next.2] + potential next.1 ≤ potential state) :
    ∀ (labels : List ℓ) {state final : σ} {outputs : List ω}, holds state →
      (∀ label ∈ labels, own label) → trace step state labels = some (final, outputs) →
      outputs.count output ≤ potential state := by
  intro labels
  induction labels with
  | nil =>
      intro state final outputs _ _ executed
      cases executed
      exact Nat.zero_le _
  | cons label labels ih =>
      intro state final outputs start each executed
      obtain ⟨next, first, rest, stepped, tail, rfl⟩ := trace_cons_eq_some.mp executed
      obtain ⟨here, later⟩ := List.forall_mem_cons.mp each
      obtain ⟨kept, paid⟩ := pays state label _ start here stepped
      dsimp only at paid
      have spent : rest.count output ≤ potential next := ih kept later tail
      rw [← List.singleton_append, List.count_append]
      omega

theorem not_canRepeat_of_potential {holds : σ → Prop} (potential : σ → Nat)
    (pays : ∀ state label next, holds state → own label → step state label = some next →
      holds next.1 ∧ List.count output [next.2] + potential next.1 ≤ potential state)
    {state : σ} (start : holds state) : ¬ CanRepeat step own output state := by
  intro repeats
  obtain ⟨labels, final, outputs, each, executed, enough⟩ := repeats (potential state + 1)
  have bounded : outputs.count output ≤ potential state :=
    count_le_potential potential pays labels start each executed
  omega

end Labelled
