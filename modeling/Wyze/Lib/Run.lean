/-
**Runs of a labelled partial step function.**

A system is a function `step : σ → ℓ → Option (σ × ω)`: a label either is not enabled (`none`), or
it leads to one next state and shows one output. `trace` executes a list of labels and collects the
outputs, so "every interleaving" is "every list of labels that executes".

* `exists_trace`: steps that are always enabled run.
* `trace_invariant`: what one enabled step keeps, a run keeps; the step may be asked to meet a
  condition on the state before it (`Meets`).
* `trace_history`: the same for an invariant over the outputs so far.
* `trace_dichotomy`: a run ends well exactly when its steps meet a condition.
* `trace_meets_shows`, `trace_shows`, `trace_shown_iff`, `trace_outputs_iff`: what the outputs of a
  run show, from what each step shows.
* `reached_iff`: when every state of a run is good, from what one step keeps.
* `trace_project`, `meets_project`: a system with a record beside its state.
* `meets_congr`, `meets_congr_allowed`: two conditions that agree along a run.
* `related_iff_meets`: what one step says about the state before and after it, any two moments of
  a run say.
* `holds_at`: the state in which the label at a position of a run is executed.
* `trace_refines`: two systems whose steps agree on outputs along an abstraction map have the same
  traces.
* `Chain`: what one call does in several parts, each with the outputs it adds; `Chain.invariant` is its
  rule.
-/
import Mathlib.Data.List.Basic
import Mathlib.Data.Option.Basic

namespace Labelled

variable {σ τ ℓ ω : Type*}

/-- Execute the labels in order and collect the outputs; `none` when one of them is not enabled. -/
def trace (step : σ → ℓ → Option (σ × ω)) : σ → List ℓ → Option (σ × List ω)
  | state, [] => some (state, [])
  | state, label :: labels =>
    (step state label).bind fun next =>
      (trace step next.1 labels).map fun rest => (rest.1, next.2 :: rest.2)

/-- Every step of the run starts in a state that meets the condition. -/
def Meets (step : σ → ℓ → Option (σ × ω)) (condition : σ → ℓ → Prop) : σ → List ℓ → Prop
  | _, [] => True
  | state, label :: labels =>
    condition state label ∧
      ∀ next, step state label = some next → Meets step condition next.1 labels

variable {step : σ → ℓ → Option (σ × ω)}

@[simp]
theorem trace_nil (state : σ) : trace step state [] = some (state, []) := rfl

theorem trace_cons_eq_some {state final : σ} {label : ℓ} {labels : List ℓ} {outputs : List ω} :
    trace step state (label :: labels) = some (final, outputs) ↔
      ∃ next output rest, step state label = some (next, output) ∧
        trace step next labels = some (final, rest) ∧ outputs = output :: rest := by
  constructor
  · intro executed
    simp only [trace, Option.bind_eq_some_iff, Option.map_eq_some_iff] at executed
    obtain ⟨⟨next, output⟩, stepped, ⟨final', rest⟩, tail, same⟩ := executed
    cases same
    exact ⟨next, output, rest, stepped, tail, rfl⟩
  · rintro ⟨next, output, rest, stepped, tail, rfl⟩
    simp only [trace, stepped, Option.bind_some, tail, Option.map_some]

/-- A run of two lists of labels is a run of the first and then one of the second. -/
theorem trace_append_eq_some {state final : σ} {first second : List ℓ} {outputs : List ω} :
    trace step state (first ++ second) = some (final, outputs) ↔
      ∃ middle front back, trace step state first = some (middle, front) ∧
        trace step middle second = some (final, back) ∧ outputs = front ++ back := by
  induction first generalizing state outputs with
  | nil =>
      constructor
      · exact fun executed => ⟨state, [], outputs, rfl, executed, rfl⟩
      · rintro ⟨middle, front, back, start, tail, rfl⟩
        cases start
        exact tail
  | cons label labels ih =>
      rw [List.cons_append, trace_cons_eq_some]
      constructor
      · rintro ⟨next, output, rest, stepped, tail, rfl⟩
        obtain ⟨middle, front, back, start, ending, rfl⟩ := ih.mp tail
        exact ⟨middle, output :: front, back,
          trace_cons_eq_some.mpr ⟨next, output, front, stepped, start, rfl⟩, ending, rfl⟩
      · rintro ⟨middle, front, back, start, ending, rfl⟩
        obtain ⟨next, output, rest, stepped, tail, rfl⟩ := trace_cons_eq_some.mp start
        exact ⟨next, output, rest ++ back, stepped, ih.mpr ⟨middle, rest, back, tail, ending, rfl⟩,
          rfl⟩

/-- A run shows one output a label. -/
theorem length_of_trace {labels : List ℓ} :
    ∀ {state final : σ} {outputs : List ω}, trace step state labels = some (final, outputs) →
      outputs.length = labels.length := by
  induction labels with
  | nil =>
      intro state final outputs executed
      cases executed
      rfl
  | cons label labels ih =>
      intro state final outputs executed
      obtain ⟨_, _, rest, _, tail, rfl⟩ := trace_cons_eq_some.mp executed
      rw [List.length_cons, List.length_cons, ih tail]

/-- Where every label is enabled, every list of labels runs. -/
theorem exists_trace (enabled : ∀ state label, ∃ next, step state label = some next) :
    ∀ (labels : List ℓ) (state : σ), ∃ result, trace step state labels = some result
  | [], state => ⟨_, trace_nil state⟩
  | label :: labels, state => by
    obtain ⟨next, stepped⟩ := enabled state label
    obtain ⟨rest, tail⟩ := exists_trace enabled labels next.1
    exact ⟨_, trace_cons_eq_some.mpr ⟨next.1, next.2, rest.2, stepped, tail, rfl⟩⟩

/-- **The run rule**: what every step that meets the condition keeps, a run that meets it keeps. -/
theorem trace_invariant (condition : σ → ℓ → Prop) {holds : σ → Prop}
    (keeps : ∀ state label next, holds state → condition state label →
      step state label = some next → holds next.1) :
    ∀ (labels : List ℓ) {state final : σ} {outputs : List ω}, holds state →
      Meets step condition state labels → trace step state labels = some (final, outputs) →
      holds final := by
  intro labels
  induction labels with
  | nil =>
      intro state final outputs start _ executed
      cases executed
      exact start
  | cons label labels ih =>
      intro state final outputs start meets executed
      obtain ⟨next, output, rest, stepped, tail, _⟩ := trace_cons_eq_some.mp executed
      exact ih (keeps state label _ start meets.1 stepped) (meets.2 _ stepped) tail

/-- The condition that every step meets. -/
theorem meets_of_forall {condition : σ → ℓ → Prop} (always : ∀ state label, condition state label) :
    ∀ (labels : List ℓ) (state : σ), Meets step condition state labels
  | [], _ => trivial
  | label :: labels, state => ⟨always state label, fun next _ => meets_of_forall always labels next.1⟩

/-- A condition on the labels alone. -/
theorem meets_of_mem {allowed : ℓ → Prop} :
    ∀ (labels : List ℓ) (state : σ), (∀ label ∈ labels, allowed label) →
      Meets step (fun _ label => allowed label) state labels
  | [], _, _ => trivial
  | _ :: labels, _, each =>
    have ⟨here, later⟩ := List.forall_mem_cons.mp each
    ⟨here, fun next _ => meets_of_mem labels next.1 later⟩

/-- Two conditions at once. -/
theorem meets_and {condition condition' : σ → ℓ → Prop} :
    ∀ {labels : List ℓ} {state : σ}, Meets step condition state labels →
      Meets step condition' state labels →
      Meets step (fun state label => condition state label ∧ condition' state label) state labels
  | [], _, _, _ => trivial
  | _ :: _, _, first, second =>
    ⟨⟨first.1, second.1⟩, fun next stepped => meets_and (first.2 next stepped) (second.2 next stepped)⟩

/-- The run rule for an invariant that every step keeps. -/
theorem trace_invariant' {holds : σ → Prop}
    (keeps : ∀ state label next, holds state → step state label = some next → holds next.1)
    {labels : List ℓ} {state final : σ} {outputs : List ω} (start : holds state)
    (executed : trace step state labels = some (final, outputs)) : holds final :=
  trace_invariant (fun _ _ => True)
    (fun state label next before _ stepped => keeps state label next before stepped) labels start
    (meets_of_forall (fun _ _ => trivial) labels state) executed

theorem meets_cons {condition : σ → ℓ → Prop} {state : σ} {label : ℓ} {labels : List ℓ}
    {next : σ × ω} (stepped : step state label = some next) :
    Meets step condition state (label :: labels) ↔
      condition state label ∧ Meets step condition next.1 labels := by
  refine and_congr_right fun _ => ⟨fun all => all next stepped, fun meets next' stepped' => ?_⟩
  rw [stepped] at stepped'
  cases stepped'
  exact meets

/-- Two conditions that agree where an invariant of the steps with allowed labels holds. -/
theorem meets_congr_allowed {holds : σ → Prop} {allowed : ℓ → Prop}
    {condition condition' : σ → ℓ → Prop}
    (keeps : ∀ state label next, holds state → allowed label → step state label = some next →
      holds next.1)
    (agree : ∀ state label, holds state → allowed label →
      (condition state label ↔ condition' state label)) :
    ∀ (labels : List ℓ) {state : σ}, holds state → (∀ label ∈ labels, allowed label) →
      (Meets step condition state labels ↔ Meets step condition' state labels) := by
  intro labels
  induction labels with
  | nil => exact fun _ _ => Iff.rfl
  | cons label labels ih =>
      intro state start all
      obtain ⟨here, later⟩ := List.forall_mem_cons.mp all
      exact and_congr (agree state label start here) (forall_congr' fun next =>
        imp_congr_right fun stepped => ih (keeps state label next start here stepped) later)

/-- Two conditions that agree where an invariant of the steps holds. -/
theorem meets_congr {holds : σ → Prop} {condition condition' : σ → ℓ → Prop}
    (keeps : ∀ state label next, holds state → step state label = some next → holds next.1)
    (agree : ∀ state label, holds state → (condition state label ↔ condition' state label))
    (labels : List ℓ) {state : σ} (start : holds state) :
    Meets step condition state labels ↔ Meets step condition' state labels :=
  meets_congr_allowed (fun state label next before (_ : True) => keeps state label next before)
    (fun state label before _ => agree state label before) labels start fun _ _ => trivial

/-- **A system with a record beside its state** has the runs of the system without it. -/
theorem trace_project {step' : τ → ℓ → Option (τ × ω)} (project : τ → σ)
    (same : ∀ state label, (step' state label).map (fun next => (project next.1, next.2)) =
      step (project state) label) : ∀ (labels : List ℓ) (state : τ),
      (trace step' state labels).map (fun result => (project result.1, result.2)) =
        trace step (project state) labels
  | [], _ => rfl
  | label :: labels, state => by
    rw [trace, trace, ← same]
    cases step' state label with
    | none => rfl
    | some next =>
        rw [Option.map_some, Option.bind_some, Option.bind_some, Option.map_map,
          ← trace_project project same labels next.1, Option.map_map]
        rfl

/-- **A system with a record beside its state** meets a condition on the state when the system without
it does. -/
theorem meets_project {step' : τ → ℓ → Option (τ × ω)} (project : τ → σ)
    (same : ∀ state label, (step' state label).map (fun next => (project next.1, next.2)) =
      step (project state) label)
    {condition : σ → ℓ → Prop} : ∀ (labels : List ℓ) {state : τ},
      Meets step' (fun state => condition (project state)) state labels ↔
        Meets step condition (project state) labels := by
  intro labels
  induction labels with
  | nil => exact Iff.rfl
  | cons label labels ih =>
      intro state
      refine and_congr_right fun _ => ?_
      rw [← same state label]
      constructor
      · intro all next stepped
        obtain ⟨next', stepped', rfl⟩ := Option.map_eq_some_iff.mp stepped
        exact ih.mp (all next' stepped')
      · intro all next stepped
        exact ih.mpr (all (project next.1, next.2) (Option.map_eq_some_iff.mpr ⟨next, stepped, rfl⟩))

/-- Whether a run meets a condition is decided by executing it. -/
instance meetsDecidable {condition : σ → ℓ → Prop}
    [∀ state label, Decidable (condition state label)] :
    ∀ (state : σ) (labels : List ℓ), Decidable (Meets step condition state labels)
  | _, [] => .isTrue trivial
  | state, label :: labels =>
    match stepped : step state label with
    | none => decidable_of_iff (condition state label)
        ⟨fun here => ⟨here, fun next isNext => by rw [stepped] at isNext; cases isNext⟩, And.left⟩
    | some next =>
      haveI : Decidable (Meets step condition next.1 labels) := meetsDecidable next.1 labels
      decidable_of_iff _ (meets_cons stepped).symm

/-- The run rule for an invariant that speaks about the outputs shown so far as well. -/
theorem trace_history {holds : σ → List ω → Prop}
    (keeps : ∀ state before label next, holds state before → step state label = some next →
      holds next.1 (before ++ [next.2])) :
    ∀ (labels : List ℓ) {state final : σ} {before outputs : List ω}, holds state before →
      trace step state labels = some (final, outputs) → holds final (before ++ outputs) := by
  intro labels
  induction labels with
  | nil =>
      intro state final before outputs start executed
      cases executed
      rwa [List.append_nil]
  | cons label labels ih =>
      intro state final before outputs start executed
      obtain ⟨next, first, rest, stepped, tail, rfl⟩ := trace_cons_eq_some.mp executed
      have reached := ih (keeps state before label _ start stepped) tail
      rwa [List.append_assoc] at reached

/-- **The rule for an exact condition.** Steps that meet the condition stay good, a step that does not
leads to bad states, and these stay bad: then a run ends well exactly when all its steps meet it. -/
theorem trace_dichotomy {condition : σ → ℓ → Prop} {good bad : σ → List ω → Prop}
    (stays : ∀ state before label next, good state before → condition state label →
      step state label = some next → good next.1 (before ++ [next.2]))
    (falls : ∀ state before label next, good state before → ¬ condition state label →
      step state label = some next → bad next.1 (before ++ [next.2]))
    (sinks : ∀ state before label next, bad state before →
      step state label = some next → bad next.1 (before ++ [next.2])) :
    ∀ (labels : List ℓ) {state final : σ} {before outputs : List ω}, good state before →
      trace step state labels = some (final, outputs) →
      (Meets step condition state labels ∧ good final (before ++ outputs)) ∨
        (¬ Meets step condition state labels ∧ bad final (before ++ outputs)) := by
  intro labels
  induction labels with
  | nil =>
      intro state final before outputs start executed
      cases executed
      rw [List.append_nil]
      exact Or.inl ⟨trivial, start⟩
  | cons label labels ih =>
      intro state final before outputs start executed
      obtain ⟨next, first, rest, stepped, tail, rfl⟩ := trace_cons_eq_some.mp executed
      rw [meets_cons stepped, List.append_cons]
      by_cases here : condition state label
      · simp only [here, true_and]
        exact ih (stays state before label _ start here stepped) tail
      · refine Or.inr ⟨fun meets => here meets.1, ?_⟩
        exact trace_history sinks labels (falls state before label _ start here stepped) tail

/-- What the steps of a run that meets a condition keep and show, step by step. -/
theorem trace_meets_shows (condition : σ → ℓ → Prop) {holds : σ → Prop} {shown : ω → Prop}
    (keeps : ∀ state label next, holds state → condition state label →
      step state label = some next → holds next.1 ∧ shown next.2) :
    ∀ (labels : List ℓ) {state final : σ} {outputs : List ω}, holds state →
      Meets step condition state labels → trace step state labels = some (final, outputs) →
      holds final ∧ ∀ output ∈ outputs, shown output := by
  intro labels
  induction labels with
  | nil =>
      intro state final outputs start _ executed
      cases executed
      exact ⟨start, nofun⟩
  | cons label labels ih =>
      intro state final outputs start meets executed
      obtain ⟨next, first, rest, stepped, tail, rfl⟩ := trace_cons_eq_some.mp executed
      obtain ⟨kept, here⟩ := keeps state label _ start meets.1 stepped
      obtain ⟨reached, later⟩ := ih kept (meets.2 _ stepped) tail
      exact ⟨reached, List.forall_mem_cons.mpr ⟨here, later⟩⟩

/-- What the steps of a run keep and show, step by step. -/
theorem trace_shows {holds : σ → Prop} {shown : ω → Prop}
    (keeps : ∀ state label next, holds state → step state label = some next →
      holds next.1 ∧ shown next.2)
    (labels : List ℓ) {state final : σ} {outputs : List ω} (start : holds state)
    (executed : trace step state labels = some (final, outputs)) :
    holds final ∧ ∀ output ∈ outputs, shown output :=
  trace_meets_shows (fun _ _ => True)
    (fun state label next before _ stepped => keeps state label next before stepped) labels start
    (meets_of_forall (fun _ _ => trivial) labels state) executed

/-- What every output of a step satisfies, every output of a run satisfies. -/
theorem trace_outputs {shown : ω → Prop}
    (shows : ∀ state label next, step state label = some next → shown next.2) {labels : List ℓ}
    {state final : σ} {outputs : List ω}
    (executed : trace step state labels = some (final, outputs)) :
    ∀ output ∈ outputs, shown output :=
  (trace_shows (fun state label next (_ : True) stepped =>
    ⟨trivial, shows state label next stepped⟩) labels trivial executed).2

/-- Where an output is as wanted exactly when its step meets the condition, all outputs of a run are
exactly when all its steps meet it. The invariant may be lost with the first output that is not. -/
theorem trace_shown_iff {holds : σ → Prop} {shown : ω → Prop} {condition : σ → ℓ → Prop}
    (keeps : ∀ state label next, holds state → step state label = some next →
      (shown next.2 ↔ condition state label) ∧ (shown next.2 → holds next.1)) :
    ∀ (labels : List ℓ) {state final : σ} {outputs : List ω}, holds state →
      trace step state labels = some (final, outputs) →
      ((∀ output ∈ outputs, shown output) ↔ Meets step condition state labels) := by
  intro labels
  induction labels with
  | nil =>
      intro state final outputs _ executed
      cases executed
      exact iff_of_true nofun trivial
  | cons label labels ih =>
      intro state final outputs start executed
      obtain ⟨next, first, rest, stepped, tail, rfl⟩ := trace_cons_eq_some.mp executed
      obtain ⟨here, kept⟩ := keeps state label _ start stepped
      rw [List.forall_mem_cons, meets_cons stepped, ← here]
      exact and_congr_right fun asWanted => ih (kept asWanted) tail

/-- The same for an invariant that every step keeps. -/
theorem trace_outputs_iff {holds : σ → Prop} {shown : ω → Prop} {condition : σ → ℓ → Prop}
    (keeps : ∀ state label next, holds state → step state label = some next →
      holds next.1 ∧ (shown next.2 ↔ condition state label))
    (labels : List ℓ) {state final : σ} {outputs : List ω} (start : holds state)
    (executed : trace step state labels = some (final, outputs)) :
    (∀ output ∈ outputs, shown output) ↔ Meets step condition state labels :=
  trace_shown_iff (fun state label next before stepped =>
    have ⟨kept, here⟩ := keeps state label next before stepped
    ⟨here, fun _ => kept⟩) labels start executed

/-- **Every state of a run is good** exactly when all its steps meet the condition, where a step from a
good state leads to one exactly if it does. The invariant may be lost with the first state that is not
good. -/
theorem reached_iff {holds good : σ → Prop} {condition : σ → ℓ → Prop}
    (keeps : ∀ state label next, holds state → step state label = some next →
      (good next.1 ↔ condition state label) ∧ (good next.1 → holds next.1)) :
    ∀ (labels : List ℓ) {state final : σ} {outputs : List ω}, good state → holds state →
      trace step state labels = some (final, outputs) →
      ((∀ position reached front, trace step state (labels.take position) = some (reached, front) →
        good reached) ↔ Meets step condition state labels) := by
  intro labels
  induction labels with
  | nil =>
      intro state final outputs isGood _ _
      refine iff_of_true (fun position reached front taken => ?_) trivial
      rw [List.take_nil] at taken
      cases taken
      exact isGood
  | cons label labels ih =>
      intro state final outputs isGood start executed
      obtain ⟨next, first, rest, stepped, tail, rfl⟩ := trace_cons_eq_some.mp executed
      obtain ⟨here, kept⟩ := keeps state label _ start stepped
      rw [meets_cons stepped, ← here]
      constructor
      · intro all
        have nextGood : good next :=
          all 1 next [first] (trace_cons_eq_some.mpr ⟨next, first, [], stepped, rfl, rfl⟩)
        refine ⟨nextGood, (ih nextGood (kept nextGood) tail).mp fun position reached front taken => ?_⟩
        exact all (position + 1) reached (first :: front)
          (trace_cons_eq_some.mpr ⟨next, first, front, stepped, taken, rfl⟩)
      · rintro ⟨nextGood, later⟩ (_ | position) reached front taken
        · cases taken
          exact isGood
        · obtain ⟨next', _, front', stepped', taken', _⟩ := trace_cons_eq_some.mp taken
          rw [stepped] at stepped'
          cases stepped'
          exact (ih nextGood (kept nextGood) tail).mpr later position reached front' taken'

/-- Meeting the condition along two lists of labels, one after the other. -/
theorem meets_append {condition : σ → ℓ → Prop} {first second : List ℓ} {state : σ} :
    Meets step condition state (first ++ second) ↔ Meets step condition state first ∧
      ∀ middle outputs, trace step state first = some (middle, outputs) →
        Meets step condition middle second := by
  induction first generalizing state with
  | nil =>
      constructor
      · rintro meets
        refine ⟨trivial, fun middle outputs executed => ?_⟩
        cases executed
        exact meets
      · exact fun meets => meets.2 state [] rfl
  | cons label labels ih =>
      rw [List.cons_append, Meets, Meets, and_assoc]
      refine and_congr_right fun _ => ?_
      constructor
      · intro rest
        refine ⟨fun next stepped => (ih.mp (rest next stepped)).1, fun middle outputs executed => ?_⟩
        obtain ⟨next, output, later, stepped, tail, _⟩ := trace_cons_eq_some.mp executed
        exact (ih.mp (rest _ stepped)).2 middle later tail
      · rintro ⟨front, back⟩ next stepped
        exact ih.mpr ⟨front next stepped, fun middle outputs tail =>
          back middle _ (trace_cons_eq_some.mpr ⟨next.1, next.2, outputs, stepped, tail, rfl⟩)⟩

/-- **The rule for two moments of a run.** When a step relates the state before it to the one after it
exactly if it meets the condition, any two moments of a run are related, earlier to later, exactly
if all its steps meet it. -/
theorem related_iff_meets {holds : σ → Prop} {condition : σ → ℓ → Prop} {related : σ → σ → Prop}
    (refl : ∀ state, related state state)
    (trans : ∀ first second third, related first second → related second third →
      related first third)
    (keeps : ∀ state label next, holds state → step state label = some next →
      holds next.1 ∧ (related state next.1 ↔ condition state label)) :
    ∀ (labels : List ℓ) {state final : σ} {outputs : List ω}, holds state →
      trace step state labels = some (final, outputs) →
      ((∀ before between after first second front back, labels = before ++ between ++ after →
        trace step state before = some (first, front) →
        trace step first between = some (second, back) → related first second) ↔
        Meets step condition state labels) := by
  have forward : ∀ (labels : List ℓ) {state final : σ} {outputs : List ω}, holds state →
      Meets step condition state labels → trace step state labels = some (final, outputs) →
      holds final ∧ related state final := by
    intro labels
    induction labels with
    | nil =>
        intro state final outputs start _ executed
        cases executed
        exact ⟨start, refl state⟩
    | cons label labels ih =>
        intro state final outputs start meets executed
        obtain ⟨next, output, rest, stepped, tail, _⟩ := trace_cons_eq_some.mp executed
        obtain ⟨kept, here⟩ := keeps state label _ start stepped
        obtain ⟨reached, later⟩ := ih kept (meets.2 _ stepped) tail
        exact ⟨reached, trans _ _ _ (here.mpr meets.1) later⟩
  intro labels state final outputs start executed
  constructor
  · intro all
    induction labels generalizing state outputs with
    | nil => trivial
    | cons label labels ih =>
        obtain ⟨next, output, rest, stepped, tail, _⟩ := trace_cons_eq_some.mp executed
        obtain ⟨kept, here⟩ := keeps state label _ start stepped
        have single : trace step state [label] = some (next, [output]) :=
          trace_cons_eq_some.mpr ⟨next, output, [], stepped, rfl, rfl⟩
        refine (meets_cons stepped).mpr
          ⟨here.mp (all [] [label] labels state next [] [output] rfl rfl single), ?_⟩
        refine ih kept tail fun before between after first second front back split start' mid => ?_
        exact all (label :: before) between after first second (output :: front) back
          (by rw [split, List.cons_append, List.cons_append])
          (trace_cons_eq_some.mpr ⟨next, output, front, stepped, start', rfl⟩) mid
  · rintro meets before between after first second front back rfl start' mid
    obtain ⟨upTo, _⟩ := meets_append.mp meets
    obtain ⟨here, later⟩ := meets_append.mp upTo
    exact (forward between (forward before start here start').1 (later first front start') mid).2

/-- **At a position of a run**: what the labels before it keep holds there, the label is executed, and
the rest of the run follows. -/
theorem holds_at {holds : σ → Prop} {allowed : ℓ → Prop}
    (keeps : ∀ state label next, holds state → allowed label → step state label = some next →
      holds next.1) :
    ∀ (labels : List ℓ) {state final : σ} {outputs : List ω} {position : Nat} {label : ℓ},
      holds state → trace step state labels = some (final, outputs) →
      labels[position]? = some label →
      (∀ earlier < position, ∀ other, labels[earlier]? = some other → allowed other) →
      ∃ front reached next, trace step state (labels.take position) = some (reached, front) ∧
        holds reached ∧ step reached label = some next ∧ outputs[position]? = some next.2 ∧
        trace step next.1 (labels.drop (position + 1)) =
          some (final, outputs.drop (position + 1)) := by
  intro labels
  induction labels with
  | nil => intro state final outputs position label _ _ placed; simp at placed
  | cons first labels ih =>
      intro state final outputs position label start executed placed before
      obtain ⟨next, output, rest, stepped, tail, rfl⟩ := trace_cons_eq_some.mp executed
      cases position with
      | zero =>
          obtain rfl : first = label := Option.some.inj placed
          exact ⟨[], state, _, rfl, start, stepped, rfl, tail⟩
      | succ position =>
          have kept : holds next := keeps state first _ start
            (before 0 (Nat.zero_lt_succ _) first rfl) stepped
          obtain ⟨front, reached, then', taken, there, does, shows, rest'⟩ := ih kept tail placed
            fun earlier less other => before (earlier + 1) (Nat.succ_lt_succ less) other
          refine ⟨output :: front, reached, then', ?_, there, does, shows, rest'⟩
          exact trace_cons_eq_some.mpr ⟨next, output, front, stepped, taken, rfl⟩

/-- **Refinement of runs.** `abstract` maps the states that satisfy the invariant to states of a
second system which makes the same step with the same output; then every run does. -/
theorem trace_refines {step' : τ → ℓ → Option (τ × ω)} {holds : σ → Prop} {allowed : ℓ → Prop}
    (abstract : σ → τ)
    (simulates : ∀ state label, holds state → allowed label →
      ∃ next output, step state label = some (next, output) ∧ holds next ∧
        step' (abstract state) label = some (abstract next, output)) :
    ∀ (labels : List ℓ) (state : σ), holds state → (∀ label ∈ labels, allowed label) →
      ∃ final outputs, trace step state labels = some (final, outputs) ∧ holds final ∧
        trace step' (abstract state) labels = some (abstract final, outputs) := by
  intro labels
  induction labels with
  | nil => exact fun state start _ => ⟨state, [], rfl, start, rfl⟩
  | cons label labels ih =>
      intro state start each
      obtain ⟨next, output, stepped, kept, stepped'⟩ :=
        simulates state label start (each label List.mem_cons_self)
      obtain ⟨final, outputs, tail, reached, tail'⟩ :=
        ih next kept fun other member => each other (List.mem_cons_of_mem _ member)
      exact ⟨final, output :: outputs,
        trace_cons_eq_some.mpr ⟨next, output, outputs, stepped, tail, rfl⟩, reached,
        trace_cons_eq_some.mpr ⟨abstract next, output, outputs, stepped', tail', rfl⟩⟩

/-- Parts of a call one after the other, with what they show. -/
inductive Chain (part : σ → σ → List ω → Prop) : σ → σ → List ω → Prop
  | refl (state : σ) : Chain part state state []
  | head {state middle final : σ} {first rest : List ω} (here : part state middle first)
      (later : Chain part middle final rest) : Chain part state final (first ++ rest)

namespace Chain

variable {part : σ → σ → List ω → Prop} {state middle final : σ} {first second : List ω}

theorem single (here : part state final first) : Chain part state final first := by
  rw [← List.append_nil first]
  exact .head here (.refl final)

theorem trans (front : Chain part state middle first) (back : Chain part middle final second) :
    Chain part state final (first ++ second) := by
  induction front with
  | refl => exact back
  | head here _ ih =>
      rw [List.append_assoc]
      exact .head here (ih back)

/-- **The rule of a chain**: what every part keeps of the state and of all that has been shown. -/
theorem invariant {holds : σ → List ω → Prop}
    (keeps : ∀ state next before shown, holds state before → part state next shown →
      holds next (before ++ shown))
    (chain : Chain part state final first) :
    ∀ {before : List ω}, holds state before → holds final (before ++ first) := by
  induction chain with
  | refl state =>
      intro before start
      rwa [List.append_nil]
  | head here _ ih =>
      intro before start
      rw [← List.append_assoc]
      exact ih (keeps _ _ _ _ start here)

end Chain

end Labelled
