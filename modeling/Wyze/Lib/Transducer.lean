/-
**State machines with actions on their transitions.**

The kind of machine that a scanner generator makes of a grammar with embedded actions: a transition
names a list of actions, which work on a memory in order, and the next state; then the memory takes
in the symbol. `scanner` is the machine as a scanner.

* `passes_step`: one transition.
* `Quiet`: a run of symbols on which the machine does nothing; it composes.
-/
import Wyze.Lib.Scanner

/-- A machine: its transitions, what an action does to the memory, how the memory takes in a symbol,
and the states in which it stops. -/
structure Transducer (σ α ι μ : Type*) where
  next : σ → α → List ι × σ
  perform : μ → ι → μ
  consume : μ → α → μ
  finished : σ → Bool
  failed : σ → Bool

namespace Transducer

variable {σ α ι μ : Type*} (machine : Transducer σ α ι μ)

/-- One transition. -/
def step (config : σ × μ) (symbol : α) : σ × μ :=
  ((machine.next config.1 symbol).2,
    machine.consume ((machine.next config.1 symbol).1.foldl machine.perform config.2) symbol)

/-- The machine as a scanner. -/
def scanner : Scanner (σ × μ) α where
  step := machine.step
  finished := fun config => machine.finished config.1
  failed := fun config => machine.failed config.1

/-- The machine has not stopped. -/
def runs (state : σ) : Prop := machine.finished state = false ∧ machine.failed state = false

variable {machine} {state state' : σ} {memory : μ} {actions : List ι}

theorem step_eq {symbol : α} (moves : machine.next state symbol = (actions, state')) :
    machine.step (state, memory) symbol =
      (state', machine.consume (actions.foldl machine.perform memory) symbol) := by
  rw [step, moves]

theorem halted_eq_false (runs : machine.runs state) :
    machine.scanner.halted (state, memory) = false := by
  show (machine.finished state || machine.failed state) = false
  rw [runs.1, runs.2, Bool.or_false]

/-- **One transition** to a state in which the machine goes on. -/
theorem passes_step {symbol : α} (moves : machine.next state symbol = (actions, state'))
    (runs : machine.runs state') (symbols : List α) :
    machine.scanner.passes (state, memory) (symbol :: symbols) =
      machine.scanner.passes (state', machine.consume (actions.foldl machine.perform memory) symbol)
        symbols := by
  have stepped : machine.scanner.step (state, memory) symbol =
      (state', machine.consume (actions.foldl machine.perform memory) symbol) := step_eq moves
  rw [Scanner.passes_cons (by rw [stepped]; exact halted_eq_false runs), stepped]

/-- **A run of symbols on which nothing happens** but that the memory takes them in. -/
def Quiet (machine : Transducer σ α ι μ) (state : σ) (symbols : List α) (state' : σ) : Prop :=
  ∀ memory : μ, machine.scanner.passes (state, memory) symbols =
    some (state', symbols.foldl machine.consume memory)

theorem Quiet.nil (state : σ) : machine.Quiet state [] state := fun _ => rfl

theorem Quiet.cons {state'' : σ} {symbol : α} {symbols : List α}
    (moves : machine.next state symbol = ([], state')) (runs : machine.runs state')
    (quiet : machine.Quiet state' symbols state'') :
    machine.Quiet state (symbol :: symbols) state'' := by
  intro memory
  rw [passes_step moves runs]
  exact quiet _

theorem Quiet.append {state'' : σ} {front back : List α} (first : machine.Quiet state front state')
    (second : machine.Quiet state' back state'') : machine.Quiet state (front ++ back) state'' := by
  intro memory
  rw [List.foldl_append]
  exact Scanner.passes_trans (first memory) (second _)

/-- The machine stays where it is. -/
theorem Quiet.stay {symbols : List α}
    (stays : ∀ symbol ∈ symbols, machine.next state symbol = ([], state))
    (runs : machine.runs state) : machine.Quiet state symbols state := by
  induction symbols with
  | nil => exact Quiet.nil state
  | cons symbol symbols ih =>
      obtain ⟨here, later⟩ := List.forall_mem_cons.mp stays
      exact Quiet.cons here runs (ih later)

/-- A text that the states spell: each of them is what is left of it. -/
theorem Quiet.literal (left : List α → σ) {symbols : List α} (some : symbols ≠ [])
    (spells : ∀ symbol symbols, machine.next (left (symbol :: symbols)) symbol =
      ([], if symbols.isEmpty then state' else left symbols))
    (runs : ∀ symbols, machine.runs (left symbols)) (goesOn : machine.runs state') :
    machine.Quiet (left symbols) symbols state' := by
  induction symbols with
  | nil => exact absurd rfl some
  | cons symbol symbols ih =>
      by_cases last : symbols = []
      · subst last
        exact Quiet.cons (spells symbol []) goesOn (Quiet.nil _)
      · have moves := spells symbol symbols
        rw [List.isEmpty_eq_false_iff.mpr last] at moves
        exact Quiet.cons moves (runs symbols) (ih last)

/-- The last transition, to a state in which the machine is finished. -/
theorem accepts_last {symbol : α} (moves : machine.next state symbol = (actions, state'))
    (finishes : machine.finished state' = true) (fine : machine.failed state' = false) :
    machine.scanner.accepts (state, memory) [symbol] =
      some (state', machine.consume (actions.foldl machine.perform memory) symbol) := by
  have stepped : machine.scanner.step (state, memory) symbol =
      (state', machine.consume (actions.foldl machine.perform memory) symbol) := step_eq moves
  refine Scanner.accepts_cons_eq_some.mpr (Or.inl ⟨?_, rfl, ?_, stepped⟩)
  · rw [stepped]
    show (machine.finished state' || machine.failed state') = true
    rw [finishes, Bool.true_or]
  · rw [stepped]
    exact fine

/-- A transition to a state in which the machine goes on does not decide the run. -/
theorem feed_step {symbol : α} (moves : machine.next state symbol = (actions, state'))
    (runs : machine.runs state') (symbols : List α) :
    (machine.scanner.feed (state, memory) (symbol :: symbols)).1 =
      (machine.scanner.feed
        (state', machine.consume (actions.foldl machine.perform memory) symbol) symbols).1 := by
  have passed : machine.scanner.passes (state, memory) [symbol] =
      some (state', machine.consume (actions.foldl machine.perform memory) symbol) :=
    passes_step moves runs []
  exact Scanner.feed_of_passes passed symbols

/-- A transition to a state in which the machine has failed decides the run. -/
theorem feed_failed {symbol : α} (moves : machine.next state symbol = (actions, state'))
    (fails : machine.failed state' = true) (symbols : List α) :
    (machine.scanner.feed (state, memory) (symbol :: symbols)).1.1 = state' := by
  have stepped : machine.scanner.step (state, memory) symbol =
      (state', machine.consume (actions.foldl machine.perform memory) symbol) := step_eq moves
  have stops : machine.scanner.halted (machine.scanner.step (state, memory) symbol) = true := by
    rw [stepped]
    show (machine.finished state' || machine.failed state') = true
    rw [fails, Bool.or_true]
  rw [Scanner.feed, if_pos stops, stepped]

end Transducer
