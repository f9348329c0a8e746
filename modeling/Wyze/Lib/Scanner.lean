/-
**Scanners that are fed piece by piece.**

A scanner reads one symbol at a time until it is finished or has failed; then it stops, also in the
middle of the piece it is fed. `accepts` says that a scanner started in a state finishes exactly at
the last symbol of a list.

* `feed_accepts`: a piece that begins with an accepted list is read up to the end of that list.
* `feed_prefix`: a piece that is a proper prefix of an accepted list is read whole, and the scanner
  goes on to accept what is missing.
* `accepts_of_passes`, `feed_of_passes`: what a scanner reads without stopping does not decide how it
  stops.
* `accepts_of_feed`, `accepts_append`: a scanner that finishes inside a piece has accepted what it has
  read of it, together with the pieces before.
* `accepts_of_stays`, `accepts_of_view`: a scanner that fails in more states, or carries more in its
  state, accepts the same lists.
-/
import Mathlib.Data.List.Basic

/-- A scanner: its state after one more symbol, and the two ways it stops. -/
structure Scanner (σ α : Type*) where
  step : σ → α → σ
  finished : σ → Bool
  failed : σ → Bool

namespace Scanner

variable {σ α : Type*} (scanner : Scanner σ α)

/-- The scanner has stopped. -/
def halted (state : σ) : Bool := scanner.finished state || scanner.failed state

/-- Feed a piece: the state reached and the number of symbols read. -/
def feed : σ → List α → σ × Nat
  | state, [] => (state, 0)
  | state, symbol :: symbols =>
    if scanner.halted (scanner.step state symbol) then (scanner.step state symbol, 1)
    else
      let later := feed (scanner.step state symbol) symbols
      (later.1, later.2 + 1)

/-- The state in which the scanner finishes, when it does so exactly at the last symbol. -/
def accepts : σ → List α → Option σ
  | _, [] => none
  | state, symbol :: symbols =>
    if scanner.halted (scanner.step state symbol) then
      if symbols.isEmpty && !scanner.failed (scanner.step state symbol) then
        some (scanner.step state symbol)
      else none
    else accepts (scanner.step state symbol) symbols

/-- The state after a list that is read without stopping. -/
def passes : σ → List α → Option σ
  | state, [] => some state
  | state, symbol :: symbols =>
    if scanner.halted (scanner.step state symbol) then none
    else passes (scanner.step state symbol) symbols

-- the equations are made here once, not by the first of the proofs below while the others wait
attribute [local simp] feed accepts passes

variable {scanner} {state final : σ}

theorem ne_nil_of_accepts {symbols : List α} (accepted : scanner.accepts state symbols = some final) :
    symbols ≠ [] := by
  rintro rfl
  cases accepted

theorem length_pos_of_accepts {symbols : List α}
    (accepted : scanner.accepts state symbols = some final) : 0 < symbols.length :=
  List.length_pos_iff.mpr (ne_nil_of_accepts accepted)

/-- What accepting a list means for its first symbol. -/
theorem accepts_cons_eq_some {symbol : α} {symbols : List α} :
    scanner.accepts state (symbol :: symbols) = some final ↔
      (scanner.halted (scanner.step state symbol) = true ∧ symbols = [] ∧
        scanner.failed (scanner.step state symbol) = false ∧ scanner.step state symbol = final) ∨
      (scanner.halted (scanner.step state symbol) = false ∧
        scanner.accepts (scanner.step state symbol) symbols = some final) := by
  rw [accepts]
  by_cases stops : scanner.halted (scanner.step state symbol) = true
  · simp [stops, List.isEmpty_iff, and_assoc]
  · simp [stops]

theorem outcome_of_accepts {symbols : List α} (accepted : scanner.accepts state symbols = some final) :
    scanner.finished final = true ∧ scanner.failed final = false := by
  induction symbols generalizing state with
  | nil => cases accepted
  | cons symbol symbols ih =>
      rcases accepts_cons_eq_some.mp accepted with ⟨stops, _, fine, rfl⟩ | ⟨_, later⟩
      · refine ⟨?_, fine⟩
        rw [halted, fine, Bool.or_false] at stops
        exact stops
      · exact ih later

/-- **An accepted list is read to its end**, whatever follows it in the piece. -/
theorem feed_accepts {symbols : List α} (accepted : scanner.accepts state symbols = some final)
    (extra : List α) : scanner.feed state (symbols ++ extra) = (final, symbols.length) := by
  induction symbols generalizing state with
  | nil => cases accepted
  | cons symbol symbols ih =>
      rw [List.cons_append, feed]
      rcases accepts_cons_eq_some.mp accepted with ⟨stops, rfl, _, rfl⟩ | ⟨goesOn, later⟩
      · rw [if_pos stops]
        rfl
      · rw [if_neg (by rw [goesOn]; exact Bool.false_ne_true), ih later]
        rfl

/-- **A proper prefix of an accepted list** is read whole and the rest is still accepted. -/
theorem feed_prefix {front back : List α}
    (accepted : scanner.accepts state (front ++ back) = some final) (more : back ≠ []) :
    (scanner.feed state front).2 = front.length ∧
      scanner.accepts (scanner.feed state front).1 back = some final ∧
      (front ≠ [] → scanner.halted (scanner.feed state front).1 = false) := by
  induction front generalizing state with
  | nil => exact ⟨rfl, accepted, fun absurd => (absurd rfl).elim⟩
  | cons symbol front ih =>
      rcases accepts_cons_eq_some.mp accepted with ⟨_, empty, _, _⟩ | ⟨goesOn, later⟩
      · exact absurd (List.append_eq_nil_iff.mp empty).2 more
      · obtain ⟨count, rest, stays⟩ := ih later
        rw [feed, if_neg (by rw [goesOn]; exact Bool.false_ne_true)]
        refine ⟨by rw [List.length_cons, ← count], rest, fun _ => ?_⟩
        by_cases single : front = []
        · subst single
          exact goesOn
        · exact stays single

/-- **A scanner that finishes has accepted what it has read** of the piece. -/
theorem accepts_of_feed {symbols : List α} (some : symbols ≠ [])
    (finishes : scanner.finished (scanner.feed state symbols).1 = true)
    (fine : scanner.failed (scanner.feed state symbols).1 = false) :
    scanner.accepts state (symbols.take (scanner.feed state symbols).2) =
      .some (scanner.feed state symbols).1 := by
  induction symbols generalizing state with
  | nil => exact absurd rfl some
  | cons symbol symbols ih =>
      rw [feed] at finishes fine ⊢
      by_cases stops : scanner.halted (scanner.step state symbol) = true
      · rw [if_pos stops] at finishes fine ⊢
        exact accepts_cons_eq_some.mpr (.inl ⟨stops, rfl, fine, rfl⟩)
      · rw [if_neg stops] at finishes fine ⊢
        by_cases last : symbols = []
        · subst last
          rw [halted, show scanner.finished (scanner.step state symbol) = true from finishes] at stops
          exact absurd rfl stops
        · exact accepts_cons_eq_some.mpr
            (.inr ⟨Bool.eq_false_iff.mpr stops, ih last finishes fine⟩)

/-- No more is read than there is. -/
theorem feed_le (symbols : List α) : (scanner.feed state symbols).2 ≤ symbols.length := by
  induction symbols generalizing state with
  | nil => exact Nat.le_refl _
  | cons symbol symbols ih =>
      rw [feed, List.length_cons]
      split
      · exact Nat.succ_le_succ (Nat.zero_le _)
      · exact Nat.succ_le_succ ih

/-- A scanner that goes on has read the whole piece. -/
theorem length_of_feed {symbols : List α}
    (goesOn : scanner.halted (scanner.feed state symbols).1 = false) :
    (scanner.feed state symbols).2 = symbols.length := by
  induction symbols generalizing state with
  | nil => rfl
  | cons symbol symbols ih =>
      rw [feed] at goesOn ⊢
      by_cases stops : scanner.halted (scanner.step state symbol) = true
      · rw [if_pos stops, stops] at goesOn
        cases goesOn
      · rw [if_neg stops] at goesOn ⊢
        exact congrArg (· + 1) (ih goesOn)

/-- **A scanner that goes on** accepts what it has read together with what it accepts next. -/
theorem accepts_append {front : List α} (goesOn : scanner.halted (scanner.feed state front).1 = false)
    {back : List α} (accepted : scanner.accepts (scanner.feed state front).1 back = some final) :
    scanner.accepts state (front ++ back) = some final := by
  induction front generalizing state with
  | nil => exact accepted
  | cons symbol front ih =>
      rw [feed] at goesOn accepted
      by_cases stops : scanner.halted (scanner.step state symbol) = true
      · rw [if_pos stops, stops] at goesOn
        cases goesOn
      · rw [if_neg stops] at goesOn accepted
        exact accepts_cons_eq_some.mpr (.inr ⟨Bool.eq_false_iff.mpr stops, ih goesOn accepted⟩)

theorem passes_cons {symbol : α} {symbols : List α}
    (goesOn : scanner.halted (scanner.step state symbol) = false) :
    scanner.passes state (symbol :: symbols) =
      scanner.passes (scanner.step state symbol) symbols := by
  rw [passes, if_neg (by rw [goesOn]; exact Bool.false_ne_true)]

/-- Two lists that are read one after the other. -/
theorem passes_append (front back : List α) :
    scanner.passes state (front ++ back) =
      (scanner.passes state front).bind fun middle => scanner.passes middle back := by
  induction front generalizing state with
  | nil => rfl
  | cons symbol front ih =>
      rw [List.cons_append, passes, passes]
      split
      · rfl
      · exact ih

theorem passes_of_passes {front : List α} {middle : σ}
    (passed : scanner.passes state front = some middle) (back : List α) :
    scanner.passes state (front ++ back) = scanner.passes middle back := by
  rw [passes_append, passed]
  rfl

/-- What every step keeps holds after a list that is read. -/
theorem passes_invariant {holds : σ → Prop}
    (keeps : ∀ state symbol, holds state → holds (scanner.step state symbol)) (symbols : List α)
    (start : holds state) : ∀ final, scanner.passes state symbols = some final → holds final := by
  induction symbols generalizing state with
  | nil =>
      intro final passed
      cases passed
      exact start
  | cons symbol symbols ih =>
      intro final passed
      rw [passes] at passed
      split at passed
      · cases passed
      · exact ih (keeps state symbol start) final passed

/-- What every step keeps holds wherever the scanner stops. -/
theorem feed_invariant {holds : σ → Prop}
    (keeps : ∀ state symbol, holds state → holds (scanner.step state symbol)) (symbols : List α)
    (start : holds state) : holds (scanner.feed state symbols).1 := by
  induction symbols generalizing state with
  | nil => exact start
  | cons symbol symbols ih =>
      rw [feed]
      split
      · exact keeps state symbol start
      · exact ih (keeps state symbol start)

theorem passes_trans {front back : List α} {middle : σ}
    (first : scanner.passes state front = some middle)
    (second : scanner.passes middle back = some final) :
    scanner.passes state (front ++ back) = some final := by
  rw [passes_of_passes first]
  exact second

/-- **A scanner accepts what is left** after what it has read without stopping. -/
theorem accepts_of_passes {front : List α} {middle : σ}
    (passed : scanner.passes state front = some middle) (back : List α) :
    scanner.accepts state (front ++ back) = scanner.accepts middle back := by
  induction front generalizing state with
  | nil =>
      cases passed
      rfl
  | cons symbol front ih =>
      rw [passes] at passed
      rw [List.cons_append, accepts]
      split at passed
      · cases passed
      · rename_i goesOn
        rw [if_neg goesOn]
        exact ih passed

/-- **A scanner stops where it stops** after what it has read without stopping. -/
theorem feed_of_passes {front : List α} {middle : σ}
    (passed : scanner.passes state front = some middle) (back : List α) :
    (scanner.feed state (front ++ back)).1 = (scanner.feed middle back).1 := by
  induction front generalizing state with
  | nil =>
      cases passed
      rfl
  | cons symbol front ih =>
      rw [passes] at passed
      rw [List.cons_append, feed]
      split at passed
      · cases passed
      · rename_i goesOn
        rw [if_neg goesOn]
        exact ih passed

/-! ### Scanners that agree -/

/-- What fails and never stops to fail has failed at the end. -/
theorem failed_of_accepts {failed : σ → Bool}
    (stays : ∀ state symbol, failed state = true → failed (scanner.step state symbol) = true)
    {symbols : List α} (accepted : scanner.accepts state symbols = some final)
    (fails : failed state = true) : failed final = true := by
  induction symbols generalizing state with
  | nil => cases accepted
  | cons symbol symbols ih =>
      rcases accepts_cons_eq_some.mp accepted with ⟨_, _, _, rfl⟩ | ⟨_, later⟩
      · exact stays state symbol fails
      · exact ih later (stays state symbol fails)

/-- **A scanner with more ways to fail**, none of which it leaves again, accepts what ends in a state
that has not failed. -/
theorem accepts_of_stays {failed : σ → Bool}
    (stays : ∀ state symbol, failed state = true → failed (scanner.step state symbol) = true)
    {symbols : List α} (accepted : scanner.accepts state symbols = some final)
    (fine : failed final = false) :
    accepts { scanner with failed := failed } state symbols = some final := by
  have notFailed {middle : σ} {rest : List α} (later : scanner.accepts middle rest = some final) :
      failed middle = false := by
    by_contra fails
    rw [failed_of_accepts stays later (Bool.not_eq_false _ ▸ fails)] at fine
    cases fine
  induction symbols generalizing state with
  | nil => cases accepted
  | cons symbol symbols ih =>
      rcases accepts_cons_eq_some.mp accepted with ⟨stops, rfl, kept, rfl⟩ | ⟨goesOn, later⟩
      · have finishes : scanner.finished (scanner.step state symbol) = true := by
          unfold halted at stops
          rw [kept, Bool.or_false] at stops
          exact stops
        refine accepts_cons_eq_some.mpr (.inl ⟨?_, rfl, fine, rfl⟩)
        show (scanner.finished (scanner.step state symbol) || _) = true
        rw [finishes, Bool.true_or]
      · have runs : scanner.finished (scanner.step state symbol) = false :=
          (Bool.or_eq_false_iff.mp goesOn).1
        refine accepts_cons_eq_some.mpr (.inr ⟨?_, ih later⟩)
        show (scanner.finished (scanner.step state symbol) || failed (scanner.step state symbol)) = false
        rw [runs, notFailed later, Bool.or_false]

/-- **A scanner that shows another one** accepts what the other accepts. -/
theorem accepts_of_view {τ : Type*} {shown : Scanner τ α} (view : τ → σ)
    (steps : ∀ inner symbol, view (shown.step inner symbol) = scanner.step (view inner) symbol)
    (finishes : ∀ inner, shown.finished inner = scanner.finished (view inner))
    (fails : ∀ inner, shown.failed inner = scanner.failed (view inner)) {symbols : List α} {inner : τ}
    (accepted : scanner.accepts (view inner) symbols = some final) :
    ∃ last, shown.accepts inner symbols = some last ∧ view last = final := by
  induction symbols generalizing inner with
  | nil => cases accepted
  | cons symbol symbols ih =>
      have same : shown.halted (shown.step inner symbol) =
          scanner.halted (scanner.step (view inner) symbol) := by
        unfold halted
        rw [finishes, fails, steps]
      rcases accepts_cons_eq_some.mp accepted with ⟨stops, rfl, kept, rfl⟩ | ⟨goesOn, later⟩
      · refine ⟨_, accepts_cons_eq_some.mpr (.inl ⟨same.trans stops, rfl, ?_, rfl⟩), steps _ _⟩
        rw [fails, steps, kept]
      · rw [← steps] at later
        obtain ⟨last, found, isFinal⟩ := ih later
        exact ⟨last, accepts_cons_eq_some.mpr (.inr ⟨same.trans goesOn, found⟩), isFinal⟩

/-- What every step keeps holds at the end of a list that is accepted. -/
theorem accepts_invariant {holds : σ → Prop}
    (keeps : ∀ state symbol, holds state → holds (scanner.step state symbol)) {symbols : List α}
    (accepted : scanner.accepts state symbols = some final) (start : holds state) : holds final := by
  have fed := feed_accepts accepted []
  have kept : holds (scanner.feed state (symbols ++ [])).1 := feed_invariant keeps _ start
  rw [fed] at kept
  exact kept

end Scanner
