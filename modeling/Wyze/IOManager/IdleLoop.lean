/-
**The idle loop between `epoll_wait` and the lock.**

`epoll_wait` reports events of the fds registered at that moment; the idle loop treats each report
later, under the `FdContext` lock, and any thread may change the registration in between. `Idle`
keeps the reports that are still to be treated.

The idle loop triggers what was reported as soon as one reported event is still registered, so a
report of both events of which one was removed fails the assertion of `triggerEvent`:
`stale_report_aborts`. `idle_triggers_registered_iff` says exactly when a run is free of this.
-/
import Wyze.IOManager.Runs

namespace Wyze

open Labelled

/-- The manager and the reports that an idle loop has still to treat. -/
structure Idle (φ γ : Type*) where
  manager : IOManager φ γ
  inflight : List (Nat × Reported)

namespace Idle

variable {φ γ : Type*}

def new : Idle φ γ := { manager := .new, inflight := [] }

/-- A step of another thread, a return of `epoll_wait`, or the treatment of one report. -/
inductive Label (φ γ : Type*) where
  | thread (label : IOManager.Label φ γ)
  | epollWait (reports : List (Nat × Reported))
  | deliver (index : Nat) (ctlOk : Bool)
deriving DecidableEq

/-- The kernel reports registered fds, and of the two events only those asked for. -/
def reportable (registered : Nat → Option Events) (report : Nat × Reported) : Bool :=
  match registered report.1 with
  | none => false
  | some events => report.2.events.inter events == report.2.events

def step (state : Idle φ γ) : Label φ γ → Option (Idle φ γ × IOManager.Shown φ γ)
  | .thread (.deliver ..) => none
  | .thread label =>
    (state.manager.step label).map fun next => ({ state with manager := next.1 }, next.2)
  | .epollWait reports =>
    if state.manager.aborted.isNone && reports.all (reportable state.manager.registered) then
      some ({ state with inflight := state.inflight ++ reports }, .done none [] true)
    else none
  | .deliver index ctlOk =>
    state.inflight[index]?.bind fun report =>
      (state.manager.step (.deliver report.1 report.2 ctlOk)).map fun next =>
        ({ manager := next.1, inflight := state.inflight.eraseIdx index }, next.2)

/-- **When a treated report is harmless**: its `epoll_ctl` fails, or none of what it stands for is
registered any more, or all events it names still are. -/
def Harmless (state : Idle φ γ) : Label φ γ → Prop
  | .deliver index ctlOk => ∀ report, state.inflight[index]? = some report →
    (state.manager.context report.1).Current report.2 ctlOk
  | _ => True

/-- Neither the assertion of `triggerEvent` failed nor was a null scheduler used. -/
def Safe (shown : IOManager.Shown φ γ) : Prop :=
  shown ≠ .aborted .notRegistered ∧ shown ≠ .aborted .nullScheduler

instance [DecidableEq φ] [DecidableEq γ] (shown : IOManager.Shown φ γ) : Decidable (Safe shown) :=
  inferInstanceAs (Decidable (_ ∧ _))

/-- A stale report fails the assertion of `triggerEvent`. -/
theorem deliver_stale {manager next : IOManager φ γ} {fd : Nat} {reported : Reported} {ctlOk : Bool}
    {shown : IOManager.Shown φ γ} (well : manager.WellFormed)
    (stale : ¬ (manager.context fd).Current reported ctlOk)
    (stepped : manager.step (.deliver fd reported ctlOk) = some (next, shown)) :
    shown = .aborted .notRegistered := by
  cases found : manager.fdContexts[fd]? with
  | none =>
      refine absurd (Or.inr (Or.inl ?_)) stale
      rw [IOManager.context, found]
      rfl
  | some ctx =>
      rw [IOManager.context_eq found] at stale
      have aborts := ctx.deliver_stale (well.right fd ctx found).2 manager.pendingEvent stale
      rw [IOManager.step] at stepped
      split at stepped
      · cases stepped
      · simp only [IOManager.Label.table, IOManager.Label.fd, found, IOManager.Label.section,
          aborts] at stepped
        cases stepped
        rfl

/-- A step of the manager is safe unless it treats a stale report. -/
theorem safe_iff {manager next : IOManager φ γ} {label : IOManager.Label φ γ}
    {shown : IOManager.Shown φ γ} (well : manager.WellFormed)
    (stepped : manager.step label = some (next, shown)) :
    Safe shown ↔ ∀ fd reported ctlOk, label = .deliver fd reported ctlOk →
      (manager.context fd).Current reported ctlOk := by
  constructor
  · rintro safe fd reported ctlOk rfl
    by_contra stale
    exact safe.1 (deliver_stale well stale stepped)
  · intro current
    obtain ⟨_, failed, _⟩ := IOManager.step_spec well stepped
    refine ⟨fun isAborted => ?_, fun isAborted => ?_⟩
    · have fails := (failed _ isAborted).1
      cases label with
      | addEvent fd event cb self exec ctlOk => rcases fails with isSame | isSame <;> cases isSame
      | deliver fd reported ctlOk => exact fails.2 (current fd reported ctlOk rfl)
      | _ => cases fails
    · have fails := (failed _ isAborted).1
      cases label with
      | addEvent fd event cb self exec ctlOk => rcases fails with isSame | isSame <;> cases isSame
      | deliver fd reported ctlOk => cases fails.1
      | _ => cases fails

/-- **One step** is safe exactly when it is harmless. -/
theorem step_safe {state : Idle φ γ} {label : Label φ γ} {next : Idle φ γ × IOManager.Shown φ γ}
    (well : state.manager.WellFormed) (stepped : state.step label = some next) :
    next.1.manager.WellFormed ∧ (Safe next.2 ↔ state.Harmless label) := by
  cases label with
  | thread label =>
      obtain ⟨notDeliver, inner⟩ : (∀ fd reported ctlOk, label ≠ .deliver fd reported ctlOk) ∧
          (state.manager.step label).map (fun next =>
            (({ state with manager := next.1 }, next.2) : Idle φ γ × IOManager.Shown φ γ)) =
            some next := by
        cases label with
        | deliver fd reported ctlOk => cases stepped
        | _ => exact ⟨nofun, stepped⟩
      obtain ⟨reached, stepped', rfl⟩ := Option.map_eq_some_iff.mp inner
      refine ⟨(IOManager.step_spec well stepped').1, (safe_iff well stepped').trans ?_⟩
      exact iff_of_true (fun fd reported ctlOk same => absurd same (notDeliver fd reported ctlOk))
        trivial
  | epollWait reports =>
      rw [step] at stepped
      split at stepped
      · cases stepped
        exact ⟨well, iff_of_true ⟨nofun, nofun⟩ trivial⟩
      · cases stepped
  | deliver index ctlOk =>
      obtain ⟨report, found, inner⟩ := Option.bind_eq_some_iff.mp stepped
      obtain ⟨reached, stepped', rfl⟩ := Option.map_eq_some_iff.mp inner
      refine ⟨(IOManager.step_spec well stepped').1, (safe_iff well stepped').trans ?_⟩
      constructor
      · intro current report' found'
        rw [found] at found'
        cases found'
        exact current _ _ _ rfl
      · rintro harmless _ _ _ ⟨⟩
        exact harmless report found

/-- **The idle loop triggers only registered events exactly in the runs whose treated reports are all
harmless.** -/
theorem idle_triggers_registered_iff (labels : List (Label φ γ)) {final : Idle φ γ}
    {shown : List (IOManager.Shown φ γ)} (executed : trace step new labels = some (final, shown)) :
    (∀ output ∈ shown, Safe output) ↔ Meets step Harmless new labels :=
  trace_outputs_iff (fun _ _ _ (well : Idle.manager _ |>.WellFormed) stepped =>
    step_safe well stepped) labels IOManager.new_wellFormed executed

/-- A run in which the removed event is the only one that was reported. -/
theorem idle_triggers_registered_removed :
    ∃ final shown, trace step (new : Idle Unit Unit)
        [.thread (.addEvent 5 .read (some ()) () true true),
          .thread (.addEvent 5 .write (some ()) () true true),
          .epollWait [(5, { events := { read := true, write := false }, failed := false })],
          .thread (.delEvent 5 .read true), .deliver 0 true] = some (final, shown) ∧
      Meets step Harmless (new : Idle Unit Unit)
        [.thread (.addEvent 5 .read (some ()) () true true),
          .thread (.addEvent 5 .write (some ()) () true true),
          .epollWait [(5, { events := { read := true, write := false }, failed := false })],
          .thread (.delEvent 5 .read true), .deliver 0 true] := by
  have executed : trace step (new : Idle Unit Unit)
      [.thread (.addEvent 5 .read (some ()) () true true),
        .thread (.addEvent 5 .write (some ()) () true true),
        .epollWait [(5, { events := { read := true, write := false }, failed := false })],
        .thread (.delEvent 5 .read true), .deliver 0 true] = some (_, _) := rfl
  exact ⟨_, _, executed, (idle_triggers_registered_iff _ executed).mp (by decide)⟩

/-- **A stale report aborts.** Both events are reported, the read event is removed before the idle
loop takes the lock, and the write event that is still registered lets the report through. -/
theorem stale_report_aborts :
    ∃ final shown, trace step (new : Idle Unit Unit)
        [.thread (.addEvent 5 .read (some ()) () true true),
          .thread (.addEvent 5 .write (some ()) () true true),
          .epollWait [(5, { events := { read := true, write := true }, failed := false })],
          .thread (.delEvent 5 .read true), .deliver 0 true] = some (final, shown) ∧
      .aborted .notRegistered ∈ shown :=
  ⟨_, _, rfl, by decide⟩

end Idle

end Wyze
