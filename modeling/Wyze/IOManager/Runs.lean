/-
**Runs of the fd-event functions.**

`events_agree`: in every order of the functions' critical sections, on any fds and with any results
of `epoll_ctl`, the bits, the contexts, the counter and the kernel agree.
-/
import Wyze.IOManager.Invariant

namespace Wyze.IOManager

open Labelled

variable {φ γ : Type*}

theorem new_wellFormed : (new : IOManager φ γ).WellFormed := by
  have entries := contextResize_getElem? ([] : List (FdContext φ γ)) (Nat.zero_le 32)
  have noBits : bits (new : IOManager φ γ).fdContexts = 0 :=
    bits_contextResize [] (Nat.zero_le 32)
  refine
    { room := by rw [new, contextResize_of_le _ (Nat.zero_le 32)]; simp
      right := fun fd ctx found => ?_
      pending_eq := noBits.symm
      registered_eq := fun fd => ?_ }
  · rw [new, entries] at found
    split at found
    · cases found
    · split at found
      · cases found
        exact ⟨rfl, FdContext.new_right fd⟩
      · cases found
  · rw [context, new, entries]
    split
    · rfl
    · split <;> rfl

/-- The assertions that a run can fail: an event added twice or for a fiber that does not run, and a
report of an event that is not registered. -/
def CanFail (shown : Shown φ γ) : Prop :=
  ∀ assertion, shown = .aborted assertion →
    assertion = .addedTwice ∨ assertion = .fiberNotExec ∨ assertion = .notRegistered

theorem step_canFail {manager next : IOManager φ γ} {label : Label φ γ} {shown : Shown φ γ}
    (well : manager.WellFormed) (stepped : manager.step label = some (next, shown)) :
    CanFail shown := by
  intro assertion isAborted
  have fails := ((step_spec well stepped).2.1 assertion isAborted).1
  cases label with
  | addEvent fd event cb self exec ctlOk => exact Or.imp_right Or.inl fails
  | deliver fd reported ctlOk => exact Or.inr (Or.inr fails.1)
  | _ => cases fails

/-- **The bookkeeping agrees in every reachable state.** `m_pendingEvent` is the number of event bits
set; a set bit has a context with the scheduler and exactly one of fiber and callback, and a clear
bit an empty context; the kernel has registered exactly the bits. `addEvent` never finds its
context in use. The next step issues `EPOLL_CTL_ADD` exactly for an fd that is not registered, and
a step whose `epoll_ctl` fails changes none of this. -/
theorem events_agree (labels : List (Label φ γ)) {final : IOManager φ γ}
    {shown : List (Shown φ γ)} (executed : trace step new labels = some (final, shown)) :
    final.pendingEvent = bits final.fdContexts ∧
      (∀ fd event, (final.context fd).events.has event = true →
        ((final.context fd).getContext event).scheduler = true ∧
          ((final.context fd).getContext event).fiber.isSome ≠
            ((final.context fd).getContext event).cb.isSome) ∧
      (∀ fd event, (final.context fd).events.has event = false →
        (final.context fd).getContext event = .empty) ∧
      (∀ fd, final.registered fd =
        if (final.context fd).events.any then some (final.context fd).events else none) ∧
      .aborted .contextInUse ∉ shown ∧ .aborted .nullScheduler ∉ shown ∧
      ∀ label next ctl scheduled ok,
        final.step label = some (next, .done (some ctl) scheduled ok) →
        (ctl.op = .add ↔ final.registered label.fd = none) ∧
          (ctl.ok = false → next.pendingEvent = final.pendingEvent ∧
            next.registered = final.registered ∧ ∀ fd, next.context fd = final.context fd) := by
  obtain ⟨well, failures⟩ := trace_shows (fun state label next (before : state.WellFormed) stepped =>
    ⟨(step_spec before stepped).1, step_canFail before stepped⟩) labels new_wellFormed executed
  have right : ∀ fd, (final.context fd).Right := by
    intro fd
    rw [context]
    cases found : final.fdContexts[fd]? with
    | none => exact FdContext.new_right fd
    | some ctx => exact (well.right fd ctx found).2
  refine ⟨well.pending_eq, fun fd event registered => ?_, fun fd event unregistered => ?_,
    well.registered_eq, fun inUse => ?_, fun null => ?_, fun label next ctl scheduled ok stepped => ?_⟩
  · have armed := right fd event
    rwa [if_pos registered] at armed
  · have empty := right fd event
    rwa [if_neg (by simp [unregistered])] at empty
  · rcases failures _ inUse _ rfl with isSame | isSame | isSame <;> cases isSame
  · rcases failures _ null _ rfl with isSame | isSame | isSame <;> cases isSame
  · exact ((step_spec well stepped).2.2 _ _ _ rfl).2 ctl rfl

/-- Both events of one fd, the read event fired, a refused removal and an fd past the table. -/
theorem events_agree_fired :
    ∃ final shown, trace step (new : IOManager Nat String)
        [.addEvent 3 .read (some "in") 0 true true, .addEvent 3 .write none 7 true true,
          .deliver 3 { events := { read := true, write := false }, failed := false } true,
          .delEvent 3 .write false, .addEvent 40 .read none 8 true true] = some (final, shown) ∧
      final.pendingEvent = bits final.fdContexts ∧ final.fdContexts.length = 60 ∧
      final.registered 3 = some { read := false, write := true } ∧
      .aborted .contextInUse ∉ shown := by
  have executed : trace step (new : IOManager Nat String)
      [.addEvent 3 .read (some "in") 0 true true, .addEvent 3 .write none 7 true true,
        .deliver 3 { events := { read := true, write := false }, failed := false } true,
        .delEvent 3 .write false, .addEvent 40 .read none 8 true true] = some (_, _) := rfl
  obtain ⟨counted, _, _, _, free, _⟩ := events_agree _ executed
  exact ⟨_, _, executed, counted, rfl, rfl, free⟩

end Wyze.IOManager
