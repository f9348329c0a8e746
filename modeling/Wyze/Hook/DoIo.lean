/-
**A fiber in `do_io` with a timeout.**

Each round of `do_io` that meets `EAGAIN` arms a condition timer, registers the event, gives the
processor away and, when it is resumed, cancels the timer and tests whether the timer's callback
has marked the round. The timer, its callback on another worker and the readiness of the fd are
steps of their own; what they do to the fd's `FdContext` are the critical sections of `IOManager`.

The timer is armed before the event is registered. A callback that runs in between finds no event to
cancel, and the fiber then waits for an event that may never come: `timeout_lost`. In every run in
which no callback runs that early, a suspended fiber is always woken: `suspended_wakes`.
-/
import Wyze.IOManager.Basic
import Wyze.Lib.Run

namespace Wyze

open Labelled

/-- The condition timer of one round: in the timer set, collected with its callback yet to run, the
callback holding the round's `TimerCond`, the callback about to call `canceEvent`, or done with. -/
inductive TimerStatus where
  | armed
  | due
  | holding
  | marked
  | finished
deriving DecidableEq

/-- A round's timer and the flag of its `TimerCond`. -/
structure Round where
  timer : TimerStatus
  cancelled : Bool
deriving DecidableEq

/-- Where the fiber stands in `do_io`: before the call of `fun`, `addConditionTimer`, `addEvent`,
`YeildToHold`; suspended; before `timer->cancel`, the test of `cancelled`, `delEvent`; or out of it,
by its return or because an assertion failed. -/
inductive Phase where
  | trying
  | arming
  | adding
  | yielding
  | suspended
  | resumed
  | checking
  | deleting
  | returned
  | aborted
deriving DecidableEq

/-- `queued` counts the entries of the fiber in the scheduler's queue; `earlier` are the rounds that
are over, of which a callback may still be running. -/
structure DoIo where
  event : Event
  phase : Phase
  current : Round
  earlier : List Round
  context : FdContext Unit Unit
  pending : Int
  queued : Nat
deriving DecidableEq

namespace DoIo

/-- The entry of `do_io`, with rounds left over from earlier calls. -/
def new (fd : Nat) (event : Event) (earlier : List Round) : DoIo :=
  { event := event
    phase := .trying
    current := { timer := .finished, cancelled := false }
    earlier := earlier
    context := .new fd
    pending := 0
    queued := 0 }

/-- The `TimerCond` of the current round exists. -/
def condAlive (state : DoIo) : Bool :=
  match state.phase with
  | .adding | .yielding | .suspended | .resumed | .checking | .deleting => true
  | _ => false

/-- A critical section on the fd's context; what it schedules is the fiber. -/
def run (state : DoIo) (result : Except Assertion (Outcome Unit Unit)) : DoIo :=
  match result with
  | .error _ => { state with phase := .aborted }
  | .ok outcome =>
    { state with
      context := outcome.context
      pending := outcome.pending
      queued := state.queued + outcome.scheduled.length }

/-- The current round, or an earlier one. -/
inductive Which where
  | current
  | earlier (index : Nat)
deriving DecidableEq

def round (state : DoIo) : Which → Option Round
  | .current => some state.current
  | .earlier index => state.earlier[index]?

def setRound (state : DoIo) (round : Round) : Which → DoIo
  | .current => { state with current := round }
  | .earlier index => { state with earlier := state.earlier.set index round }

/-- Fiber steps in the order of the code, then the steps of others: the fd becomes ready, a timer is
collected by `listExpiredCb`, and the three parts of its callback. -/
inductive Label where
  | call (done : Bool)
  | arm
  | add (ctlOk : Bool)
  | yield
  | resume
  | cancelTimer
  | check
  | delete (ctlOk : Bool)
  | ready (failed ctlOk : Bool)
  | expire (which : Which)
  | lock (which : Which)
  | mark (which : Which)
  | cance (which : Which) (ctlOk : Bool)
deriving DecidableEq

/-- A step of the fiber. -/
def fiberStep (state : DoIo) : Label → Option DoIo
  | .call done =>
    if state.phase = .trying then some { state with phase := if done then .returned else .arming }
    else none
  | .arm =>
    if state.phase = .arming then
      some { state with phase := .adding, current := { timer := .armed, cancelled := false } }
    else none
  | .add ctlOk =>
    if state.phase = .adding then
      let result := state.context.addEvent state.pending state.event none () true ctlOk
      some ({ state with phase := if ctlOk then .yielding else .returned }.run result)
    else none
  | .yield => if state.phase = .yielding then some { state with phase := .suspended } else none
  | .resume =>
    if state.phase = .suspended ∧ 0 < state.queued then
      some { state with phase := .resumed, queued := state.queued - 1 }
    else none
  | .cancelTimer =>
    if state.phase = .resumed then
      let timer := if state.current.timer = .armed then .finished else state.current.timer
      some { state with phase := .checking, current := { state.current with timer := timer } }
    else none
  | .check =>
    if state.phase = .checking then
      if state.current.cancelled then some { state with phase := .deleting }
      else
        some { state with
          phase := .trying
          earlier := state.earlier ++ [state.current]
          current := { timer := .finished, cancelled := false } }
    else none
  | .delete ctlOk =>
    if state.phase = .deleting then
      some ({ state with phase := .returned }.run
        (state.context.delEvent state.pending state.event ctlOk))
    else none
  | _ => none

/-- A step of a round's timer: its own change, given whether the round's `TimerCond` exists. -/
def timerStep (round : Round) (alive : Bool) : Label → Option Round
  | .expire _ => if round.timer = .armed then some { round with timer := .due } else none
  | .lock _ =>
    if round.timer = .due then some { round with timer := if alive then .holding else .finished }
    else none
  | .mark _ =>
    if round.timer = .holding then
      if round.cancelled then some { round with timer := .finished }
      else some { timer := .marked, cancelled := true }
    else none
  | .cance _ _ => if round.timer = .marked then some { round with timer := .finished } else none
  | _ => none

/-- The round whose timer makes the step. -/
def Label.which : Label → Option Which
  | .expire which | .lock which | .mark which | .cance which _ => some which
  | _ => none

/-- One step of the fiber, of the idle loop or of a timer. -/
def step (state : DoIo) (label : Label) : Option (DoIo × Unit) :=
  if state.phase = .aborted then none
  else
    match label with
    | .ready failed ctlOk =>
      some (state.run (state.context.deliver state.pending
        { events := Events.none.add state.event, failed := failed } ctlOk), ())
    | _ =>
      match label.which with
      | none => (state.fiberStep label).map (·, ())
      | some which =>
        (state.round which).bind fun round =>
          (timerStep round (which = .current ∧ state.condAlive) label).map fun round =>
            let state := state.setRound round which
            match label with
            | .cance _ ctlOk =>
              (state.run (state.context.canceEvent state.pending state.event ctlOk), ())
            | _ => (state, ())

/-- **In time**: the callback of the current round calls `canceEvent` only after the round's `addEvent`,
and the `epoll_ctl` it then needs succeeds. -/
def InTime (state : DoIo) : Label → Prop
  | .cance .current ctlOk => state.phase ≠ .adding ∧
    (state.context.events.has state.event = true → ctlOk = true)
  | _ => True

instance (state : DoIo) : (label : Label) → Decidable (state.InTime label)
  | .cance .current _ => inferInstanceAs (Decidable (_ ∧ _))
  | .cance (.earlier _) _ => .isTrue trivial
  | .call _ | .arm | .add _ | .yield | .resume | .cancelTimer | .check | .delete _ | .ready _ _
  | .expire _ | .lock _ | .mark _ => .isTrue trivial

/-! ### The two contexts of a run -/

/-- The context in which the fiber waits. -/
def waiting (fd : Nat) (event : Event) : FdContext Unit Unit :=
  ({ FdContext.new fd with events := Events.none.add event } : FdContext Unit Unit).setContext event
    { scheduler := true, fiber := some (), cb := none }

variable {state : DoIo} {fd : Nat}

theorem run_addEvent (clear : state.context = .new fd) (phase : Phase) (ctlOk : Bool) :
    ({ state with phase := phase }.run
      (state.context.addEvent state.pending state.event none () true ctlOk)) =
      if ctlOk then { state with
        phase := phase, context := waiting fd state.event, pending := state.pending + 1 }
      else { state with phase := phase } := by
  obtain ⟨event, _, _, _, context, _, _⟩ := state
  obtain rfl : context = .new fd := clear
  cases event <;> cases ctlOk <;> rfl

theorem run_canceEvent_clear (clear : state.context = .new fd) (ctlOk : Bool) :
    state.run (state.context.canceEvent state.pending state.event ctlOk) = state := by
  obtain ⟨event, _, _, _, context, _, _⟩ := state
  obtain rfl : context = .new fd := clear
  cases event <;> rfl

theorem run_canceEvent_waiting (waits : state.context = waiting fd state.event) (ctlOk : Bool) :
    state.run (state.context.canceEvent state.pending state.event ctlOk) =
      if ctlOk then { state with
        context := .new fd, pending := state.pending - 1, queued := state.queued + 1 }
      else state := by
  obtain ⟨event, _, _, _, context, _, _⟩ := state
  obtain rfl : context = waiting fd event := waits
  cases event <;> cases ctlOk <;> rfl

theorem run_delEvent_clear (clear : state.context = .new fd) (phase : Phase) (ctlOk : Bool) :
    ({ state with phase := phase }.run
      (state.context.delEvent state.pending state.event ctlOk)) =
      { state with phase := phase } := by
  obtain ⟨event, _, _, _, context, _, _⟩ := state
  obtain rfl : context = .new fd := clear
  cases event <;> rfl

theorem run_deliver_clear (clear : state.context = .new fd) (failed ctlOk : Bool) :
    state.run (state.context.deliver state.pending
      { events := Events.none.add state.event, failed := failed } ctlOk) = state := by
  obtain ⟨event, _, _, _, context, _, _⟩ := state
  obtain rfl : context = .new fd := clear
  cases event <;> cases failed <;> rfl

theorem run_deliver_waiting (waits : state.context = waiting fd state.event) (failed ctlOk : Bool) :
    state.run (state.context.deliver state.pending
      { events := Events.none.add state.event, failed := failed } ctlOk) =
      if ctlOk then { state with
        context := .new fd, pending := state.pending - 1, queued := state.queued + 1 }
      else state := by
  obtain ⟨event, _, _, _, context, _, _⟩ := state
  obtain rfl : context = waiting fd event := waits
  cases event <;> cases failed <;> cases ctlOk <;> rfl

theorem waiting_has (fd : Nat) (event : Event) : (waiting fd event).events.has event = true := by
  cases event <;> rfl

theorem new_ne_waiting (fd : Nat) (event : Event) : FdContext.new fd ≠ waiting fd event := by
  intro same
  have has := waiting_has fd event
  rw [← same] at has
  cases event <;> cases has

/-! ### The invariant -/

/-- The fiber has registered its event and has not been resumed since. -/
def Inside (phase : Phase) : Prop := phase = .yielding ∨ phase = .suspended

instance (phase : Phase) : Decidable (Inside phase) := inferInstanceAs (Decidable (_ ∨ _))

/-- Where the fiber's event and its place in the queue stand: nothing is registered, or the event is
while the timer is still to act, or the fiber was handed to the scheduler. -/
inductive Place (fd : Nat) (state : DoIo) : Prop where
  | away (outside : ¬ Inside state.phase) (clear : state.context = .new fd)
      (unqueued : state.queued = 0)
  | waits (inside : Inside state.phase) (registered : state.context = waiting fd state.event)
      (unqueued : state.queued = 0) (live : state.current.timer ≠ .finished)
  | woken (inside : Inside state.phase) (clear : state.context = .new fd)
      (queued : state.queued = 1)

/-- **The invariant of a round**: the timer is live from its arming until the event is gone, and the
flag is not set before its callback runs. -/
structure Inv (fd : Nat) (state : DoIo) : Prop where
  place : Place fd state
  adding_live : state.phase = .adding → state.current.timer ≠ .finished
  fresh : state.current.timer ≠ .finished → state.current.timer ≠ .marked →
    state.current.cancelled = false

theorem new_inv (fd : Nat) (event : Event) (earlier : List Round) :
    Inv fd (new fd event earlier) where
  place := .away (show ¬ Inside .trying by decide) rfl rfl
  adding_live := nofun
  fresh _ _ := rfl

theorem Place.clear_of_outside (place : Place fd state) (outside : ¬ Inside state.phase) :
    state.context = .new fd ∧ state.queued = 0 := by
  cases place with
  | away _ clear unqueued => exact ⟨clear, unqueued⟩
  | waits inside | woken inside => exact absurd inside outside

/-- A fiber that moves on outside the waiting phases, with the same or a harmless timer. -/
theorem Inv.move (inv : Inv fd state) {next : DoIo} (outside : ¬ Inside state.phase)
    (outside' : ¬ Inside next.phase) (same : next.context = state.context)
    (same' : next.queued = state.queued)
    (adding_live : next.phase = .adding → next.current.timer ≠ .finished)
    (fresh : next.current.timer ≠ .finished → next.current.timer ≠ .marked →
      next.current.cancelled = false) : Inv fd next := by
  obtain ⟨clear, unqueued⟩ := inv.place.clear_of_outside outside
  exact ⟨.away outside' (same.trans clear) (same'.trans unqueued), adding_live, fresh⟩

/-- A step of the fiber keeps the invariant. -/
theorem fiberStep_inv {next : DoIo} {label : Label} (inv : Inv fd state)
    (stepped : state.fiberStep label = some next) : Inv fd next := by
  cases label with
  | call done =>
      rw [fiberStep] at stepped
      split at stepped <;> cases stepped
      rename_i here
      have outside' : ¬ Inside (if done then .returned else .arming) := by cases done <;> decide
      refine inv.move (by rw [here]; decide) outside' rfl rfl ?_ inv.fresh
      cases done <;> exact nofun
  | arm =>
      rw [fiberStep] at stepped
      split at stepped <;> cases stepped
      rename_i here
      exact inv.move (by rw [here]; decide) (show ¬ Inside .adding by decide) rfl rfl
        (fun _ => nofun) fun _ _ => rfl
  | add ctlOk =>
      rw [fiberStep] at stepped
      split at stepped <;> cases stepped
      rename_i here
      obtain ⟨clear, unqueued⟩ := inv.place.clear_of_outside (by rw [here]; decide)
      rw [run_addEvent clear]
      cases ctlOk with
      | true =>
          exact ⟨.waits (Or.inl rfl) rfl unqueued (inv.adding_live here), nofun, inv.fresh⟩
      | false =>
          exact ⟨.away (show ¬ Inside .returned by decide) clear unqueued, nofun, inv.fresh⟩
  | yield =>
      rw [fiberStep] at stepped
      split at stepped <;> cases stepped
      rename_i here
      refine ⟨?_, nofun, inv.fresh⟩
      cases inv.place with
      | away outside => exact absurd (Or.inl here) outside
      | waits _ registered unqueued live => exact .waits (Or.inr rfl) registered unqueued live
      | woken _ clear queued => exact .woken (Or.inr rfl) clear queued
  | resume =>
      rw [fiberStep] at stepped
      split at stepped <;> cases stepped
      rename_i here
      refine ⟨?_, nofun, inv.fresh⟩
      cases inv.place with
      | away outside => exact absurd (Or.inr here.1) outside
      | waits _ _ unqueued => exact absurd here.2 (by omega)
      | woken _ clear queued =>
          exact .away (show ¬ Inside .resumed by decide) clear
            (show state.queued - 1 = 0 by omega)
  | cancelTimer =>
      rw [fiberStep] at stepped
      split at stepped <;> cases stepped
      rename_i here
      refine inv.move (by rw [here]; decide) (show ¬ Inside .checking by decide) rfl rfl nofun ?_
      dsimp only
      split
      · exact fun unfinished => absurd rfl unfinished
      · exact inv.fresh
  | check =>
      rw [fiberStep] at stepped
      split at stepped
      · rename_i here
        have outside : ¬ Inside state.phase := by rw [here]; decide
        split at stepped <;> cases stepped
        · exact inv.move outside (show ¬ Inside .deleting by decide) rfl rfl nofun inv.fresh
        · exact inv.move outside (show ¬ Inside .trying by decide) rfl rfl nofun fun _ _ => rfl
      · cases stepped
  | delete ctlOk =>
      rw [fiberStep] at stepped
      split at stepped <;> cases stepped
      rename_i here
      obtain ⟨clear, unqueued⟩ := inv.place.clear_of_outside (by rw [here]; decide)
      rw [run_delEvent_clear clear]
      exact ⟨.away (show ¬ Inside .returned by decide) clear unqueued, nofun, inv.fresh⟩
  | _ => cases stepped

/-- A trigger of the event, by readiness or by a callback, hands a waiting fiber to the scheduler. -/
theorem Inv.triggered (inv : Inv fd state) {next : DoIo} (success : Bool)
    (clear : state.context = .new fd → next = state)
    (waits : state.context = waiting fd state.event → next =
      if success then { state with
        context := .new fd, pending := state.pending - 1, queued := state.queued + 1 }
      else state) : Inv fd next := by
  cases inv.place with
  | away _ isClear | woken _ isClear =>
      rw [clear isClear]
      exact inv
  | waits inside registered unqueued live =>
      rw [waits registered]
      cases success with
      | true => exact ⟨.woken inside rfl (congrArg (· + 1) unqueued), inv.adding_live, inv.fresh⟩
      | false => exact inv

/-- A change of an earlier round keeps the invariant. -/
theorem Inv.earlier (inv : Inv fd state) (rounds : List Round) :
    Inv fd { state with earlier := rounds } := by
  refine ⟨?_, inv.adding_live, inv.fresh⟩
  cases inv.place with
  | away outside clear unqueued => exact .away outside clear unqueued
  | waits inside registered unqueued live => exact .waits inside registered unqueued live
  | woken inside clear queued => exact .woken inside clear queued

/-- A change of the current timer keeps the invariant when it leaves a timer live that still has to
act. -/
theorem Inv.retime (inv : Inv fd state) (round : Round)
    (fresh : round.timer ≠ .finished → round.timer ≠ .marked → round.cancelled = false)
    (live : state.phase = .adding ∨ state.context = waiting fd state.event →
      round.timer ≠ .finished) : Inv fd { state with current := round } := by
  refine ⟨?_, fun here => live (Or.inl here), fresh⟩
  cases inv.place with
  | away outside clear unqueued => exact .away outside clear unqueued
  | waits inside registered unqueued _ =>
      exact .waits inside registered unqueued (live (Or.inr registered))
  | woken inside clear queued => exact .woken inside clear queued

/-- While the event is to be awaited, the round's `TimerCond` exists. -/
theorem Inv.condAlive (inv : Inv fd state)
    (needed : state.phase = .adding ∨ state.context = waiting fd state.event) :
    state.condAlive = true := by
  rcases needed with here | registered
  · rw [DoIo.condAlive, here]
  · cases inv.place with
    | away _ clear | woken _ clear =>
        exact absurd (clear.symm.trans registered) (new_ne_waiting fd state.event)
    | waits inside =>
        rcases inside with here | here <;> rw [DoIo.condAlive, here]

/-- The parts of the callback up to `canceEvent` leave the current timer live while it is needed. -/
theorem Inv.retimed (inv : Inv fd state) {label : Label} {round : Round}
    (changed : timerStep state.current state.condAlive label = some round)
    (notCance : ∀ which ctlOk, label ≠ .cance which ctlOk) :
    Inv fd { state with current := round } := by
  cases label with
  | expire which =>
      rw [timerStep] at changed
      split at changed <;> cases changed
      rename_i armed
      exact inv.retime _ (fun _ _ => inv.fresh (by rw [armed]; decide) (by rw [armed]; decide))
        fun _ => nofun
  | lock which =>
      rw [timerStep] at changed
      split at changed <;> cases changed
      rename_i due
      refine inv.retime _ (fun _ _ => inv.fresh (by rw [due]; decide) (by rw [due]; decide))
        fun needed => ?_
      rw [if_pos (inv.condAlive needed)]
      exact nofun
  | mark which =>
      rw [timerStep] at changed
      split at changed
      · rename_i holding
        have unmarked := inv.fresh (by rw [holding]; decide) (by rw [holding]; decide)
        rw [unmarked] at changed
        cases changed
        exact inv.retime _ (fun _ unmarked => absurd rfl unmarked) fun _ => nofun
      · cases changed
  | cance which ctlOk => exact absurd rfl (notCance which ctlOk)
  | _ => cases changed

/-- What a step of a timer does. -/
theorem step_timer {label : Label} {which : Which} {next : DoIo × Unit}
    (isTimer : label.which = some which) (stepped : state.step label = some next) :
    ∃ round round', state.round which = some round ∧
      timerStep round (which = .current ∧ state.condAlive) label = some round' ∧
      next.1 = match label with
        | .cance _ ctlOk => (state.setRound round' which).run
          ((state.setRound round' which).context.canceEvent
            (state.setRound round' which).pending (state.setRound round' which).event ctlOk)
        | _ => state.setRound round' which := by
  unfold step at stepped
  split at stepped
  · cases stepped
  · cases label <;> first
      | cases isTimer
        obtain ⟨round, found, rest⟩ := Option.bind_eq_some_iff.mp stepped
        obtain ⟨round', changed, rfl⟩ := Option.map_eq_some_iff.mp rest
        exact ⟨round, round', found, changed, rfl⟩
      | cases isTimer

/-- A callback that calls `canceEvent` in time hands a waiting fiber to the scheduler. -/
theorem Inv.cancelled (inv : Inv fd state) {ctlOk : Bool} (round : Round)
    (done : round.timer = .finished) (inTime : state.InTime (.cance .current ctlOk)) :
    Inv fd (({ state with current := round } : DoIo).run
      (state.context.canceEvent state.pending state.event ctlOk)) := by
  cases inv.place with
  | away _ clear | woken _ clear =>
      have clear' : ({ state with current := round } : DoIo).context = .new fd := clear
      rw [run_canceEvent_clear clear']
      refine inv.retime round (fun unfinished => absurd done unfinished) ?_
      rintro (here | registered)
      · exact absurd here inTime.1
      · exact absurd (clear.symm.trans registered) (new_ne_waiting fd state.event)
  | waits inside registered unqueued =>
      have success : ctlOk = true := inTime.2 (by rw [registered]; exact waiting_has fd _)
      have registered' : ({ state with current := round } : DoIo).context =
        waiting fd state.event := registered
      rw [run_canceEvent_waiting registered', if_pos success]
      exact ⟨.woken inside rfl (congrArg (· + 1) unqueued), fun here => absurd here inTime.1,
        fun unfinished => absurd done unfinished⟩

/-- **One step** in time keeps the invariant. -/
theorem step_inv {label : Label} {next : DoIo × Unit} (inv : Inv fd state)
    (inTime : state.InTime label) (stepped : state.step label = some next) : Inv fd next.1 := by
  cases isTimer : label.which with
  | none =>
      unfold step at stepped
      split at stepped
      · cases stepped
      · cases label with
        | ready failed ctlOk =>
            cases stepped
            exact inv.triggered ctlOk (fun clear => run_deliver_clear clear failed ctlOk)
              fun waits => run_deliver_waiting waits failed ctlOk
        | expire | lock | mark | cance => cases isTimer
        | _ =>
            obtain ⟨reached, moved, rfl⟩ := Option.map_eq_some_iff.mp stepped
            exact fiberStep_inv inv moved
  | some which =>
      obtain ⟨round, round', found, changed, reached⟩ := step_timer isTimer stepped
      rw [reached]
      cases which with
      | current =>
          cases found
          have changed' : timerStep state.current state.condAlive label = some round' := by
            simpa using changed
          cases label with
          | cance which ctlOk =>
              cases isTimer
              refine inv.cancelled round' ?_ inTime
              rw [timerStep] at changed
              split at changed <;> cases changed
              rfl
          | _ => exact inv.retimed changed' nofun
      | earlier index =>
          have kept := inv.earlier (state.earlier.set index round')
          cases label with
          | cance which ctlOk =>
              exact kept.triggered ctlOk (fun clear => run_canceEvent_clear clear ctlOk)
                fun waits => run_canceEvent_waiting waits ctlOk
          | _ => exact kept

/-- **A suspended fiber is woken.** In a run in which each round's callback calls `canceEvent` in
time, a fiber suspended in `do_io` has its timer in the set, or the timer's callback has yet to run
to its end, or it has been handed to the scheduler. -/
theorem suspended_wakes (fd : Nat) (event : Event) (earlier : List Round) (labels : List Label)
    {final : DoIo} {outputs : List Unit}
    (executed : trace step (new fd event earlier) labels = some (final, outputs))
    (inTime : Meets step InTime (new fd event earlier) labels) (suspended : final.phase = .suspended) :
    final.current.timer ≠ .finished ∨ 0 < final.queued := by
  have inv : Inv fd final :=
    trace_invariant InTime (fun _ _ _ inv inTime stepped => step_inv inv inTime stepped) labels
      (new_inv fd event earlier) inTime executed
  cases inv.place with
  | away outside => exact absurd (Or.inr suspended) outside
  | waits _ _ _ live => exact Or.inl live
  | woken _ _ queued => exact Or.inr (by omega)

/-- A round whose timer expires while the fiber is suspended, after an earlier round left a callback
behind. -/
theorem suspended_wakes_expired :
    ∃ final outputs, trace step (new 3 .read [{ timer := .marked, cancelled := true }])
        [.call false, .arm, .cance (.earlier 0) true, .add true, .yield, .expire .current,
          .lock .current, .mark .current, .cance .current true] = some (final, outputs) ∧
      (final.current.timer ≠ .finished ∨ 0 < final.queued) := by
  have executed : trace step (new 3 .read [{ timer := .marked, cancelled := true }])
      [.call false, .arm, .cance (.earlier 0) true, .add true, .yield, .expire .current,
        .lock .current, .mark .current, .cance .current true] = some (_, _) := rfl
  exact ⟨_, _, executed, suspended_wakes 3 .read _ _ executed (by decide) rfl⟩

/-- **A timeout is lost.** The callback runs between `addConditionTimer` and `addEvent`: its
`canceEvent` finds nothing, and the fiber then waits with its event registered, its timer spent and
nobody to wake it. -/
theorem timeout_lost :
    ∃ final outputs, trace step (new 3 .read [])
        [.call false, .arm, .expire .current, .lock .current, .mark .current,
          .cance .current true, .add true, .yield] = some (final, outputs) ∧
      final.phase = .suspended ∧ final.context.events.has .read = true ∧
      final.current.timer = .finished ∧ final.queued = 0 :=
  ⟨_, _, rfl, rfl, rfl, rfl, rfl⟩

end DoIo

end Wyze
