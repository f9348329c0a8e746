/-
**A fiber in `connect_with_tiemout`.**

When `connect_f` reports `EINPROGRESS` the fiber registers `WRITE`, arms a condition timer unless the
timeout is `-1`, gives the processor away and, resumed, cancels the timer, tests whether the timer's
callback has marked the `TimerCond` and otherwise reads `SO_ERROR`. The idle loop's report of the fd
and the parts of the callback are steps of their own, as in `do_io`; each step shows its own label.

* `returned_facts`: what a return says about the steps before it, and that it leaves no event and no
  armed timer behind.
* `timed_out_unfired`: the kernel gives up first, and `SO_ERROR` is `ETIMEDOUT` while the timer is
  still to fire.
-/
import Wyze.Hook.DoIo
import Wyze.Hook.FdManager

namespace Wyze

open Labelled

/-- `errno` values that the function sets or tests. -/
def EBADF : Int := 9

def ETIMEDOUT : Int := 110

def EINPROGRESS : Int := 115

/-- Where the fiber stands: before the only call of `connect_f` (`direct`) or before the one whose
`EINPROGRESS` it handles; before `addEvent`, the arming of the timer, `YeildToHold`; suspended; before
`timer->cancel`, the test of `cancelled`, `delEvent`, `getsockopt_f`; or out of the function. -/
inductive ConnectPhase where
  | direct
  | calling
  | adding
  | arming
  | yielding
  | suspended
  | resumed
  | checking
  | deleting
  | asking
  | returned (value : Int)
  | aborted
deriving DecidableEq

/-- `round` is the timer and the flag of the `TimerCond`; `queued` counts the entries of the fiber in
the scheduler's queue. -/
structure Connect where
  timeoutMs : UInt64
  phase : ConnectPhase
  errno : Int
  round : Round
  context : FdContext Unit Unit
  pending : Int
  queued : Nat
deriving DecidableEq

namespace Connect

/-- What `FdMgr` knows about the fd decides how the function starts. -/
def entry (hookEnable : Bool) (ctx : Option FdCtx) : ConnectPhase :=
  if hookEnable = false then .direct
  else
    match ctx with
    | none => .returned (-1)
    | some ctx =>
      if ctx.isClosed then .returned (-1)
      else if ctx.isSocket = false ∨ ctx.userNonblock then .direct
      else .calling

/-- The entry of `connect_with_tiemout`. -/
def new (fd : Nat) (hookEnable : Bool) (ctx : Option FdCtx) (timeoutMs : UInt64) : Connect :=
  { timeoutMs := timeoutMs
    phase := entry hookEnable ctx
    errno := EBADF
    round := { timer := .finished, cancelled := false }
    context := .new fd
    pending := 0
    queued := 0 }

/-- The `TimerCond` exists. -/
def condAlive (state : Connect) : Bool :=
  match state.phase with
  | .arming | .yielding | .suspended | .resumed | .checking | .deleting => true
  | _ => false

/-- A critical section on the fd's context; what it schedules is the fiber. -/
def run (state : Connect) (result : Except Assertion (Outcome Unit Unit)) : Connect :=
  match result with
  | .error _ => { state with phase := .aborted }
  | .ok outcome =>
    { state with
      context := outcome.context
      pending := outcome.pending
      queued := state.queued + outcome.scheduled.length }

/-- Fiber steps in the order of the code, with what `connect_f` and `getsockopt_f` answer (an `errno`,
or the value of `SO_ERROR`); then the idle loop's report of the fd and the parts of the callback. -/
inductive Label where
  | connect (value errno : Int)
  | add (ctlOk : Bool)
  | arm
  | yield
  | resume
  | cancelTimer
  | check
  | delete (ctlOk : Bool)
  | getsockopt (answer : Except Int Int)
  | ready (failed ctlOk : Bool)
  | expire
  | lock
  | mark
  | cance (ctlOk : Bool)
deriving DecidableEq

/-- A step of the fiber. -/
def fiberStep (state : Connect) : Label → Option Connect
  | .connect value errno =>
    if state.phase = .direct then some { state with phase := .returned value, errno := errno }
    else if state.phase = .calling then
      if value = 0 then some { state with phase := .returned 0, errno := errno }
      else if value ≠ -1 ∨ errno ≠ EINPROGRESS then
        some { state with phase := .returned value, errno := errno }
      else some { state with phase := .adding, errno := errno }
    else none
  | .add ctlOk =>
    if state.phase = .adding then
      let result := state.context.addEvent state.pending .write none () true ctlOk
      some ({ state with phase := if ctlOk then .arming else .asking }.run result)
    else none
  | .arm =>
    if state.phase = .arming then
      let timer := if state.timeoutMs ≠ -1 then .armed else .finished
      some { state with phase := .yielding, round := { timer := timer, cancelled := false } }
    else none
  | .yield => if state.phase = .yielding then some { state with phase := .suspended } else none
  | .resume =>
    if state.phase = .suspended ∧ 0 < state.queued then
      some { state with phase := .resumed, queued := state.queued - 1 }
    else none
  | .cancelTimer =>
    if state.phase = .resumed then
      let timer := if state.round.timer = .armed then .finished else state.round.timer
      some { state with phase := .checking, round := { state.round with timer := timer } }
    else none
  | .check =>
    if state.phase = .checking then
      if state.round.cancelled then some { state with phase := .deleting, errno := ETIMEDOUT }
      else some { state with phase := .asking }
    else none
  | .delete ctlOk =>
    if state.phase = .deleting then
      some ({ state with phase := .returned (-1) }.run
        (state.context.delEvent state.pending .write ctlOk))
    else none
  | .getsockopt answer =>
    if state.phase = .asking then
      match answer with
      | .error errno => some { state with phase := .returned (-1), errno := errno }
      | .ok error =>
        if error = 0 then some { state with phase := .returned 0 }
        else some { state with phase := .returned (-1), errno := error }
    else none
  | _ => none

-- the equations are made here once, not by the first of the proofs below while the others wait
attribute [local simp] fiberStep

/-- A step of another worker: the idle loop only treats what is registered, and the callback is the one
of `do_io`. -/
def otherStep (state : Connect) : Label → Option Connect
  | .ready failed ctlOk =>
    if state.context.events.has .write then
      some (state.run (state.context.deliver state.pending
        { events := Events.none.add .write, failed := failed } ctlOk))
    else none
  | .expire =>
    (DoIo.timerStep state.round state.condAlive (.expire .current)).map ({ state with round := · })
  | .lock =>
    (DoIo.timerStep state.round state.condAlive (.lock .current)).map ({ state with round := · })
  | .mark =>
    (DoIo.timerStep state.round state.condAlive (.mark .current)).map ({ state with round := · })
  | .cance ctlOk =>
    (DoIo.timerStep state.round state.condAlive (.cance .current ctlOk)).map fun round =>
      { state with round := round }.run (state.context.canceEvent state.pending .write ctlOk)
  | _ => none

/-- One step, which shows its label. -/
def step (state : Connect) (label : Label) : Option (Connect × Label) :=
  if state.phase = .aborted then none
  else ((state.fiberStep label).or (state.otherStep label)).map (·, label)

/-! ### The contexts of a run -/

variable {state : Connect} {fd : Nat} {happened : List Label}

theorem run_addEvent (clear : state.context = .new fd) (phase : ConnectPhase) (ctlOk : Bool) :
    ({ state with phase := phase }.run
      (state.context.addEvent state.pending .write none () true ctlOk)) =
      if ctlOk then { state with
        phase := phase, context := DoIo.waiting fd .write, pending := state.pending + 1 }
      else { state with phase := phase } := by
  obtain ⟨_, _, _, _, context, _, _⟩ := state
  obtain rfl : context = .new fd := clear
  cases ctlOk <;> rfl

theorem run_delEvent (clear : state.context = .new fd) (phase : ConnectPhase) (ctlOk : Bool) :
    ({ state with phase := phase }.run (state.context.delEvent state.pending .write ctlOk)) =
      { state with phase := phase } := by
  obtain ⟨_, _, _, _, context, _, _⟩ := state
  obtain rfl : context = .new fd := clear
  rfl

theorem run_canceEvent_clear (clear : state.context = .new fd) (round : Round) (ctlOk : Bool) :
    ({ state with round := round }.run (state.context.canceEvent state.pending .write ctlOk)) =
      { state with round := round } := by
  obtain ⟨_, _, _, _, context, _, _⟩ := state
  obtain rfl : context = .new fd := clear
  rfl

theorem run_canceEvent_waiting (waits : state.context = DoIo.waiting fd .write) (round : Round)
    (ctlOk : Bool) :
    ({ state with round := round }.run (state.context.canceEvent state.pending .write ctlOk)) =
      if ctlOk then { state with
        round := round, context := .new fd, pending := state.pending - 1
        queued := state.queued + 1 }
      else { state with round := round } := by
  obtain ⟨_, _, _, _, context, _, _⟩ := state
  obtain rfl : context = DoIo.waiting fd .write := waits
  cases ctlOk <;> rfl

theorem run_deliver (waits : state.context = DoIo.waiting fd .write) (failed ctlOk : Bool) :
    state.run (state.context.deliver state.pending
      { events := Events.none.add .write, failed := failed } ctlOk) =
      if ctlOk then { state with
        context := .new fd, pending := state.pending - 1, queued := state.queued + 1 }
      else state := by
  obtain ⟨_, _, _, _, context, _, _⟩ := state
  obtain rfl : context = DoIo.waiting fd .write := waits
  cases failed <;> cases ctlOk <;> rfl

/-! ### The invariant -/

/-- The fiber has registered `WRITE` and has not been resumed since. -/
def Inside (phase : ConnectPhase) : Prop :=
  phase = .arming ∨ phase = .yielding ∨ phase = .suspended

instance (phase : ConnectPhase) : Decidable (Inside phase) := inferInstanceAs (Decidable (_ ∨ _))

/-- The timer has not been armed yet. -/
def Early (phase : ConnectPhase) : Prop :=
  phase = .direct ∨ phase = .calling ∨ phase = .adding ∨ phase = .arming

instance (phase : ConnectPhase) : Decidable (Early phase) := inferInstanceAs (Decidable (_ ∨ _))

/-- The idle loop reported the fd writable, or failed, and woke the fiber. -/
def Reported (happened : List Label) : Prop := ∃ failed, .ready failed true ∈ happened

/-- `connect_f` succeeded at once, or the fd was reported writable and `SO_ERROR` was 0. -/
def Connected (happened : List Label) : Prop :=
  (∃ errno, .connect 0 errno ∈ happened) ∨ Reported happened ∧ .getsockopt (.ok 0) ∈ happened

/-- The timer fired, or `connect_f`, `SO_ERROR` or `getsockopt_f` reported `ETIMEDOUT`. -/
def TimedOut (happened : List Label) : Prop :=
  .expire ∈ happened ∨ .connect (-1) ETIMEDOUT ∈ happened ∨
    .getsockopt (.ok ETIMEDOUT) ∈ happened ∨ .getsockopt (.error ETIMEDOUT) ∈ happened

/-- Where the fiber's event and its place in the queue stand. -/
inductive Place (fd : Nat) (state : Connect) (happened : List Label) : Prop where
  | away (outside : ¬ Inside state.phase) (clear : state.context = .new fd)
      (unqueued : state.queued = 0)
  | waits (inside : Inside state.phase) (registered : state.context = DoIo.waiting fd .write)
      (unqueued : state.queued = 0)
  | woken (inside : Inside state.phase) (clear : state.context = .new fd)
      (queued : state.queued = 1) (cause : Reported happened ∨ state.round.cancelled = true)

/-- What led the fiber to its phase. -/
def Cause (state : Connect) (happened : List Label) : Prop :=
  match state.phase with
  | .resumed | .checking => Reported happened ∨ state.round.cancelled = true
  | .deleting => state.round.cancelled = true
  | .asking => Reported happened ∨ .add false ∈ happened
  | .returned value =>
    (value = 0 → Connected happened ∨ .add false ∈ happened) ∧
      (value = -1 → state.errno = ETIMEDOUT → TimedOut happened)
  | _ => True

/-- **The invariant of a call.** -/
structure Inv (fd : Nat) (state : Connect) (happened : List Label) : Prop where
  place : Place fd state happened
  cause : Cause state happened
  early : Early state.phase → state.round = { timer := .finished, cancelled := false }
  armed : state.round.timer = .armed →
    state.phase = .yielding ∨ state.phase = .suspended ∨ state.phase = .resumed
  fired : state.round.timer ≠ .armed → state.round.timer ≠ .finished → .expire ∈ happened
  flagged : state.round.cancelled = true → .expire ∈ happened
  marked : state.round.timer = .marked → state.round.cancelled = true

theorem new_inv (fd : Nat) (hookEnable : Bool) (ctx : Option FdCtx) (timeoutMs : UInt64) :
    Inv fd (new fd hookEnable ctx timeoutMs) [] := by
  have start : entry hookEnable ctx = .direct ∨ entry hookEnable ctx = .calling ∨
      entry hookEnable ctx = .returned (-1) := by
    unfold entry
    repeat' split
    all_goals simp
  refine ⟨.away ?_ rfl rfl, ?_, fun _ => rfl, nofun, fun _ bad => absurd rfl bad, nofun, nofun⟩
  · rcases start with here | here | here <;> simp [Inside, new, here]
  · rcases start with here | here | here <;> simp [Cause, new, here, EBADF, ETIMEDOUT]

theorem Cause.later (cause : Cause state happened) (label : Label) :
    Cause state (happened ++ [label]) := by
  have grows : ∀ {other : Label}, other ∈ happened → other ∈ happened ++ [label] :=
    List.mem_append_left _
  have reported : Reported happened → Reported (happened ++ [label]) :=
    fun ⟨failed, member⟩ => ⟨failed, grows member⟩
  obtain ⟨_, phase, _, _, _, _, _⟩ := state
  cases phase with
  | resumed | checking => exact Or.imp_left reported cause
  | deleting => exact cause
  | asking => exact Or.imp reported grows cause
  | returned value =>
      refine ⟨fun zero => (cause.1 zero).imp ?_ grows, fun failed same => ?_⟩
      · exact Or.imp (fun ⟨errno, member⟩ => ⟨errno, grows member⟩) (And.imp reported grows)
      · exact (cause.2 failed same).imp grows (Or.imp grows (Or.imp grows grows))
  | _ => trivial

/-- The invariant speaks about what has happened, which only grows. -/
theorem Inv.later (inv : Inv fd state happened) (label : Label) :
    Inv fd state (happened ++ [label]) where
  place := by
    cases inv.place with
    | away outside clear unqueued => exact .away outside clear unqueued
    | waits inside registered unqueued => exact .waits inside registered unqueued
    | woken inside clear queued cause =>
        exact .woken inside clear queued
          (cause.imp_left fun ⟨failed, member⟩ => ⟨failed, List.mem_append_left _ member⟩)
  cause := inv.cause.later label
  early := inv.early
  armed := inv.armed
  fired running ran := List.mem_append_left _ (inv.fired running ran)
  flagged cancelled := List.mem_append_left _ (inv.flagged cancelled)
  marked := inv.marked

theorem Inv.outside (inv : Inv fd state happened) (outside : ¬ Inside state.phase) :
    state.context = .new fd ∧ state.queued = 0 := by
  cases inv.place with
  | away _ clear unqueued => exact ⟨clear, unqueued⟩
  | waits inside | woken inside => exact absurd inside outside

/-- A step of the fiber that changes neither the context nor the timer. -/
theorem Inv.move (inv : Inv fd state happened) {phase : ConnectPhase} (errno : Int)
    (outside : ¬ Inside state.phase) (outside' : ¬ Inside phase)
    (cause : Cause { state with phase := phase, errno := errno } happened)
    (early : Early phase → Early state.phase) (unarmed : state.round.timer ≠ .armed) :
    Inv fd { state with phase := phase, errno := errno } happened := by
  obtain ⟨clear, unqueued⟩ := inv.outside outside
  exact ⟨.away outside' clear unqueued, cause, fun here => inv.early (early here),
    fun isArmed => absurd isArmed unarmed, inv.fired, inv.flagged, inv.marked⟩

/-- Outside of the waiting phases only a fiber before `timer->cancel` has an armed timer. -/
theorem Inv.unarmed (inv : Inv fd state happened)
    (away : state.phase ≠ .yielding ∧ state.phase ≠ .suspended ∧ state.phase ≠ .resumed) :
    state.round.timer ≠ .armed := by
  intro isArmed
  rcases inv.armed isArmed with here | here | here
  · exact away.1 here
  · exact away.2.1 here
  · exact away.2.2 here

/-- `connect_f` returns. -/
theorem Inv.connect (inv : Inv fd state happened) {value errno : Int} {next : Connect}
    (happens : .connect value errno ∈ happened)
    (stepped : state.fiberStep (.connect value errno) = some next) : Inv fd next happened := by
  have answered : (value = 0 → Connected happened ∨ .add false ∈ happened) ∧
      (value = -1 → errno = ETIMEDOUT → TimedOut happened) := by
    constructor
    · rintro rfl
      exact Or.inl (Or.inl ⟨errno, happens⟩)
    · rintro rfl rfl
      exact Or.inr (Or.inl happens)
  rw [fiberStep] at stepped
  split at stepped
  · rename_i here
    cases stepped
    exact inv.move errno (by rw [here]; decide) (by simp [Inside]) answered (by simp [Early])
      (inv.unarmed (by rw [here]; decide))
  · split at stepped
    · rename_i here
      have outside : ¬ Inside state.phase := by rw [here]; decide
      have unarmed := inv.unarmed (by rw [here]; decide)
      split at stepped
      · rename_i zero
        cases stepped
        cases zero
        exact inv.move errno outside (by simp [Inside]) answered (by simp [Early]) unarmed
      · split at stepped <;> cases stepped
        · exact inv.move errno outside (by simp [Inside]) answered (by simp [Early]) unarmed
        · exact inv.move errno outside (by decide) trivial (by rw [here]; decide) unarmed
    · cases stepped

/-- `addEvent` registers `WRITE` or fails. -/
theorem Inv.add (inv : Inv fd state happened) {ctlOk : Bool} {next : Connect}
    (happens : .add ctlOk ∈ happened) (stepped : state.fiberStep (.add ctlOk) = some next) :
    Inv fd next happened := by
  rw [fiberStep] at stepped
  split at stepped <;> cases stepped
  rename_i here
  obtain ⟨clear, unqueued⟩ := inv.outside (by rw [here]; decide)
  have unarmed := inv.unarmed (by rw [here]; decide)
  rw [run_addEvent clear]
  cases ctlOk with
  | true =>
      exact ⟨.waits (Or.inl rfl) rfl unqueued, trivial, fun _ => inv.early (by rw [here]; decide),
        fun isArmed => absurd isArmed unarmed, inv.fired, inv.flagged, inv.marked⟩
  | false =>
      exact inv.move state.errno (by rw [here]; decide) (by decide) (Or.inr happens)
        (by simp [Early]) unarmed

/-- The timer is armed, or there is none. -/
theorem Inv.arm (inv : Inv fd state happened) {next : Connect}
    (stepped : state.fiberStep .arm = some next) : Inv fd next happened := by
  rw [fiberStep] at stepped
  split at stepped <;> cases stepped
  rename_i here
  have fresh := inv.early (by rw [here]; decide)
  refine ⟨?_, trivial, (show ¬ Early .yielding by decide).elim, fun _ => Or.inl rfl, ?_, nofun, ?_⟩
  · cases inv.place with
    | away outside => exact absurd (Or.inl here) outside
    | waits _ registered unqueued => exact .waits (Or.inr (Or.inl rfl)) registered unqueued
    | woken _ clear queued cause =>
        refine .woken (Or.inr (Or.inl rfl)) clear queued (Or.inl ?_)
        rw [fresh] at cause
        exact cause.resolve_right nofun
  · dsimp only
    split
    · exact fun running => absurd rfl running
    · exact fun _ ran => absurd rfl ran
  · dsimp only
    split <;> exact nofun

/-- The fiber gives the processor away, and runs again once it was handed to the scheduler. -/
theorem Inv.yield (inv : Inv fd state happened) {next : Connect}
    (stepped : state.fiberStep .yield = some next) : Inv fd next happened := by
  rw [fiberStep] at stepped
  split at stepped <;> cases stepped
  rename_i here
  refine ⟨?_, trivial, (show ¬ Early .suspended by decide).elim, fun _ => Or.inr (Or.inl rfl),
    inv.fired, inv.flagged, inv.marked⟩
  cases inv.place with
  | away outside => exact absurd (Or.inr (Or.inl here)) outside
  | waits _ registered unqueued => exact .waits (Or.inr (Or.inr rfl)) registered unqueued
  | woken _ clear queued cause => exact .woken (Or.inr (Or.inr rfl)) clear queued cause

theorem Inv.resume (inv : Inv fd state happened) {next : Connect}
    (stepped : state.fiberStep .resume = some next) : Inv fd next happened := by
  rw [fiberStep] at stepped
  split at stepped <;> cases stepped
  rename_i here
  cases inv.place with
  | away outside => exact absurd (Or.inr (Or.inr here.1)) outside
  | waits _ _ unqueued => exact absurd here.2 (by omega)
  | woken _ clear queued cause =>
      have unqueued : state.queued - 1 = 0 := by omega
      exact ⟨.away (show ¬ Inside .resumed by decide) clear unqueued, cause,
        (show ¬ Early .resumed by decide).elim, fun _ => Or.inr (Or.inr rfl), inv.fired,
        inv.flagged, inv.marked⟩

/-- `timer->cancel` disarms a timer that has not fired. -/
theorem Inv.cancelTimer (inv : Inv fd state happened) {next : Connect}
    (stepped : state.fiberStep .cancelTimer = some next) : Inv fd next happened := by
  rw [fiberStep] at stepped
  split at stepped <;> cases stepped
  rename_i here
  obtain ⟨clear, unqueued⟩ := inv.outside (by rw [here]; decide)
  have cause : Reported happened ∨ state.round.cancelled = true := by
    simpa only [Cause, here] using inv.cause
  refine ⟨.away (show ¬ Inside .checking by decide) clear unqueued, cause,
    (show ¬ Early .checking by decide).elim, ?_, ?_, inv.flagged, ?_⟩
  · dsimp only
    split
    · exact nofun
    · exact fun isArmed => absurd isArmed (by assumption)
  · dsimp only
    split
    · exact fun _ ran => absurd rfl ran
    · exact inv.fired
  · dsimp only
    split
    · exact nofun
    · exact inv.marked

/-- The test of `cancelled`. -/
theorem Inv.check (inv : Inv fd state happened) {next : Connect}
    (stepped : state.fiberStep .check = some next) : Inv fd next happened := by
  rw [fiberStep] at stepped
  split at stepped
  · rename_i here
    have outside : ¬ Inside state.phase := by rw [here]; decide
    have unarmed := inv.unarmed (by rw [here]; decide)
    split at stepped <;> cases stepped
    · rename_i isCancelled
      exact inv.move ETIMEDOUT outside (by decide) isCancelled (by simp [Early]) unarmed
    · rename_i notCancelled
      have cause : Reported happened ∨ state.round.cancelled = true := by
        simpa only [Cause, here] using inv.cause
      exact inv.move state.errno outside (by decide) (Or.inl (cause.resolve_right notCancelled))
        (by simp [Early]) unarmed
  · cases stepped

/-- The timeout's return. -/
theorem Inv.delete (inv : Inv fd state happened) {ctlOk : Bool} {next : Connect}
    (stepped : state.fiberStep (.delete ctlOk) = some next) : Inv fd next happened := by
  rw [fiberStep] at stepped
  split at stepped <;> cases stepped
  rename_i here
  have outside : ¬ Inside state.phase := by rw [here]; decide
  have cancelled : state.round.cancelled = true := by simpa only [Cause, here] using inv.cause
  rw [run_delEvent (inv.outside outside).1]
  exact inv.move state.errno outside (by decide)
    ⟨by simp, fun _ _ => Or.inl (inv.flagged cancelled)⟩ (by simp [Early])
    (inv.unarmed (by rw [here]; decide))

/-- The return through `SO_ERROR`. -/
theorem Inv.getsockopt (inv : Inv fd state happened) {answer : Except Int Int} {next : Connect}
    (happens : .getsockopt answer ∈ happened)
    (stepped : state.fiberStep (.getsockopt answer) = some next) : Inv fd next happened := by
  by_cases here : state.phase = .asking
  · have outside : ¬ Inside state.phase := by rw [here]; decide
    have unarmed := inv.unarmed (by rw [here]; decide)
    have cause : Reported happened ∨ .add false ∈ happened := by
      simpa only [Cause, here] using inv.cause
    cases answer with
    | error errno =>
        rw [fiberStep, if_pos here] at stepped
        cases stepped
        refine inv.move errno outside (by decide) ⟨by simp, ?_⟩ (by simp [Early]) unarmed
        rintro _ rfl
        exact Or.inr (Or.inr (Or.inr happens))
    | ok error =>
        rw [fiberStep, if_pos here] at stepped
        split at stepped <;> cases stepped
        · rename_i zero
          cases zero
          exact inv.move state.errno outside (by decide)
            ⟨fun _ => cause.imp_left fun reported => Or.inr ⟨reported, happens⟩, by simp⟩
            (by simp [Early]) unarmed
        · refine inv.move error outside (by decide) ⟨by simp, ?_⟩ (by simp [Early]) unarmed
          rintro _ rfl
          exact Or.inr (Or.inr (Or.inl happens))
  · cases answer <;> rw [fiberStep, if_neg here] at stepped <;> cases stepped

/-- A step of the fiber keeps the invariant. -/
theorem Inv.fiber (inv : Inv fd state happened) {label : Label} {next : Connect}
    (happens : label ∈ happened) (stepped : state.fiberStep label = some next) :
    Inv fd next happened := by
  cases label with
  | connect => exact inv.connect happens stepped
  | add => exact inv.add happens stepped
  | arm => exact inv.arm stepped
  | yield => exact inv.yield stepped
  | resume => exact inv.resume stepped
  | cancelTimer => exact inv.cancelTimer stepped
  | check => exact inv.check stepped
  | delete => exact inv.delete stepped
  | getsockopt => exact inv.getsockopt happens stepped
  | ready | expire | lock | mark | cance => cases stepped

/-- A trigger of `WRITE` hands the waiting fiber to the scheduler. -/
theorem Inv.woken (inv : Inv fd state happened) (inside : Inside state.phase)
    (unqueued : state.queued = 0) (cause : Reported happened ∨ state.round.cancelled = true)
    (pending : Int) :
    Inv fd { state with context := .new fd, pending := pending, queued := state.queued + 1 }
      happened :=
  ⟨.woken inside rfl (congrArg (· + 1) unqueued) cause, inv.cause, inv.early, inv.armed, inv.fired,
    inv.flagged, inv.marked⟩

/-- The idle loop treats a report of the fd. -/
theorem Inv.ready (inv : Inv fd state happened) {failed ctlOk : Bool} {next : Connect}
    (happens : .ready failed ctlOk ∈ happened)
    (stepped : state.otherStep (.ready failed ctlOk) = some next) : Inv fd next happened := by
  rw [otherStep] at stepped
  split at stepped <;> cases stepped
  rename_i registered
  cases inv.place with
  | away _ clear | woken _ clear => rw [clear] at registered; cases registered
  | waits inside waits unqueued =>
      rw [run_deliver waits]
      cases ctlOk with
      | true => exact inv.woken inside unqueued (Or.inl ⟨failed, happens⟩) _
      | false => exact inv

/-- The timer and the flag change, the flag only from clear to set. -/
theorem Inv.retime (inv : Inv fd state happened) {round : Round}
    (late : ¬ Early state.phase) (keeps : state.round.cancelled = true → round.cancelled = true)
    (unarmed : round.timer ≠ .armed) (fired : .expire ∈ happened)
    (marked : round.timer = .marked → round.cancelled = true) :
    Inv fd { state with round := round } happened where
  place := by
    cases inv.place with
    | away outside clear unqueued => exact .away outside clear unqueued
    | waits inside registered unqueued => exact .waits inside registered unqueued
    | woken inside clear queued cause => exact .woken inside clear queued (cause.imp_right keeps)
  cause := by
    have cause := inv.cause
    obtain ⟨_, phase, _, _, _, _, _⟩ := state
    cases phase with
    | resumed | checking => exact Or.imp_right keeps cause
    | deleting => exact keeps cause
    | _ => exact cause
  early here := absurd here late
  armed isArmed := absurd isArmed unarmed
  fired _ _ := fired
  flagged _ := fired
  marked := marked

/-- A timer that is still to act belongs to a fiber that has armed it. -/
theorem Inv.late (inv : Inv fd state happened) (running : state.round.timer ≠ .finished) :
    ¬ Early state.phase :=
  fun here => running (by rw [inv.early here])

/-- The timer fires. -/
theorem Inv.expire (inv : Inv fd state happened) {next : Connect} (happens : .expire ∈ happened)
    (stepped : state.otherStep .expire = some next) : Inv fd next happened := by
  obtain ⟨round, changed, rfl⟩ := Option.map_eq_some_iff.mp stepped
  rw [DoIo.timerStep] at changed
  split at changed <;> cases changed
  rename_i armed
  exact inv.retime (inv.late (by rw [armed]; decide)) id (by rintro ⟨⟩) happens (by rintro ⟨⟩)

/-- The callback gets hold of the `TimerCond`, or finds it gone. -/
theorem Inv.lock (inv : Inv fd state happened) {next : Connect}
    (stepped : state.otherStep .lock = some next) : Inv fd next happened := by
  obtain ⟨round, changed, rfl⟩ := Option.map_eq_some_iff.mp stepped
  rw [DoIo.timerStep] at changed
  split at changed <;> cases changed
  rename_i due
  have fired := inv.fired (by rw [due]; decide) (by rw [due]; decide)
  refine inv.retime (inv.late (by rw [due]; decide)) id ?_ fired ?_
  · dsimp only
    split <;> rintro ⟨⟩
  · dsimp only
    split <;> rintro ⟨⟩

/-- The callback sets the flag. -/
theorem Inv.mark (inv : Inv fd state happened) {next : Connect}
    (stepped : state.otherStep .mark = some next) : Inv fd next happened := by
  obtain ⟨round, changed, rfl⟩ := Option.map_eq_some_iff.mp stepped
  rw [DoIo.timerStep] at changed
  split at changed
  · rename_i holding
    have fired := inv.fired (by rw [holding]; decide) (by rw [holding]; decide)
    have late := inv.late (by rw [holding]; decide)
    split at changed <;> cases changed
    · exact inv.retime late id (by rintro ⟨⟩) fired (by rintro ⟨⟩)
    · exact inv.retime late (fun _ => rfl) (by rintro ⟨⟩) fired fun _ => rfl
  · cases changed

/-- The callback's `canceEvent`. -/
theorem Inv.cance (inv : Inv fd state happened) {ctlOk : Bool} {next : Connect}
    (stepped : state.otherStep (.cance ctlOk) = some next) : Inv fd next happened := by
  obtain ⟨round, changed, rfl⟩ := Option.map_eq_some_iff.mp stepped
  rw [DoIo.timerStep] at changed
  split at changed <;> cases changed
  rename_i marked
  have fired := inv.fired (by rw [marked]; decide) (by rw [marked]; decide)
  have kept : Inv fd { state with round := { state.round with timer := .finished } } happened :=
    inv.retime (inv.late (by rw [marked]; decide)) id (by rintro ⟨⟩) fired (by rintro ⟨⟩)
  cases inv.place with
  | away _ clear | woken _ clear =>
      rw [run_canceEvent_clear clear]
      exact kept
  | waits inside registered unqueued =>
      rw [run_canceEvent_waiting registered]
      cases ctlOk with
      | true => exact kept.woken inside unqueued (Or.inr (inv.marked marked)) _
      | false => exact kept

/-- A step of another worker keeps the invariant. -/
theorem Inv.other (inv : Inv fd state happened) {label : Label} {next : Connect}
    (happens : label ∈ happened) (stepped : state.otherStep label = some next) :
    Inv fd next happened := by
  cases label with
  | ready failed ctlOk => exact inv.ready happens stepped
  | expire => exact inv.expire happens stepped
  | lock => exact inv.lock stepped
  | mark => exact inv.mark stepped
  | cance => exact inv.cance stepped
  | connect | add | arm | yield | resume | cancelTimer | check | delete | getsockopt =>
      cases stepped

/-- **One step** keeps the invariant. -/
theorem step_inv {label : Label} {next : Connect × Label} (inv : Inv fd state happened)
    (stepped : state.step label = some next) : Inv fd next.1 (happened ++ [next.2]) := by
  unfold step at stepped
  split at stepped
  · cases stepped
  · obtain ⟨reached, moved, rfl⟩ := Option.map_eq_some_iff.mp stepped
    have happens : label ∈ happened ++ [label] := by simp
    rcases Option.or_eq_some_iff.mp moved with byFiber | ⟨_, byOther⟩
    · exact (inv.later label).fiber happens byFiber
    · exact (inv.later label).other happens byOther

/-- **What a return says.** In every interleaving of the fiber's steps, the idle loop's reports and the
timer's callback, a return of 0 after a registration that did not fail follows a `connect_f` that
succeeded at once or a report of the fd and an `SO_ERROR` of 0; a return of -1 with `ETIMEDOUT`
follows a timer that fired or an `ETIMEDOUT` of the kernel; and no return leaves `WRITE` registered
or the timer armed. -/
theorem returned_facts (fd : Nat) (hookEnable : Bool) (ctx : Option FdCtx) (timeoutMs : UInt64)
    (labels : List Label) {final : Connect} {happened : List Label} {value : Int}
    (executed : trace step (new fd hookEnable ctx timeoutMs) labels = some (final, happened))
    (returned : final.phase = .returned value) :
    (value = 0 → .add false ∉ happened → Connected happened) ∧
      (value = -1 → final.errno = ETIMEDOUT → TimedOut happened) ∧
      final.context.events.has .write = false ∧ final.round.timer ≠ .armed := by
  have inv : Inv fd final ([] ++ happened) :=
    trace_history (fun _ _ _ _ inv stepped => step_inv inv stepped) labels
      (new_inv fd hookEnable ctx timeoutMs) executed
  have cause := inv.cause
  rw [Cause, returned] at cause
  refine ⟨fun zero added => (cause.1 zero).resolve_right added, cause.2, ?_, ?_⟩
  · rw [(inv.outside (by rw [returned]; simp [Inside])).1]
    rfl
  · exact inv.unarmed (by rw [returned]; simp)

/-- A socket that reports success after the timer was armed. -/
theorem returned_facts_ready :
    ∃ final happened, trace step (new 3 true (some (FdCtx.new 3 (some true))) 5000)
        [.connect (-1) EINPROGRESS, .add true, .arm, .ready false true, .yield, .resume,
          .cancelTimer, .check, .getsockopt (.ok 0)] = some (final, happened) ∧
      final.phase = .returned 0 ∧ Connected happened ∧
      final.context.events.has .write = false ∧ final.round.timer ≠ .armed := by
  have executed : trace step (new 3 true (some (FdCtx.new 3 (some true))) 5000)
      [.connect (-1) EINPROGRESS, .add true, .arm, .ready false true, .yield, .resume,
        .cancelTimer, .check, .getsockopt (.ok 0)] = some (_, _) := rfl
  obtain ⟨zero, _, clean⟩ := returned_facts 3 true _ 5000 _ executed rfl
  exact ⟨_, _, executed, rfl, zero rfl (by decide), clean⟩

/-- **The kernel times out first.** With a timeout of five minutes, `SO_ERROR` is `ETIMEDOUT` before the
timer fires, and the call returns -1 with that `errno`. -/
theorem timed_out_unfired :
    ∃ final happened, trace step (new 3 true (some (FdCtx.new 3 (some true))) 300000)
        [.connect (-1) EINPROGRESS, .add true, .arm, .yield, .ready true true, .resume,
          .cancelTimer, .check, .getsockopt (.ok ETIMEDOUT)] = some (final, happened) ∧
      final.phase = .returned (-1) ∧ final.errno = ETIMEDOUT ∧ .expire ∉ happened :=
  ⟨_, _, rfl, rfl, rfl, by decide⟩

end Connect

end Wyze
