/-
**When the workers stop: `IOManager::stopping`.**

`stopping` reads the timers, then `m_pendingEvent`, then the queue and `m_activeThreadCount`, each under
a lock of its own or under none. `Shutdown` puts together the run loops, the fd events, the timers and
the idle loops of the workers, with each of the three reads as a step of its own; the caller of `stop`
makes them too.

* `Quiet`: no outstanding work of any kind.
* `Watched`: the same system beside a record of what has come after each read.
* `covered_step`: what a read has not seen is on that record.
* `stopping_quiet_iff`: **in a run, `stopping` returns true only in quiet states exactly when, at each
  of its last reads that lets it return true, nothing that came after the earlier reads is left, no
  worker is about to schedule a fiber again, and none is about to schedule collected callbacks**;
  `yield_outstanding` and `callback_outstanding` are runs in which the last two fail.
-/
import Wyze.IOManager.IdleLoop
import Wyze.Scheduler.Accounts

namespace Wyze

open Labelled

/-! ### The state -/

/-- Where an idle loop is, or the call of `stop`: before `stopping`; with no timer seen; with no event
counted either; about to call `epoll_wait`; back from it with its reports; with the expired callbacks
collected; treating the reports. -/
inductive Probe (γ : Type*) where
  | top
  | noTimers
  | noEvents
  | waiting
  | woken (reports : List (Nat × Reported))
  | collected (cbs : List γ) (reports : List (Nat × Reported))
  | delivering (reports : List (Nat × Reported))
deriving DecidableEq

namespace Probe

variable {γ : Type*}

/-- The read of the timers is over and found none. -/
def pastTimers : Probe γ → Bool
  | .noTimers | .noEvents => true
  | .top | .waiting | .woken _ | .collected .. | .delivering _ => false

/-- The callbacks that are collected and not yet scheduled. -/
def callbacks : Probe γ → List γ
  | .collected cbs _ => cbs
  | .top | .noTimers | .noEvents | .waiting | .woken _ | .delivering _ => []

end Probe

/-- The run loops, the fd events, the timers and the idle loops; `probes none` is the call of `stop`. -/
structure Shutdown (n : Nat) (φ γ : Type*) where
  sched : Scheduler n φ γ
  io : IOManager φ γ
  timers : TimerManager γ
  probes : Option (Fin n) → Probe γ

namespace Shutdown

variable {n : Nat} {φ γ : Type*}

def new (n now : Nat) : Shutdown n φ γ :=
  { sched := .new n, io := .new, timers := .new now, probes := fun _ => .top }

/-- The timer stands in the set. -/
def armed (state : Shutdown n φ γ) (addr : Addr) : Bool := decide (addr ∈ state.timers.timers)

/-- The event of the fd is registered. -/
def registered (state : Shutdown n φ γ) (fdEvent : Nat × Event) : Bool :=
  (state.io.context fdEvent.1).events.has fdEvent.2

/-- The worker has counted its fiber out and is going to schedule it again, as it is `READY`. -/
def handsOver (state : Shutdown n φ γ) (w : Fin n) : Bool :=
  match state.sched.workers w with
  | .released fiber => state.sched.hasState fiber .ready
  | .requeue _ => true
  | _ => false

/-- **No outstanding work.** -/
structure Quiet (state : Shutdown n φ γ) : Prop where
  queue : state.sched.queue = []
  tasks : ∀ w, (state.sched.workers w).holdsTask = false
  ready : ∀ w, state.handsOver w = false
  events : ∀ fdEvent, state.registered fdEvent = false
  timers : state.timers.timers = []
  callbacks : ∀ w, (state.probes (some w)).callbacks = []

/-! ### Steps -/

/-- The steps: of a run loop or of a thread that schedules; an fd section of any thread; an operation
on a timer by any thread; the three reads of `stopping`; the rest of the idle loop. -/
inductive Label (n : Nat) (φ γ : Type*) where
  | run (label : Scheduler.Label n φ γ)
  | event (label : IOManager.Label φ γ)
  | timer (call : TimerManager.Call γ)
  | getNextTimer (party : Option (Fin n)) (now : Nat)
  | pendingEvent (party : Option (Fin n))
  | stopping (party : Option (Fin n))
  | epollWait (w : Fin n) (reports : List (Nat × Reported))
  | listExpiredCb (w : Fin n) (now : Nat) (tmp : Addr)
  | schedule (w : Fin n)
  | deliver (w : Fin n) (ctlOk : Bool)
  | swapOut (w : Fin n)
deriving DecidableEq

/-- What a step shows: nothing, or the result of `stopping`. -/
inductive Shown where
  | silent
  | stopping (result : Bool)
deriving DecidableEq

/-- The steps of the run loops that are not those of the idle loop and of the events. -/
def ofRun : Scheduler.Label n φ γ → Bool
  | .addEvent .. | .triggerEvent _ | .leaveIdle .. => false
  | _ => true

/-- The operations on a timer that its users have. -/
def ofUser : TimerManager.Call γ → Bool
  | .getNextTimer _ | .listExpiredCb .. => false
  | .addTimer .. | .cancel _ | .refresh .. | .reset .. => true

/-- The party is in this place: the idle fiber runs, or `stop` has been called. -/
def isAt [DecidableEq γ] (state : Shutdown n φ γ) (party : Option (Fin n)) (place : Probe γ) : Bool :=
  decide (state.probes party = place) &&
    match party with
    | none => true
    | some w => match state.sched.workers w with
      | .idle => true
      | _ => false

def goto (state : Shutdown n φ γ) (party : Option (Fin n)) (place : Probe γ) : Shutdown n φ γ :=
  { state with probes := Function.update state.probes party place }

/-- `stopping` is false: the idle loop goes on, the call of `stop` may ask again. -/
def refused : Option (Fin n) → Probe γ
  | none => .top
  | some _ => .waiting

/-- `&&`: the next read, or the result. -/
def verdict (state : Shutdown n φ γ) (party : Option (Fin n)) (passes : Bool) (place : Probe γ) :
    Shutdown n φ γ × Shown :=
  if passes then (state.goto party place, .silent)
  else (state.goto party (refused party), .stopping false)

/-- The tasks join the queue. -/
def push (state : Shutdown n φ γ) (tasks : List (Task φ γ)) : Shutdown n φ γ :=
  { state with sched := state.sched.scheduleRange (tasks.map fun task => some ⟨task, none⟩) }

/-- The tasks that an fd section hands to the scheduler. -/
def handed : IOManager.Shown φ γ → List (Task φ γ)
  | .done _ scheduled _ => scheduled
  | .aborted _ => []

/-- An fd section. -/
def fdSection (state : Shutdown n φ γ) (label : IOManager.Label φ γ) : Option (Shutdown n φ γ) :=
  (state.io.step label).map fun next =>
    ({ state with io := next.1 } : Shutdown n φ γ).push (handed next.2)

section Steps

variable [DecidableEq φ] [DecidableEq γ]

/-- A step of the run loops. -/
def runStep (state : Shutdown n φ γ) (label : Scheduler.Label n φ γ) : Option (Shutdown n φ γ) :=
  (state.sched.step label).map fun next => { state with sched := next.1 }

/-- One step in a process that no assertion has stopped. -/
def move (state : Shutdown n φ γ) : Label n φ γ → Option (Shutdown n φ γ × Shown)
  | .run label => if ofRun label then (state.runStep label).map (·, .silent) else none
  | .event (.deliver ..) => none
  | .event label => (state.fdSection label).map (·, .silent)
  | .timer call =>
    if ofUser call then
      (state.timers.call call).map fun next => ({ state with timers := next.1 }, .silent)
    else none
  | .getNextTimer party now =>
    if state.isAt party .top then
      let (seen, timeout) := state.timers.getNextTimer now
      some (verdict { state with timers := seen } party (timeout = 2 ^ 64 - 1) .noTimers)
    else none
  | .pendingEvent party =>
    if state.isAt party .noTimers then
      some (state.verdict party (state.io.pendingEvent = 0) .noEvents)
    else none
  | .stopping party =>
    if state.isAt party .noEvents then
      if state.sched.stopping then
        match party with
        | none => some (state.goto none .top, .stopping true)
        | some w =>
          (state.runStep (.leaveIdle w true)).map fun next => (next.goto party .top, .stopping true)
      else some (state.goto party (refused party), .stopping false)
    else none
  | .epollWait w reports =>
    if state.isAt (some w) .waiting && reports.all (Idle.reportable state.io.registered) then
      some (state.goto (some w) (.woken reports), .silent)
    else none
  | .listExpiredCb w now tmp =>
    match state.probes (some w) with
    | .woken reports =>
      let (left, expired) := state.timers.listExpiredCb now tmp
      some (({ state with timers := left } : Shutdown n φ γ).goto (some w)
        (.collected (expired.filterMap Prod.snd) reports), .silent)
    | _ => none
  | .schedule w =>
    match state.probes (some w) with
    | .collected cbs reports =>
      some ((state.push (cbs.map .cb)).goto (some w) (.delivering reports), .silent)
    | _ => none
  | .deliver w ctlOk =>
    match state.probes (some w) with
    | .delivering (report :: reports) =>
      (state.fdSection (.deliver report.1 report.2 ctlOk)).map fun next =>
        (next.goto (some w) (.delivering reports), .silent)
    | _ => none
  | .swapOut w =>
    if state.isAt (some w) (.delivering []) then
      (state.runStep (.leaveIdle w false)).map fun next => (next.goto (some w) .top, .silent)
    else none

/-- One step. -/
def step (state : Shutdown n φ γ) (label : Label n φ γ) : Option (Shutdown n φ γ × Shown) :=
  if state.io.aborted.isSome then none else state.move label

/-- **When `stopping` returns true, nothing is outstanding.** -/
def StopsQuiet (state : Shutdown n φ γ) (label : Label n φ γ) : Prop :=
  ∀ next, state.step label = some (next, .stopping true) → state.Quiet

/-- The last of the three reads lets `stopping` return true. -/
def returnsTrue (state : Shutdown n φ γ) : Label n φ γ → Bool
  | .stopping party =>
    state.io.aborted.isNone && state.isAt party .noEvents && state.sched.stopping
  | _ => false

end Steps

/-! ### The record of what comes after a read -/

/-- What has come after a read: what had come before this step, and what this step brings. -/
def appeared {α : Type*} (before after since : α → Bool) (item : α) : Bool :=
  since item || (after item && !before item)

/-- **What a read has not seen has come since.** -/
theorem covered_appeared {α : Type*} {before after since : α → Bool}
    (covered : ∀ item, before item = true → since item = true) (item : α)
    (here : after item = true) : appeared before after since item = true := by
  rw [appeared, here, Bool.true_and]
  cases old : before item with
  | false => exact Bool.or_true _
  | true => rw [covered item old, Bool.true_or]

/-- The timers that a reading of the clock takes for none: the first is due in 2^64-1 ms. -/
def misread (state : Shutdown n φ γ) (now : Nat) (addr : Addr) : Bool :=
  state.timers.firstNext.any (fun next => next = now + (2 ^ 64 - 1)) && state.armed addr

/-- **A read of the timers that finds none** has taken those that there are for none. -/
theorem misread_of_timeout {state : Shutdown n φ γ} {now : Nat}
    (none : (state.timers.getNextTimer now).2 = 2 ^ 64 - 1) (addr : Addr)
    (armed : state.armed addr = true) : state.misread now addr = true := by
  have standing : addr ∈ state.timers.timers := of_decide_eq_true armed
  rw [misread, armed, Bool.and_true]
  cases first : state.timers.firstNext with
  | none =>
      rw [TimerManager.firstNext, Option.map_eq_none_iff, List.head?_eq_none_iff] at first
      rw [first] at standing
      cases standing
  | some next =>
      simp only [TimerManager.getNextTimer, first] at none
      split at none
      · cases none
      · have due : next = now + (2 ^ 64 - 1) := by omega
        exact decide_eq_true due

/-- The system, and for each party what its reads have not seen: timers and events that came later. -/
structure Watched (n : Nat) (φ γ : Type*) where
  state : Shutdown n φ γ
  unseen : Option (Fin n) → Addr → Bool
  unheard : Option (Fin n) → Nat × Event → Bool

namespace Watched

def new (n now : Nat) : Watched n φ γ :=
  { state := .new n now, unseen := fun _ _ => false, unheard := fun _ _ => false }

/-- The timers that have come since a party's read. -/
def unseenAfter (watched : Watched n φ γ) (label : Label n φ γ) (next : Shutdown n φ γ)
    (party : Option (Fin n)) : Addr → Bool :=
  appeared watched.state.armed next.armed
    (match label with
    | .getNextTimer reader now =>
      if reader = party then watched.state.misread now else watched.unseen party
    | _ => watched.unseen party)

/-- The events that have come since a party's read. -/
def unheardAfter (watched : Watched n φ γ) (label : Label n φ γ) (next : Shutdown n φ γ)
    (party : Option (Fin n)) : Nat × Event → Bool :=
  appeared watched.state.registered next.registered
    (match label with
    | .pendingEvent reader => if reader = party then fun _ => false else watched.unheard party
    | _ => watched.unheard party)

/-- A step, recorded. -/
def step [DecidableEq φ] [DecidableEq γ] (watched : Watched n φ γ) (label : Label n φ γ) :
    Option (Watched n φ γ × Shown) :=
  (watched.state.step label).map fun next =>
    ({ state := next.1
       unseen := watched.unseenAfter label next.1
       unheard := watched.unheardAfter label next.1 }, next.2)

/-- **The record changes nothing.** -/
theorem step_project [DecidableEq φ] [DecidableEq γ] (watched : Watched n φ γ)
    (label : Label n φ γ) :
    (watched.step label).map (fun next => (next.1.state, next.2)) = watched.state.step label := by
  rw [step, Option.map_map]
  cases watched.state.step label <;> rfl

/-- **Nothing is under way that the reads of a party have missed.** -/
structure Calm (watched : Watched n φ γ) (party : Option (Fin n)) : Prop where
  ready : ∀ w, watched.state.handsOver w = false
  callbacks : ∀ w, (watched.state.probes (some w)).callbacks = []
  timers : ∀ addr, watched.unseen party addr = true → watched.state.armed addr = false
  events : ∀ fdEvent, watched.unheard party fdEvent = true →
    watched.state.registered fdEvent = false

/-- The last read of a party lets `stopping` return true only when nothing is under way that its reads
have missed. -/
def Undisturbed [DecidableEq γ] (watched : Watched n φ γ) (label : Label n φ γ) : Prop :=
  match label with
  | .stopping party => watched.state.returnsTrue (.stopping party) = true → watched.Calm party
  | _ => True

end Watched

/-! ### What a step does to the parts -/

/-- The queue and the counters of the run loops are in order, and so is the fd table. -/
structure Sound (state : Shutdown n φ γ) : Prop where
  sched : ∃ outputs, state.sched.Valid outputs
  io : state.io.WellFormed

theorem new_sound (n now : Nat) : (new n now : Shutdown n φ γ).Sound :=
  ⟨⟨[], Scheduler.valid_new n⟩, IOManager.new_wellFormed⟩

theorem Sound.push {state : Shutdown n φ γ} (sound : state.Sound) (tasks : List (Task φ γ)) :
    (state.push tasks).Sound := by
  obtain ⟨outputs, valid⟩ := sound.sched
  exact ⟨⟨_, valid.pushing (tasks.map fun task => some ⟨task, none⟩)⟩, sound.io⟩

theorem Sound.goto {state : Shutdown n φ γ} (sound : state.Sound) (party : Option (Fin n))
    (place : Probe γ) : (state.goto party place).Sound :=
  ⟨sound.sched, sound.io⟩

theorem Sound.setTimers {state : Shutdown n φ γ} (sound : state.Sound) (timers : TimerManager γ) :
    ({ state with timers := timers } : Shutdown n φ γ).Sound :=
  ⟨sound.sched, sound.io⟩

theorem Sound.verdict {state : Shutdown n φ γ} (sound : state.Sound) (party : Option (Fin n))
    (passes : Bool) (place : Probe γ) : (state.verdict party passes place).1.Sound := by
  cases passes <;> exact sound.goto party _

theorem Sound.fdSection {state next : Shutdown n φ γ} (sound : state.Sound)
    {label : IOManager.Label φ γ} (stepped : state.fdSection label = some next) : next.Sound := by
  obtain ⟨reached, taken, rfl⟩ := Option.map_eq_some_iff.mp stepped
  have well := (IOManager.step_spec sound.io taken).1
  have moved : ({ state with io := reached.1 } : Shutdown n φ γ).Sound := ⟨sound.sched, well⟩
  exact moved.push _

section Steps

variable [DecidableEq φ] [DecidableEq γ] {state next : Shutdown n φ γ} {label : Label n φ γ}
  {shown : Shown}

theorem Sound.runStep (sound : state.Sound) {label : Scheduler.Label n φ γ}
    (stepped : state.runStep label = some next) : next.Sound := by
  obtain ⟨outputs, valid⟩ := sound.sched
  obtain ⟨reached, taken, rfl⟩ := Option.map_eq_some_iff.mp stepped
  exact ⟨⟨_, Scheduler.step_valid valid label taken⟩, sound.io⟩

theorem move_of_step (stepped : state.step label = some (next, shown)) :
    state.io.aborted = none ∧ state.move label = some (next, shown) := by
  rw [step] at stepped
  split at stepped
  · cases stepped
  · rename_i running
    exact ⟨Option.not_isSome_iff_eq_none.mp running, stepped⟩

/-- The label is one of the first two reads. -/
def reads : Label n φ γ → Bool
  | .getNextTimer .. | .pendingEvent _ => true
  | _ => false

/-- **What a step does**: the counters and the fd table stay in order, and a party has found no timer,
or no event, when it is its read that finds none in this step, or when it has before. -/
structure Effect (state next : Shutdown n φ γ) (label : Label n φ γ) : Prop where
  sound : state.Sound → next.Sound
  pastTimers : ∀ party, (next.probes party).pastTimers = true →
    (∃ now, label = .getNextTimer party now ∧ (state.timers.getNextTimer now).2 = 2 ^ 64 - 1) ∨
      ((state.probes party).pastTimers = true ∧ ∀ now, label ≠ .getNextTimer party now)
  pastEvents : ∀ party, next.probes party = .noEvents →
    (label = .pendingEvent party ∧ state.io.pendingEvent = 0) ∨
      (state.probes party = .noEvents ∧ label ≠ .pendingEvent party)

omit [DecidableEq φ] [DecidableEq γ] in
/-- A step that is no read takes no party past one. -/
theorem Effect.plain (sound : state.Sound → next.Sound) (other : reads label = false)
    (places : ∀ party, next.probes party = state.probes party ∨
      (next.probes party).pastTimers = false) : Effect state next label := by
  refine ⟨sound, fun party past => ?_, fun party past => ?_⟩
  · rcases places party with same | never
    · refine Or.inr ⟨same ▸ past, ?_⟩
      rintro now rfl
      cases other
    · rw [never] at past
      cases past
  · rcases places party with same | never
    · refine Or.inr ⟨same ▸ past, ?_⟩
      rintro rfl
      cases other
    · rw [past] at never
      cases never

omit [DecidableEq φ] [DecidableEq γ] in
/-- A move of one party, otherwise as in `Effect.plain`. -/
theorem Effect.goto {moved : Shutdown n φ γ} (sound : state.Sound → moved.Sound)
    (same : moved.probes = state.probes) (other : reads label = false) (party : Option (Fin n))
    {place : Probe γ} (never : place.pastTimers = false) :
    Effect state (moved.goto party place) label := by
  refine Effect.plain (fun before => (sound before).goto party place) other fun party' => ?_
  show Function.update moved.probes party place party' = _ ∨ _
  by_cases own : party' = party
  · subst own
    refine Or.inr ?_
    show (Function.update moved.probes party' place party').pastTimers = false
    rw [Function.update_self]
    exact never
  · rw [Function.update_of_ne own, same]
    exact Or.inl rfl

omit [DecidableEq φ] [DecidableEq γ] in
theorem refused_pastTimers (party : Option (Fin n)) :
    (refused party : Probe γ).pastTimers = false := by
  cases party <;> rfl

omit [DecidableEq φ] [DecidableEq γ] in
theorem probes_verdict (party : Option (Fin n)) (passes : Bool) (place : Probe γ) :
    (state.verdict party passes place).1.probes =
      Function.update state.probes party (if passes then place else refused party) := by
  cases passes <;> rfl

omit [DecidableEq φ] [DecidableEq γ] in
/-- The read of the timers. -/
theorem effect_getNextTimer (party : Option (Fin n)) (now : Nat) :
    Effect state (verdict { state with timers := (state.timers.getNextTimer now).1 } party
      ((state.timers.getNextTimer now).2 = 2 ^ 64 - 1) .noTimers).1 (.getNextTimer party now) := by
  refine ⟨fun sound => (sound.setTimers _).verdict party _ _, fun party' past => ?_,
    fun party' past => ?_⟩
  all_goals
    rw [probes_verdict] at past
    by_cases own : party' = party
  · subst own
    rw [Function.update_self] at past
    split at past
    · rename_i none
      exact Or.inl ⟨now, rfl, of_decide_eq_true none⟩
    · rw [refused_pastTimers] at past
      cases past
  · rw [Function.update_of_ne own] at past
    exact Or.inr ⟨past, fun now' same => own (by cases same; rfl)⟩
  · subst own
    rw [Function.update_self] at past
    split at past
    · cases past
    · cases party' <;> cases past
  · rw [Function.update_of_ne own] at past
    exact Or.inr ⟨past, nofun⟩

omit [DecidableEq φ] [DecidableEq γ] in
/-- The read of `m_pendingEvent`. -/
theorem effect_pendingEvent {party : Option (Fin n)} (here : state.probes party = .noTimers) :
    Effect state (state.verdict party (state.io.pendingEvent = 0) .noEvents).1
      (.pendingEvent party) := by
  refine ⟨fun sound => sound.verdict party _ _, fun party' past => ?_, fun party' past => ?_⟩
  all_goals
    rw [probes_verdict] at past
    by_cases own : party' = party
  · subst own
    exact Or.inr ⟨by rw [here]; rfl, nofun⟩
  · rw [Function.update_of_ne own] at past
    exact Or.inr ⟨past, nofun⟩
  · subst own
    rw [Function.update_self] at past
    split at past
    · rename_i none
      exact Or.inl ⟨rfl, of_decide_eq_true none⟩
    · cases party' <;> cases past
  · rw [Function.update_of_ne own] at past
    exact Or.inr ⟨past, fun same => own (by cases same; rfl)⟩

omit [DecidableEq φ] in
theorem isAt_place {party : Option (Fin n)} {place : Probe γ}
    (here : state.isAt party place = true) : state.probes party = place := by
  unfold isAt at here
  rw [Bool.and_eq_true] at here
  exact of_decide_eq_true here.1

theorem runStep_probes {label : Scheduler.Label n φ γ} (stepped : state.runStep label = some next) :
    next.probes = state.probes := by
  obtain ⟨reached, _, rfl⟩ := Option.map_eq_some_iff.mp stepped
  rfl

omit [DecidableEq φ] [DecidableEq γ] in
theorem fdSection_probes {label : IOManager.Label φ γ}
    (stepped : state.fdSection label = some next) : next.probes = state.probes := by
  obtain ⟨reached, _, rfl⟩ := Option.map_eq_some_iff.mp stepped
  rfl

/-- **Every step has such an effect.** -/
theorem effect_step (stepped : state.step label = some (next, shown)) : Effect state next label := by
  obtain ⟨_, moved⟩ := move_of_step stepped
  cases label with
  | run label =>
      simp only [move] at moved
      split at moved
      · obtain ⟨reached, taken, same⟩ := Option.map_eq_some_iff.mp moved
        cases same
        exact Effect.plain (fun sound => sound.runStep taken) rfl fun party =>
          Or.inl (congrFun (runStep_probes taken) party)
      · cases moved
  | event label =>
      have taken : state.fdSection label = some next := by
        cases label with
        | deliver fd reported ctlOk => cases moved
        | _ =>
            obtain ⟨reached, taken, same⟩ := Option.map_eq_some_iff.mp moved
            cases same
            exact taken
      exact Effect.plain (fun sound => sound.fdSection taken) rfl fun party =>
        Or.inl (congrFun (fdSection_probes taken) party)
  | timer call =>
      simp only [move] at moved
      split at moved
      · obtain ⟨reached, taken, same⟩ := Option.map_eq_some_iff.mp moved
        cases same
        exact Effect.plain (fun sound => sound.setTimers _) rfl fun _ => Or.inl rfl
      · cases moved
  | getNextTimer party now =>
      simp only [move] at moved
      split at moved
      · obtain rfl : _ = next := congrArg Prod.fst (Option.some.inj moved)
        exact effect_getNextTimer party now
      · cases moved
  | pendingEvent party =>
      simp only [move] at moved
      split at moved
      · rename_i here
        obtain rfl : _ = next := congrArg Prod.fst (Option.some.inj moved)
        exact effect_pendingEvent (isAt_place here)
      · cases moved
  | stopping party =>
      simp only [move] at moved
      split at moved
      · split at moved
        · cases party with
          | none =>
              cases moved
              exact Effect.goto id rfl rfl none rfl
          | some w =>
              obtain ⟨reached, taken, same⟩ := Option.map_eq_some_iff.mp moved
              cases same
              exact Effect.goto (fun sound => sound.runStep taken) (runStep_probes taken) rfl
                (some w) rfl
        · cases moved
          exact Effect.goto id rfl rfl party (refused_pastTimers party)
      · cases moved
  | epollWait w reports =>
      simp only [move] at moved
      split at moved
      · cases moved
        exact Effect.goto id rfl rfl (some w) rfl
      · cases moved
  | listExpiredCb w now tmp =>
      simp only [move] at moved
      split at moved
      · cases moved
        exact Effect.goto (fun sound => sound.setTimers _) rfl rfl (some w) rfl
      · cases moved
  | schedule w =>
      simp only [move] at moved
      split at moved
      · cases moved
        exact Effect.goto (fun sound => sound.push _) rfl rfl (some w) rfl
      · cases moved
  | deliver w ctlOk =>
      simp only [move] at moved
      split at moved
      · obtain ⟨reached, taken, same⟩ := Option.map_eq_some_iff.mp moved
        cases same
        exact Effect.goto (fun sound => sound.fdSection taken) (fdSection_probes taken) rfl
          (some w) rfl
      · cases moved
  | swapOut w =>
      simp only [move] at moved
      split at moved
      · obtain ⟨reached, taken, same⟩ := Option.map_eq_some_iff.mp moved
        cases same
        exact Effect.goto (fun sound => sound.runStep taken) (runStep_probes taken) rfl (some w) rfl
      · cases moved

/-! ### The reads and the record -/

theorem has_of_count {events : Events} (none : events.count = 0) (event : Event) :
    events.has event = false := by
  obtain ⟨read, write⟩ := events
  have sum : read.toNat + write.toNat = 0 := none
  cases event with
  | read =>
      cases read with
      | false => rfl
      | true => simp at sum
  | write =>
      cases write with
      | false => rfl
      | true => simp at sum

omit [DecidableEq φ] [DecidableEq γ] in
theorem bits_nonneg (table : List (FdContext φ γ)) : 0 ≤ IOManager.bits table := by
  induction table with
  | nil => exact le_refl _
  | cons ctx table ih => exact Int.add_nonneg (Int.natCast_nonneg _) ih

omit [DecidableEq φ] [DecidableEq γ] in
theorem count_of_bits {table : List (FdContext φ γ)} (none : IOManager.bits table = 0) :
    ∀ ctx ∈ table, ctx.events.count = 0 := by
  induction table with
  | nil => exact nofun
  | cons first table ih =>
      have rest := bits_nonneg table
      have sum : (first.events.count : Int) + IOManager.bits table = 0 := none
      exact List.forall_mem_cons.mpr ⟨by omega, ih (by omega)⟩

omit [DecidableEq φ] [DecidableEq γ] in
/-- Without pending events none is registered. -/
theorem registered_of_pending (well : state.io.WellFormed) (none : state.io.pendingEvent = 0)
    (fdEvent : Nat × Event) : state.registered fdEvent = false := by
  refine has_of_count ?_ fdEvent.2
  rw [IOManager.context]
  cases found : state.io.fdContexts[fdEvent.1]? with
  | none => rfl
  | some ctx => exact count_of_bits (well.pending_eq ▸ none) ctx (List.mem_of_getElem? found)

/-- **What a party's reads have not seen is on the record.** -/
structure Covered (watched : Watched n φ γ) : Prop where
  sound : watched.state.Sound
  unseen : ∀ party, (watched.state.probes party).pastTimers = true →
    ∀ addr, watched.state.armed addr = true → watched.unseen party addr = true
  unheard : ∀ party, watched.state.probes party = .noEvents →
    ∀ fdEvent, watched.state.registered fdEvent = true → watched.unheard party fdEvent = true

omit [DecidableEq φ] [DecidableEq γ] in
theorem covered_new (n now : Nat) : Covered (Watched.new n now : Watched n φ γ) :=
  ⟨new_sound n now, nofun, nofun⟩

/-- **Every step keeps the record complete.** -/
theorem covered_step {watched : Watched n φ γ} (covered : Covered watched)
    {next : Watched n φ γ × Shown} (stepped : watched.step label = some next) :
    Covered next.1 := by
  obtain ⟨⟨reached, shown⟩, taken, rfl⟩ := Option.map_eq_some_iff.mp stepped
  have effect := effect_step taken
  refine ⟨effect.sound covered.sound, fun party past => ?_, fun party past => ?_⟩
  · refine covered_appeared fun addr before => ?_
    rcases effect.pastTimers party past with ⟨now, rfl, none⟩ | ⟨earlier, other⟩
    · show (if party = party then watched.state.misread now else _) addr = true
      rw [if_pos rfl]
      exact misread_of_timeout none addr before
    · have kept := covered.unseen party earlier addr before
      cases label with
      | getNextTimer reader now =>
          have apart : reader ≠ party := fun same => other now (same ▸ rfl)
          show (if reader = party then _ else watched.unseen party) addr = true
          rw [if_neg apart]
          exact kept
      | _ => exact kept
  · refine covered_appeared fun fdEvent before => ?_
    rcases effect.pastEvents party past with ⟨rfl, none⟩ | ⟨earlier, other⟩
    · rw [registered_of_pending covered.sound.io none] at before
      cases before
    · have kept := covered.unheard party earlier fdEvent before
      cases label with
      | pendingEvent reader =>
          have apart : reader ≠ party := fun same => other (same ▸ rfl)
          show (if reader = party then _ else watched.unheard party) fdEvent = true
          rw [if_neg apart]
          exact kept
      | _ => exact kept

omit [DecidableEq φ] in
theorem isAt_worker {w : Fin n} {place : Probe γ} (here : state.isAt (some w) place = true) :
    state.sched.workers w = .idle := by
  unfold isAt at here
  rw [Bool.and_eq_true] at here
  have idle := here.2
  split at idle
  · rename_i none
    cases none
  · rename_i own
    cases own
    split at idle
    · assumption
    · cases idle

omit [DecidableEq φ] [DecidableEq γ] in
theorem verdict_ne_stopping (party : Option (Fin n)) (passes : Bool) (place : Probe γ) :
    (state.verdict party passes place).2 ≠ .stopping true := by
  cases passes <;> nofun

/-- Only the last read lets `stopping` return true. -/
theorem returnsTrue_of_step (stepped : state.step label = some (next, .stopping true)) :
    state.returnsTrue label = true := by
  obtain ⟨running, moved⟩ := move_of_step stepped
  cases label with
  | stopping party =>
      simp only [move] at moved
      split at moved
      · rename_i here
        split at moved
        · rename_i stops
          simp only [returnsTrue, running, here, stops, Option.isNone_none, Bool.and_self]
        · cases moved
      · cases moved
  | getNextTimer party now =>
      simp only [move] at moved
      split at moved
      · exact absurd (congrArg Prod.snd (Option.some.inj moved)) (verdict_ne_stopping _ _ _)
      · cases moved
  | pendingEvent party =>
      simp only [move] at moved
      split at moved
      · exact absurd (congrArg Prod.snd (Option.some.inj moved)) (verdict_ne_stopping _ _ _)
      · cases moved
  | event label =>
      cases label with
      | deliver fd reported ctlOk => cases moved
      | _ =>
          obtain ⟨_, _, same⟩ := Option.map_eq_some_iff.mp moved
          cases same
  | run label | timer call =>
      simp only [move] at moved
      split at moved
      · obtain ⟨_, _, same⟩ := Option.map_eq_some_iff.mp moved
        cases same
      · cases moved
  | deliver w ctlOk | swapOut w =>
      simp only [move] at moved
      split at moved
      · obtain ⟨_, _, same⟩ := Option.map_eq_some_iff.mp moved
        cases same
      · cases moved
  | epollWait w reports | listExpiredCb w now tmp | schedule w =>
      simp only [move] at moved
      split at moved
      · cases moved
      · cases moved

/-- The last read is made. -/
theorem step_of_returnsTrue {party : Option (Fin n)}
    (returns : state.returnsTrue (.stopping party) = true) :
    ∃ next, state.step (.stopping party) = some (next, .stopping true) := by
  simp only [returnsTrue, Bool.and_eq_true, Option.isNone_iff_eq_none] at returns
  obtain ⟨⟨running, here⟩, stops⟩ := returns
  rw [step, running, if_neg (by simp)]
  simp only [move]
  rw [if_pos here, if_pos stops]
  cases party with
  | none => exact ⟨_, rfl⟩
  | some w =>
      have idle := isAt_worker here
      have leaves : ∃ left, state.sched.step (.leaveIdle w true) = some left := by
        show ∃ left, state.sched.workerStep (.leaveIdle w true) (state.sched.workers w) = some left
        rw [idle]
        simp only [Scheduler.workerStep, stops, if_true]
        exact ⟨_, rfl⟩
      obtain ⟨left, taken⟩ := leaves
      refine ⟨({ state with sched := left.1 } : Shutdown n φ γ).goto (some w) .top, ?_⟩
      simp only [runStep, taken, Option.map_some]

/-! ### The result -/

omit [DecidableEq φ] [DecidableEq γ] in
/-- Where the last read lets `stopping` return true, what is outstanding is what the reads have
missed. -/
theorem quiet_iff_calm {watched : Watched n φ γ} (covered : Covered watched)
    {party : Option (Fin n)} (here : watched.state.probes party = .noEvents)
    (stops : watched.state.sched.stopping = true) : watched.state.Quiet ↔ watched.Calm party := by
  constructor
  · intro quiet
    refine ⟨quiet.ready, quiet.callbacks, fun addr _ => ?_, fun fdEvent _ => quiet.events fdEvent⟩
    rw [armed, quiet.timers]
    exact decide_eq_false List.not_mem_nil
  · intro calm
    simp only [Scheduler.stopping, Bool.and_eq_true, List.isEmpty_iff, beq_iff_eq] at stops
    obtain ⟨⟨_, queue⟩, active⟩ := stops
    obtain ⟨outputs, valid⟩ := covered.sound.sched
    refine ⟨queue, fun w => ?_, calm.ready, fun fdEvent => ?_, ?_, calm.callbacks⟩
    · by_contra held
      have positive := valid.counted.active_pos (w := w) (by simpa using held)
      omega
    · by_contra held
      have here : watched.state.registered fdEvent = true := by simpa using held
      exact held (calm.events fdEvent (covered.unheard party ‹_› fdEvent here))
    · rw [List.eq_nil_iff_forall_not_mem]
      intro addr mem
      have isArmed : watched.state.armed addr = true := decide_eq_true mem
      have past : (watched.state.probes party).pastTimers = true := by rw [here]; rfl
      rw [calm.timers addr (covered.unseen party past addr isArmed)] at isArmed
      cases isArmed

/-- **One step** is as wanted exactly when it is undisturbed. -/
theorem stopsQuiet_iff {watched : Watched n φ γ} (covered : Covered watched) :
    watched.state.StopsQuiet label ↔ watched.Undisturbed label := by
  cases label with
  | stopping party =>
      have same : watched.state.returnsTrue (.stopping party) = true →
          (watched.state.Quiet ↔ watched.Calm party) := by
        intro returns
        simp only [returnsTrue, Bool.and_eq_true] at returns
        exact quiet_iff_calm covered (isAt_place returns.1.2) returns.2
      constructor
      · intro quiet returns
        obtain ⟨next, stepped⟩ := step_of_returnsTrue returns
        exact (same returns).mp (quiet next stepped)
      · intro calm next stepped
        have returns := returnsTrue_of_step stepped
        exact (same returns).mpr (calm returns)
  | _ =>
      refine iff_of_true (fun next stepped => ?_) trivial
      cases returnsTrue_of_step stepped

/-- **`stopping` returns true only in quiet states exactly when its last reads are undisturbed.** -/
theorem stopping_quiet_iff (start : Nat) (labels : List (Label n φ γ)) :
    Meets step StopsQuiet (new n start) labels ↔
      Meets Watched.step Watched.Undisturbed (Watched.new n start) labels := by
  have projected : Meets Watched.step (fun watched => watched.state.StopsQuiet)
      (Watched.new n start : Watched n φ γ) labels ↔ Meets step StopsQuiet (new n start) labels :=
    meets_project Watched.state Watched.step_project labels
  refine projected.symm.trans ?_
  have keeps : ∀ (watched : Watched n φ γ) label next, Covered watched →
      watched.step label = some next → Covered next.1 :=
    fun _ _ _ covered stepped => covered_step covered stepped
  exact meets_congr keeps (fun _ _ covered => stopsQuiet_iff covered) labels (covered_new n start)

end Steps

/-- A callback yields `READY`; its worker has counted it out when the other worker makes its last
read. -/
def yieldRun : List (Label 2 Unit Unit) :=
  [.run (.schedule (some (.cb ())) none), .run (.scan 0), .run (.create 0 ()), .run (.swapIn 0),
    .run (.setExec 0), .run (.switch 0), .run .stop, .run (.yield 0 true), .run (.swapOut 0),
    .run (.scan 1), .run (.enterIdle 1), .getNextTimer (some 1) 1, .pendingEvent (some 1),
    .run (.release 0)]

/-- **A fiber that will be scheduled again** does not keep the other worker from stopping. -/
theorem yield_outstanding : ∃ state outputs next,
    trace step (new 2 0) yieldRun = some (state, outputs) ∧
      state.step (.stopping (some 1)) = some (next, .stopping true) ∧ ¬ state.Quiet := by
  refine ⟨_, _, _, rfl, rfl, fun quiet => ?_⟩
  exact absurd (quiet.ready 0) (by decide)

/-- A timer expires; a worker has collected its callback when the other worker makes its reads. -/
def callbackRun : List (Label 2 Unit Unit) :=
  [.timer (.addTimer 10 () false 1 1), .run .stop, .run (.scan 0), .run (.enterIdle 0),
    .getNextTimer (some 0) 1, .epollWait 0 [], .listExpiredCb 0 20 2, .run (.scan 1),
    .run (.enterIdle 1), .getNextTimer (some 1) 20, .pendingEvent (some 1)]

/-- **A collected callback** does not keep the other worker from stopping either. -/
theorem callback_outstanding : ∃ state outputs next,
    trace step (new 2 0) callbackRun = some (state, outputs) ∧
      state.step (.stopping (some 1)) = some (next, .stopping true) ∧ ¬ state.Quiet := by
  refine ⟨_, _, _, rfl, rfl, fun quiet => ?_⟩
  exact absurd (quiet.callbacks 0) (by decide)

end Shutdown

end Wyze
