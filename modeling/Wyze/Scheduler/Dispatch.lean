/-
**The run loop of `Scheduler` and the switches of `Fiber`.**

`m_fibers` is a queue of numbered entries: each push gives its entry the next number, so that a task
can be followed from `schedule` to the worker that gets it. A worker is in one phase of the body of
`run`; the critical section of the scan, each access to a fiber's `m_state` outside it, each change of
a counter and each switch of contexts is a step of its own. What the task fibers and the threads
around the pool do (schedule, register events, yield, end) is the choice of the label.

The idle fiber is known to its own worker only and is the phase `idle`; tickles, which touch nothing
that is kept here, are left out.
-/
import Mathlib.Data.List.ReduceOption
import Wyze.Lib.Parties
import Wyze.Scheduler.Basic

namespace Wyze

/-! ### Fibers -/

/-- `Fiber::State`. -/
inductive FiberState where
  | init
  | hold
  | ready
  | exec
  | term
  | except
deriving DecidableEq

/-- `TERM` or `EXCEPT`. -/
def FiberState.ended : FiberState → Bool
  | .term | .except => true
  | .init | .hold | .ready | .exec => false

/-- A fiber: `m_state`, and whether `m_context` is where the fiber is to go on. It is after
`makecontext` and once `swapOut` has saved it, until the next switch to the fiber. -/
structure Fiber where
  state : FiberState
  saved : Bool
deriving DecidableEq

namespace Scheduler

/-! ### The state -/

/-- An entry of `m_fibers` and the number of its push. -/
structure Entry (φ γ : Type*) where
  id : Nat
  ft : FiberAndThread φ γ
deriving DecidableEq

/-- The phases of a worker in the body of `run`: before the scan; with a task taken; at the head of
`swapIn`; past its assertion; with `m_state = EXEC` written; on the fiber's stack; there with `m_state`
changed by a yield or the end of the fiber; back from `swapIn`; with the counter decremented; about to
schedule the fiber again; with a task that is dropped; without a task; in the idle fiber; back from it;
past the loop. -/
inductive Worker (φ γ : Type*) where
  | top
  | taken (task : Task φ γ)
  | entering (fiber : φ)
  | asserted (fiber : φ)
  | marked (fiber : φ)
  | executing (fiber : φ)
  | leaving (fiber : φ)
  | back (fiber : φ)
  | released (fiber : φ)
  | requeue (fiber : φ)
  | dead
  | noTask
  | idle
  | idled
  | done
deriving DecidableEq

namespace Worker

variable {φ γ : Type*}

/-- The worker holds a task that it took from `m_fibers` and has not finished. -/
def holdsTask : Worker φ γ → Bool
  | .taken _ | .entering _ | .asserted _ | .marked _ | .executing _ | .leaving _ | .back _ | .dead =>
    true
  | .top | .released _ | .requeue _ | .noTask | .idle | .idled | .done => false

/-- The worker is in its idle fiber. -/
def isIdle : Worker φ γ → Bool
  | .idle | .idled => true
  | _ => false

end Worker

end Scheduler

/-- The shared state: `active` and `idle` are `m_activeThreadCount` and `m_idleThreadCount`, `waiting`
holds the tasks of the registered events, `idleEnded` tells whose idle fiber is in state `TERM`. -/
structure Scheduler (n : Nat) (φ γ : Type*) where
  workers : Fin n → Scheduler.Worker φ γ
  fibers : φ → Option Fiber
  queue : List (Scheduler.Entry φ γ)
  nextId : Nat
  active : Nat
  idle : Nat
  idleEnded : Fin n → Bool
  waiting : List (Task φ γ)
  autoStop : Bool
  stopped : Bool

namespace Scheduler

variable {n : Nat} {φ γ : Type*}

def new (n : Nat) : Scheduler n φ γ :=
  { workers := fun _ => .top, fibers := fun _ => none, queue := [], nextId := 0, active := 0,
    idle := 0, idleEnded := fun _ => false, waiting := [], autoStop := false, stopped := false }

/-- `--` of a `size_t`. -/
def decrement (count : Nat) : Nat := if count = 0 then 2 ^ 64 - 1 else count - 1

/-- `Scheduler::stopping`. -/
def stopping (sched : Scheduler n φ γ) : Bool :=
  sched.autoStop && sched.stopped && sched.queue.isEmpty && sched.active == 0

/-- The fiber that a task names has been created. -/
def known (sched : Scheduler n φ γ) : Task φ γ → Bool
  | .fiber fiber => (sched.fibers fiber).isSome
  | .cb _ => true

/-- `getState() == state` for a fiber. -/
def hasState (sched : Scheduler n φ γ) (fiber : φ) (state : FiberState) : Bool :=
  (sched.fibers fiber).any fun object => object.state = state

/-- The state of a fiber is `TERM` or `EXCEPT`. -/
def ended (sched : Scheduler n φ γ) (fiber : φ) : Bool :=
  (sched.fibers fiber).any fun object => object.state.ended

/-- The task is a fiber in state `EXEC`. -/
def isExec (sched : Scheduler n φ γ) : Task φ γ → Bool
  | .fiber fiber => sched.hasState fiber .exec
  | .cb _ => false

/-! ### `schedule` -/

/-- `scheduleNolock`: an object that is null is not queued. -/
def scheduleNolock (sched : Scheduler n φ γ) : Option (FiberAndThread φ γ) → Scheduler n φ γ
  | none => sched
  | some ft =>
    { sched with queue := sched.queue ++ [⟨sched.nextId, ft⟩], nextId := sched.nextId + 1 }

/-- The loop of `schedule` over a range. -/
def scheduleRange (sched : Scheduler n φ γ) (fts : List (Option (FiberAndThread φ γ))) :
    Scheduler n φ γ :=
  fts.foldl scheduleNolock sched

/-! ### The scan -/

/-- The scan of `run` over `m_fibers`: the entry that is taken and the queue without it. -/
def scanFibers (exec : Task φ γ → Bool) (self : Nat) :
    List (Entry φ γ) → Option (Entry φ γ × List (Entry φ γ))
  | [] => none
  | entry :: rest =>
    if entry.ft.thread ≠ none ∧ entry.ft.thread ≠ some self then
      (scanFibers exec self rest).map fun (found, left) => (found, entry :: left)
    else if exec entry.ft.task then
      (scanFibers exec self rest).map fun (found, left) => (found, entry :: left)
    else some (entry, rest)

/-- The worker may run the entry: it is not pinned to another thread, and no fiber in state `EXEC`. -/
def mayRun (sched : Scheduler n φ γ) (w : Fin n) (entry : Entry φ γ) : Bool :=
  (entry.ft.thread = none || entry.ft.thread = some w.val) && !sched.isExec entry.ft.task

/-! ### Steps -/

inductive Label (n : Nat) (φ γ : Type*) where
  | newFiber (fiber : φ)
  | schedule (task : Option (Task φ γ)) (thread : Option Nat)
  | scheduleRange (tasks : List (Option (Task φ γ)))
  | triggerEvent (task : Task φ γ)
  | stop
  | scan (w : Fin n)
  | check (w : Fin n)
  | create (w : Fin n) (fiber : φ)
  | swapIn (w : Fin n)
  | setExec (w : Fin n)
  | switch (w : Fin n)
  | addEvent (w : Fin n) (cb : Option γ)
  | yield (w : Fin n) (ready : Bool)
  | finish (w : Fin n) (thrown : Bool)
  | swapOut (w : Fin n)
  | release (w : Fin n)
  | getState (w : Fin n)
  | requeue (w : Fin n)
  | enterIdle (w : Fin n)
  | leaveIdle (w : Fin n) (ends : Bool)
  | afterIdle (w : Fin n)
deriving DecidableEq

/-- What a step shows: nothing, the entries pushed, the entry that a worker takes, or a switch to a
fiber and whether its context was saved. -/
inductive Output (n : Nat) (φ : Type*) where
  | silent
  | pushed (ids : List Nat)
  | took (w : Fin n) (id : Nat)
  | switched (w : Fin n) (fiber : φ) (saved : Bool)
deriving DecidableEq

/-- Put a worker into a phase. -/
def goto (sched : Scheduler n φ γ) (w : Fin n) (phase : Worker φ γ) : Scheduler n φ γ :=
  { sched with workers := Function.update sched.workers w phase }

/-- The push of some objects, showing the numbers of those that are queued. -/
def pushing (sched : Scheduler n φ γ) (fts : List (Option (FiberAndThread φ γ))) :
    Scheduler n φ γ × Output n φ :=
  (sched.scheduleRange fts, .pushed (List.range' sched.nextId fts.reduceOption.length))

variable [DecidableEq φ]

/-- Write a fiber's `m_state`. -/
def setState (sched : Scheduler n φ γ) (fiber : φ) (state : FiberState) : Scheduler n φ γ :=
  { sched with
    fibers := Function.update sched.fibers fiber
      ((sched.fibers fiber).map fun object => { object with state := state }) }

/-- A fiber's context is saved, or left behind by a switch to the fiber. -/
def setSaved (sched : Scheduler n φ γ) (fiber : φ) (saved : Bool) : Scheduler n φ γ :=
  { sched with
    fibers := Function.update sched.fibers fiber
      ((sched.fibers fiber).map fun object => { object with saved := saved }) }

/-- A new `Fiber`, in state `INIT` and with a context of its own. -/
def addFiber (sched : Scheduler n φ γ) (fiber : φ) : Scheduler n φ γ :=
  { sched with fibers := Function.update sched.fibers fiber (some { state := .init, saved := true }) }

variable [DecidableEq γ]

/-- A step of a thread that needs no worker. -/
def callerStep (sched : Scheduler n φ γ) : Label n φ γ → Option (Scheduler n φ γ × Output n φ)
  | .newFiber fiber =>
    if (sched.fibers fiber).isSome then none else some (sched.addFiber fiber, .silent)
  | .schedule task thread =>
    if task.all sched.known then some (sched.pushing [task.map (⟨·, thread⟩)]) else none
  | .scheduleRange tasks =>
    if tasks.all (Option.all sched.known) then
      some (sched.pushing (tasks.map (Option.map (⟨·, none⟩))))
    else none
  | .triggerEvent task =>
    if task ∈ sched.waiting then
      some ({ sched with waiting := sched.waiting.erase task }.pushing [some ⟨task, none⟩])
    else none
  | .stop => some ({ sched with autoStop := true, stopped := true }, .silent)
  | _ => none

/-- A worker's step in its current phase. An assertion that fails stops the process: no step. -/
def workerStep (sched : Scheduler n φ γ) :
    Label n φ γ → Worker φ γ → Option (Scheduler n φ γ × Output n φ)
  | .scan w, .top =>
    match scanFibers sched.isExec w sched.queue with
    | none => some (sched.goto w .noTask, .silent)
    | some (entry, left) =>
      some ({ sched with queue := left, active := sched.active + 1 }.goto w (.taken entry.ft.task),
        .took w entry.id)
  | .check w, .taken (.fiber fiber) =>
    some (sched.goto w (if sched.ended fiber then .dead else .entering fiber), .silent)
  | .create w fiber, .taken (.cb _) =>
    if (sched.fibers fiber).isSome then none
    else some ((sched.addFiber fiber).goto w (.entering fiber), .silent)
  | .swapIn w, .entering fiber =>
    if sched.hasState fiber .exec then none
    else some (sched.goto w (if sched.ended fiber then .back fiber else .asserted fiber), .silent)
  | .setExec w, .asserted fiber => some ((sched.setState fiber .exec).goto w (.marked fiber), .silent)
  | .switch w, .marked fiber =>
    some ((sched.setSaved fiber false).goto w (.executing fiber),
      .switched w fiber ((sched.fibers fiber).any Fiber.saved))
  | .addEvent _ cb, .executing fiber =>
    some ({ sched with waiting := (cb.elim (.fiber fiber) .cb) :: sched.waiting }, .silent)
  | .yield w ready, .executing fiber =>
    some ((sched.setState fiber (if ready then .ready else .hold)).goto w (.leaving fiber), .silent)
  | .finish w thrown, .executing fiber =>
    some ((sched.setState fiber (if thrown then .except else .term)).goto w (.leaving fiber), .silent)
  | .swapOut w, .leaving fiber => some ((sched.setSaved fiber true).goto w (.back fiber), .silent)
  | .release w, .back fiber =>
    some ({ sched with active := decrement sched.active }.goto w (.released fiber), .silent)
  | .release w, .dead =>
    some ({ sched with active := decrement sched.active }.goto w .top, .silent)
  | .getState w, .released fiber =>
    some (sched.goto w (if sched.hasState fiber .ready then .requeue fiber else .top), .silent)
  | .requeue w, .requeue fiber => some ((sched.goto w .top).pushing [some ⟨.fiber fiber, none⟩])
  | .enterIdle w, .noTask =>
    if sched.idleEnded w then some (sched.goto w .done, .silent)
    else some ({ sched with idle := sched.idle + 1 }.goto w .idle, .silent)
  | .leaveIdle w ends, .idle =>
    if ends then
      if sched.stopping then
        some ({ sched with idleEnded := Function.update sched.idleEnded w true }.goto w .idled, .silent)
      else none
    else some (sched.goto w .idled, .silent)
  | .afterIdle w, .idled =>
    some ({ sched with idle := decrement sched.idle }.goto w .top, .silent)
  | _, _ => none

/-- The worker whose step it is. -/
def Label.worker : Label n φ γ → Option (Fin n)
  | .newFiber _ | .schedule .. | .scheduleRange _ | .triggerEvent _ | .stop => none
  | .scan w | .check w | .create w _ | .swapIn w | .setExec w | .switch w | .addEvent w _ | .yield w _
  | .finish w _ | .swapOut w | .release w | .getState w | .requeue w | .enterIdle w | .leaveIdle w _
  | .afterIdle w => some w

/-- One step of the scheduler. -/
def step (sched : Scheduler n φ γ) (label : Label n φ γ) : Option (Scheduler n φ γ × Output n φ) :=
  match label.worker with
  | none => sched.callerStep label
  | some w => sched.workerStep label (sched.workers w)

/-! ### The steps, one by one -/

/-- What a thread that needs no worker does, and what it finds. -/
inductive CallerStep (sched : Scheduler n φ γ) : Label n φ γ → Scheduler n φ γ × Output n φ → Prop
  | newFiber {fiber : φ} (absent : sched.fibers fiber = none) :
      CallerStep sched (.newFiber fiber) (sched.addFiber fiber, .silent)
  | schedule {task : Option (Task φ γ)} {thread : Option Nat}
      (known : ∀ task' ∈ task, sched.known task' = true) :
      CallerStep sched (.schedule task thread) (sched.pushing [task.map (⟨·, thread⟩)])
  | scheduleRange {tasks : List (Option (Task φ γ))}
      (known : ∀ task, some task ∈ tasks → sched.known task = true) :
      CallerStep sched (.scheduleRange tasks) (sched.pushing (tasks.map (Option.map (⟨·, none⟩))))
  | triggerEvent {task : Task φ γ} (waits : task ∈ sched.waiting) :
      CallerStep sched (.triggerEvent task)
        ({ sched with waiting := sched.waiting.erase task }.pushing [some ⟨task, none⟩])
  | stop : CallerStep sched .stop ({ sched with autoStop := true, stopped := true }, .silent)

theorem callerStep_cases {sched : Scheduler n φ γ} {label : Label n φ γ}
    {next : Scheduler n φ γ × Output n φ} (stepped : sched.callerStep label = some next) :
    CallerStep sched label next := by
  unfold callerStep at stepped
  split at stepped
  · split at stepped
    · cases stepped
    · rename_i absent
      cases stepped
      exact .newFiber (Option.not_isSome_iff_eq_none.mp absent)
  · split at stepped
    · rename_i known
      cases stepped
      exact .schedule ((Option.all_eq_true ..).mp known)
    · cases stepped
  · split at stepped
    · rename_i known
      cases stepped
      exact .scheduleRange fun task mem => List.all_eq_true.mp known _ mem
    · cases stepped
  · split at stepped
    · rename_i waits
      cases stepped
      exact .triggerEvent waits
    · cases stepped
  · cases stepped
    exact .stop
  · cases stepped

omit [DecidableEq γ]

/-- What a worker does in a phase, and what it finds: the branches of `workerStep`. -/
inductive WorkerStep (sched : Scheduler n φ γ) (w : Fin n) :
    Label n φ γ → Worker φ γ → Scheduler n φ γ × Output n φ → Prop
  | scanNone (nothing : scanFibers sched.isExec w sched.queue = none) :
      WorkerStep sched w (.scan w) .top (sched.goto w .noTask, .silent)
  | scan {entry : Entry φ γ} {left : List (Entry φ γ)}
      (found : scanFibers sched.isExec w sched.queue = some (entry, left)) :
      WorkerStep sched w (.scan w) .top
        ({ sched with queue := left, active := sched.active + 1 }.goto w (.taken entry.ft.task),
          .took w entry.id)
  | checkEnded {fiber : φ} (ended : sched.ended fiber = true) :
      WorkerStep sched w (.check w) (.taken (.fiber fiber)) (sched.goto w .dead, .silent)
  | check {fiber : φ} (going : sched.ended fiber = false) :
      WorkerStep sched w (.check w) (.taken (.fiber fiber)) (sched.goto w (.entering fiber), .silent)
  | create {fiber : φ} {cb : γ} (absent : sched.fibers fiber = none) :
      WorkerStep sched w (.create w fiber) (.taken (.cb cb))
        ((sched.addFiber fiber).goto w (.entering fiber), .silent)
  | swapInEnded {fiber : φ} (ended : sched.ended fiber = true) :
      WorkerStep sched w (.swapIn w) (.entering fiber) (sched.goto w (.back fiber), .silent)
  | swapIn {fiber : φ} (still : sched.hasState fiber .exec = false)
      (going : sched.ended fiber = false) :
      WorkerStep sched w (.swapIn w) (.entering fiber) (sched.goto w (.asserted fiber), .silent)
  | setExec {fiber : φ} :
      WorkerStep sched w (.setExec w) (.asserted fiber)
        ((sched.setState fiber .exec).goto w (.marked fiber), .silent)
  | switch {fiber : φ} :
      WorkerStep sched w (.switch w) (.marked fiber)
        ((sched.setSaved fiber false).goto w (.executing fiber),
          .switched w fiber ((sched.fibers fiber).any Fiber.saved))
  | addEvent {fiber : φ} {cb : Option γ} :
      WorkerStep sched w (.addEvent w cb) (.executing fiber)
        ({ sched with waiting := (cb.elim (.fiber fiber) .cb) :: sched.waiting }, .silent)
  | yield {fiber : φ} {ready : Bool} :
      WorkerStep sched w (.yield w ready) (.executing fiber)
        ((sched.setState fiber (if ready then .ready else .hold)).goto w (.leaving fiber), .silent)
  | finish {fiber : φ} {thrown : Bool} :
      WorkerStep sched w (.finish w thrown) (.executing fiber)
        ((sched.setState fiber (if thrown then .except else .term)).goto w (.leaving fiber), .silent)
  | swapOut {fiber : φ} :
      WorkerStep sched w (.swapOut w) (.leaving fiber)
        ((sched.setSaved fiber true).goto w (.back fiber), .silent)
  | release {fiber : φ} :
      WorkerStep sched w (.release w) (.back fiber)
        ({ sched with active := decrement sched.active }.goto w (.released fiber), .silent)
  | releaseDead :
      WorkerStep sched w (.release w) .dead
        ({ sched with active := decrement sched.active }.goto w .top, .silent)
  | getReady {fiber : φ} (ready : sched.hasState fiber .ready = true) :
      WorkerStep sched w (.getState w) (.released fiber) (sched.goto w (.requeue fiber), .silent)
  | getState {fiber : φ} :
      WorkerStep sched w (.getState w) (.released fiber) (sched.goto w .top, .silent)
  | requeue {fiber : φ} :
      WorkerStep sched w (.requeue w) (.requeue fiber)
        ((sched.goto w .top).pushing [some ⟨.fiber fiber, none⟩])
  | leaveLoop : WorkerStep sched w (.enterIdle w) .noTask (sched.goto w .done, .silent)
  | enterIdle :
      WorkerStep sched w (.enterIdle w) .noTask
        ({ sched with idle := sched.idle + 1 }.goto w .idle, .silent)
  | endIdle (stopping : sched.stopping = true) :
      WorkerStep sched w (.leaveIdle w true) .idle
        ({ sched with idleEnded := Function.update sched.idleEnded w true }.goto w .idled, .silent)
  | leaveIdle : WorkerStep sched w (.leaveIdle w false) .idle (sched.goto w .idled, .silent)
  | afterIdle :
      WorkerStep sched w (.afterIdle w) .idled
        ({ sched with idle := decrement sched.idle }.goto w .top, .silent)

theorem workerStep_cases {sched : Scheduler n φ γ} {label : Label n φ γ} {w : Fin n}
    (own : label.worker = some w) {phase : Worker φ γ} {next : Scheduler n φ γ × Output n φ}
    (stepped : sched.workerStep label phase = some next) : WorkerStep sched w label phase next := by
  unfold workerStep at stepped
  split at stepped
  all_goals
    first
    | cases stepped; done
    | cases own
  · split at stepped
    · rename_i nothing
      cases stepped
      exact .scanNone nothing
    · rename_i found
      cases stepped
      exact .scan found
  · cases stepped
    split
    · rename_i ended
      exact .checkEnded ended
    · rename_i going
      exact .check (Bool.eq_false_iff.mpr going)
  · split at stepped
    · cases stepped
    · rename_i absent
      cases stepped
      exact .create (Option.not_isSome_iff_eq_none.mp absent)
  · split at stepped
    · cases stepped
    · rename_i still
      cases stepped
      split
      · rename_i ended
        exact .swapInEnded ended
      · rename_i going
        exact .swapIn (Bool.eq_false_iff.mpr still) (Bool.eq_false_iff.mpr going)
  · cases stepped
    exact .setExec
  · cases stepped
    exact .switch
  · cases stepped
    exact .addEvent
  · cases stepped
    exact .yield
  · cases stepped
    exact .finish
  · cases stepped
    exact .swapOut
  · cases stepped
    exact .release
  · cases stepped
    exact .releaseDead
  · cases stepped
    split
    · rename_i ready
      exact .getReady ready
    · exact .getState
  · cases stepped
    exact .requeue
  · split at stepped
    · cases stepped
      exact .leaveLoop
    · cases stepped
      exact .enterIdle
  · split at stepped
    · rename_i ends
      subst ends
      split at stepped
      · rename_i stopping
        cases stepped
        exact .endIdle stopping
      · cases stepped
    · rename_i goesOn
      obtain rfl := Bool.eq_false_iff.mpr goesOn
      cases stepped
      exact .leaveIdle
  · cases stepped
    exact .afterIdle

end Scheduler

end Wyze
