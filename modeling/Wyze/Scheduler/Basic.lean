/-
**The worker pool: `Scheduler::run`, `IOManager::idle` and the tickle pipe.**

Each worker is in one phase of its loop: the queue scan, a task, or one turn of the idle loop from
`getNextTimer` through `epoll_wait` to the yield. The workers share the task queue, the timer manager
and the pipe. A call of `schedule` or `addTimer` pushes or inserts in its critical section and may
then call `tickle`, which is a step of its own; `tickles` counts the calls that have yet to do so.

`Pool.step` is one step of one worker or caller; clock readings, and what the environment decides, are
arguments of its label.
-/
import Mathlib.Data.Fintype.Basic
import Wyze.IOManager.Basic
import Wyze.Timer.Basic

namespace Wyze

/-- An entry of `m_fibers`; `thread` is `none` for -1. -/
structure FiberAndThread (φ γ : Type*) where
  task : Task φ γ
  thread : Option Nat
deriving DecidableEq

/-! ### The timeout of `epoll_wait` -/

/-- What the idle loop passes to `epoll_wait` for the result of `getNextTimer`. -/
def epollTimeout (nextTimeout : Nat) : Int :=
  if nextTimeout ≠ 2 ^ 64 - 1 then
    if toInt32 nextTimeout < 5000 then toInt32 nextTimeout else 5000
  else 5000

/-- The timeout is never longer than the time to the next timer. -/
theorem epollTimeout_le (nextTimeout : Nat) : epollTimeout nextTimeout ≤ nextTimeout := by
  have converted := toInt32_le nextTimeout
  unfold epollTimeout
  split
  · split <;> omega
  · omega

/-! ### Workers -/

/-- The phases of a worker: about to scan the queue; after the scan, with the task taken and whether
`tickle_me` is still to be heeded; running a fiber; at the top of the idle loop; with a timeout
computed at some clock reading; in `epoll_wait` with a deadline (`none` blocks for ever); returned
from it, having seen the pipe or not; with expired callbacks collected; before the pipe is read;
before the yield. -/
inductive Worker (φ γ : Type*) where
  | scan
  | scanned (task : Option (Task φ γ)) (tickleMe : Bool)
  | running (fiber : φ)
  | idle
  | armed (now : Nat) (timeout : Int)
  | blocked (timeout : Int) (deadline : Option Nat)
  | woken (sawPipe : Bool)
  | expired (cbs : List γ) (sawPipe : Bool)
  | handled (sawPipe : Bool)
  | drained
deriving DecidableEq

namespace Worker

variable {φ γ : Type*}

/-- The worker is counted in `m_idleThreadCount`. -/
def isIdle : Worker φ γ → Bool
  | .scan | .scanned .. | .running _ => false
  | _ => true

/-- `tickle_me` is set and not yet heeded. -/
def tickleMe : Worker φ γ → Bool
  | .scanned _ tickleMe => tickleMe
  | _ => false

/-- When `epoll_wait` entered at `now` with this timeout returns at the latest. -/
def deadlineAt (now : Nat) (timeout : Int) : Option Nat :=
  if timeout < 0 then none else some (now + timeout.toNat)

end Worker

/-! ### The pool -/

/-- The shared state of `n` workers: `pipe` is the number of bytes in the tickle pipe. -/
structure Pool (n : Nat) (φ γ : Type*) where
  workers : Fin n → Worker φ γ
  queue : List (FiberAndThread φ γ)
  timers : TimerManager γ
  pipe : Nat
  tickles : Nat

namespace Pool

variable {n : Nat} {φ γ : Type*}

def new (n now : Nat) : Pool n φ γ :=
  { workers := fun _ => .scan, queue := [], timers := .new now, pipe := 0, tickles := 0 }

/-- `hasIdleThreads`. -/
def hasIdleThreads (pool : Pool n φ γ) : Bool := decide (∃ w, (pool.workers w).isIdle = true)

/-- `IOManager::tickle`. -/
def tickle (pool : Pool n φ γ) : Pool n φ γ :=
  if pool.hasIdleThreads then pool else { pool with pipe := pool.pipe + 1 }

/-- `schedule` up to its call of `tickle`: an empty task is not queued, and the caller is to tickle
when the queue was empty. -/
def schedule (pool : Pool n φ γ) (task : Option (FiberAndThread φ γ)) : Pool n φ γ :=
  { pool with
    queue := pool.queue ++ task.toList
    tickles := if pool.queue.isEmpty then pool.tickles + 1 else pool.tickles }

/-- `schedule` of a range, here the expired callbacks. -/
def scheduleRange (pool : Pool n φ γ) (cbs : List γ) : Pool n φ γ :=
  { pool with
    queue := pool.queue ++ cbs.map fun cb => { task := .cb cb, thread := none }
    tickles := if pool.queue.isEmpty && !cbs.isEmpty then pool.tickles + 1 else pool.tickles }

variable [DecidableEq φ]

/-- A fiber is in state `EXEC`. -/
def isExec [DecidableEq γ] (pool : Pool n φ γ) : Task φ γ → Bool
  | .fiber fiber => decide (∃ w, pool.workers w = .running fiber)
  | .cb _ => false

/-- The scan of `Scheduler::run`: the first task that is neither pinned to another thread nor a fiber
in state `EXEC`, the queue without it, and `tickle_me`. -/
def scanQueue (exec : Task φ γ → Bool) (self : Nat) :
    List (FiberAndThread φ γ) → Option (Task φ γ) × List (FiberAndThread φ γ) × Bool
  | [] => (none, [], false)
  | ft :: rest =>
    if ft.thread ≠ none ∧ ft.thread ≠ some self then
      let (task, left, _) := scanQueue exec self rest
      (task, ft :: left, true)
    else if exec ft.task then
      let (task, left, tickleMe) := scanQueue exec self rest
      (task, ft :: left, tickleMe)
    else (some ft.task, rest, false)

/-- Put a worker into a phase. -/
def goto (pool : Pool n φ γ) (w : Fin n) (phase : Worker φ γ) : Pool n φ γ :=
  { pool with workers := Function.update pool.workers w phase }

inductive Label (n : Nat) (φ γ : Type*) where
  | schedule (task : Option (FiberAndThread φ γ))
  | addTimer (ms : Nat) (cb : γ) (recurring : Bool) (now : Nat) (addr : Addr)
  | tickle
  | scan (w : Fin n)
  | scanTickle (w : Fin n)
  | start (w : Fin n) (fiber : φ) (ended : Bool)
  | finish (w : Fin n) (ready : Bool)
  | enterIdle (w : Fin n)
  | getNextTimer (w : Fin n) (now : Nat)
  | enter (w : Fin n) (now : Nat) (sawPipe : Bool)
  | retry (w : Fin n) (now : Nat)
  | leave (w : Fin n) (sawPipe : Bool)
  | listExpiredCb (w : Fin n) (now : Nat) (tmp : Addr)
  | scheduleCbs (w : Fin n)
  | drain (w : Fin n)
  | yield (w : Fin n)
deriving DecidableEq

variable [DecidableEq γ]

/-- A worker's step in its current phase. A task's fiber that has ended is dropped, one that comes
back in state `READY` is scheduled again; `epoll_wait` with timeout 0 returns at once. -/
def workerStep (pool : Pool n φ γ) : Label n φ γ → Worker φ γ → Option (Pool n φ γ)
  | .scan w, .scan =>
    let (task, left, tickleMe) := scanQueue pool.isExec w pool.queue
    some ({ pool with queue := left }.goto w (.scanned task tickleMe))
  | .scanTickle w, .scanned task true => some (pool.tickle.goto w (.scanned task false))
  | .start w fiber ended, .scanned (some task) false =>
    match task with
    | .fiber fiber => some (pool.goto w (if ended then .scan else .running fiber))
    | .cb _ => some (pool.goto w (.running fiber))
  | .finish w ready, .running fiber =>
    let pool := pool.goto w .scan
    some (if ready then pool.schedule (some { task := .fiber fiber, thread := none }) else pool)
  | .enterIdle w, .scanned none false => some (pool.goto w .idle)
  | .getNextTimer w now, .idle =>
    let (timers, nextTimeout) := pool.timers.getNextTimer now
    some ({ pool with timers := timers }.goto w (.armed now (epollTimeout nextTimeout)))
  | .enter w now sawPipe, .armed _ timeout =>
    if timeout = 0 then
      if sawPipe ∧ pool.pipe = 0 then none else some (pool.goto w (.woken sawPipe))
    else some (pool.goto w (.blocked timeout (Worker.deadlineAt now timeout)))
  | .retry w now, .blocked timeout _ =>
    some (pool.goto w (.blocked timeout (Worker.deadlineAt now timeout)))
  | .leave w sawPipe, .blocked _ _ =>
    if sawPipe ∧ pool.pipe = 0 then none else some (pool.goto w (.woken sawPipe))
  | .listExpiredCb w now tmp, .woken sawPipe =>
    let (timers, cbs) := pool.timers.listExpiredCb now tmp
    some ({ pool with timers := timers }.goto w (.expired (cbs.filterMap Prod.snd) sawPipe))
  | .scheduleCbs w, .expired cbs sawPipe => some ((pool.scheduleRange cbs).goto w (.handled sawPipe))
  | .drain w, .handled sawPipe =>
    some ({ pool with pipe := if sawPipe then 0 else pool.pipe }.goto w .drained)
  | .yield w, .drained => some (pool.goto w .scan)
  | _, _ => none

/-- The worker whose step it is. -/
def Label.worker : Label n φ γ → Option (Fin n)
  | .schedule _ | .addTimer .. | .tickle => none
  | .scan w | .scanTickle w | .start w .. | .finish w _ | .enterIdle w | .getNextTimer w _
  | .enter w .. | .retry w _ | .leave w _ | .listExpiredCb w .. | .scheduleCbs w | .drain w
  | .yield w => some w

/-- One step of a caller of `schedule` or `addTimer`. -/
def callerStep (pool : Pool n φ γ) : Label n φ γ → Option (Pool n φ γ)
  | .schedule task => some (pool.schedule task)
  | .addTimer ms cb recurring now addr =>
    if (pool.timers.heap addr).isSome then none
    else
      let (timers, reply) := pool.timers.addTimer ms cb recurring now addr
      some { pool with
        timers := timers
        tickles := if reply = .added true then pool.tickles + 1 else pool.tickles }
  | .tickle => if pool.tickles = 0 then none else some { pool with tickles := pool.tickles - 1 }.tickle
  | _ => none

/-- One step of the pool. -/
def step (pool : Pool n φ γ) (label : Label n φ γ) : Option (Pool n φ γ × Unit) :=
  match label.worker with
  | none => (pool.callerStep label).map (·, ())
  | some w => (pool.workerStep label (pool.workers w)).map (·, ())

/-! ### The steps, one by one -/

/-- What a worker does in a phase, and what it finds: the branches of `workerStep`. -/
inductive WorkerStep (pool : Pool n φ γ) (w : Fin n) : Label n φ γ → Worker φ γ → Pool n φ γ → Prop
  | scan {task : Option (Task φ γ)} {left : List (FiberAndThread φ γ)} {tickleMe : Bool}
      (scanned : scanQueue pool.isExec w pool.queue = (task, left, tickleMe)) :
      WorkerStep pool w (.scan w) .scan ({ pool with queue := left }.goto w (.scanned task tickleMe))
  | scanTickle {task : Option (Task φ γ)} :
      WorkerStep pool w (.scanTickle w) (.scanned task true) (pool.tickle.goto w (.scanned task false))
  | drop {named fiber : φ} :
      WorkerStep pool w (.start w named true) (.scanned (some (.fiber fiber)) false)
        (pool.goto w .scan)
  | start {named fiber : φ} :
      WorkerStep pool w (.start w named false) (.scanned (some (.fiber fiber)) false)
        (pool.goto w (.running fiber))
  | startCb {fiber : φ} {ended : Bool} {cb : γ} :
      WorkerStep pool w (.start w fiber ended) (.scanned (some (.cb cb)) false)
        (pool.goto w (.running fiber))
  | finishReady {fiber : φ} :
      WorkerStep pool w (.finish w true) (.running fiber)
        ((pool.goto w .scan).schedule (some { task := .fiber fiber, thread := none }))
  | finish {fiber : φ} : WorkerStep pool w (.finish w false) (.running fiber) (pool.goto w .scan)
  | enterIdle : WorkerStep pool w (.enterIdle w) (.scanned none false) (pool.goto w .idle)
  | getNextTimer {now : Nat} :
      WorkerStep pool w (.getNextTimer w now) .idle
        ({ pool with timers := (pool.timers.getNextTimer now).1 }.goto w
          (.armed now (epollTimeout (pool.timers.getNextTimer now).2)))
  | poll {now armedAt : Nat} {sawPipe : Bool} :
      WorkerStep pool w (.enter w now sawPipe) (.armed armedAt 0) (pool.goto w (.woken sawPipe))
  | enter {now armedAt : Nat} {sawPipe : Bool} {timeout : Int} (waits : timeout ≠ 0) :
      WorkerStep pool w (.enter w now sawPipe) (.armed armedAt timeout)
        (pool.goto w (.blocked timeout (Worker.deadlineAt now timeout)))
  | retry {now : Nat} {timeout : Int} {deadline : Option Nat} :
      WorkerStep pool w (.retry w now) (.blocked timeout deadline)
        (pool.goto w (.blocked timeout (Worker.deadlineAt now timeout)))
  | leave {sawPipe : Bool} {timeout : Int} {deadline : Option Nat} :
      WorkerStep pool w (.leave w sawPipe) (.blocked timeout deadline) (pool.goto w (.woken sawPipe))
  | listExpiredCb {now : Nat} {tmp : Addr} {sawPipe : Bool} :
      WorkerStep pool w (.listExpiredCb w now tmp) (.woken sawPipe)
        ({ pool with timers := (pool.timers.listExpiredCb now tmp).1 }.goto w
          (.expired ((pool.timers.listExpiredCb now tmp).2.filterMap Prod.snd) sawPipe))
  | scheduleCbs {cbs : List γ} {sawPipe : Bool} :
      WorkerStep pool w (.scheduleCbs w) (.expired cbs sawPipe)
        ((pool.scheduleRange cbs).goto w (.handled sawPipe))
  | drain {sawPipe : Bool} :
      WorkerStep pool w (.drain w) (.handled sawPipe)
        ({ pool with pipe := if sawPipe then 0 else pool.pipe }.goto w .drained)
  | yield : WorkerStep pool w (.yield w) .drained (pool.goto w .scan)

theorem workerStep_cases {pool next : Pool n φ γ} {label : Label n φ γ} {w : Fin n}
    (own : label.worker = some w) {phase : Worker φ γ}
    (stepped : pool.workerStep label phase = some next) : WorkerStep pool w label phase next := by
  unfold workerStep at stepped
  split at stepped
  all_goals
    first
    | cases stepped; done
    | cases own
  · cases stepped
    exact .scan rfl
  · cases stepped
    exact .scanTickle
  · rename_i named ended task
    cases task with
    | fiber fiber =>
        cases stepped
        cases ended with
        | true => exact .drop
        | false => exact .start
    | cb cb =>
        cases stepped
        exact .startCb
  · rename_i ready fiber
    cases stepped
    cases ready with
    | true => exact .finishReady
    | false => exact .finish
  · cases stepped
    exact .enterIdle
  · cases stepped
    exact .getNextTimer
  · split at stepped
    · rename_i polls
      subst polls
      split at stepped
      · cases stepped
      · cases stepped
        exact .poll
    · rename_i waits
      cases stepped
      exact .enter waits
  · cases stepped
    exact .retry
  · split at stepped
    · cases stepped
    · cases stepped
      exact .leave
  · cases stepped
    exact .listExpiredCb
  · cases stepped
    exact .scheduleCbs
  · cases stepped
    exact .drain
  · cases stepped
    exact .yield

end Pool

end Wyze
