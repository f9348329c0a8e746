/-
**The fd-event bookkeeping of `IOManager`.**

An `FdContext` keeps the registered events of one fd and, for each of the two events, the
`EventContext` that is to be scheduled when it fires. `IOManager` holds the table of these contexts,
the counter `m_pendingEvent` and, as part of the state, what the kernel's epoll set has registered.
Each function's critical section under the `FdContext` mutex is one step; whether its `epoll_ctl`
succeeds is an argument.

`IOManager.step` is one such step of any thread. A failed `WYZE_ASSERT` or the use of a null pointer
stops the run: it is shown as the `Assertion` and no step is enabled any more.
-/
import Mathlib.Algebra.Group.Int.Defs
import Mathlib.Algebra.Group.Nat.Defs
import Mathlib.Data.Int.Basic
import Mathlib.Data.List.Basic
import Mathlib.Logic.Function.Basic

namespace Wyze

/-! ### Events -/

/-- `IOManager::Event` without `NONE`. -/
inductive Event where
  | read
  | write
deriving DecidableEq

/-- A set of events, as the bits of `FdContext::events`. -/
structure Events where
  read : Bool
  write : Bool
deriving DecidableEq

namespace Events

/-- `Event::NONE`. -/
def none : Events := { read := false, write := false }

/-- `events & event`. -/
def has (events : Events) : Event → Bool
  | .read => events.read
  | .write => events.write

/-- `events | event`. -/
def add (events : Events) : Event → Events
  | .read => { events with read := true }
  | .write => { events with write := true }

/-- `events & ~event`. -/
def drop (events : Events) : Event → Events
  | .read => { events with read := false }
  | .write => { events with write := false }

/-- `events != 0`. -/
def any (events : Events) : Bool := events.read || events.write

/-- `events & other`. -/
def inter (events other : Events) : Events :=
  { read := events.read && other.read, write := events.write && other.write }

/-- `events | other`. -/
def union (events other : Events) : Events :=
  { read := events.read || other.read, write := events.write || other.write }

/-- `events & ~other`. -/
def diff (events other : Events) : Events :=
  { read := events.read && !other.read, write := events.write && !other.write }

/-- The number of bits set. -/
def count (events : Events) : Nat := events.read.toNat + events.write.toNat

end Events

/-! ### Contexts -/

/-- `EventContext`; `scheduler` tells whether the pointer is set, fibers are from `φ` and callbacks
from `γ`. -/
structure EventContext (φ γ : Type*) where
  scheduler : Bool
  fiber : Option φ
  cb : Option γ
deriving DecidableEq

/-- The state after construction and after `resetContext`. -/
def EventContext.empty {φ γ : Type*} : EventContext φ γ :=
  { scheduler := false, fiber := none, cb := none }

/-- What is handed to the scheduler. -/
inductive Task (φ γ : Type*) where
  | fiber (fiber : φ)
  | cb (cb : γ)
deriving DecidableEq

/-- Why a run stops: a failed `WYZE_ASSERT` of `addEvent`, `triggerEvent` or `canceAll`, a call through
the null `scheduler`, or an index past the table. -/
inductive Assertion where
  | addedTwice
  | contextInUse
  | fiberNotExec
  | notRegistered
  | nullScheduler
  | eventsLeft
  | outOfRange
deriving DecidableEq

structure FdContext (φ γ : Type*) where
  read : EventContext φ γ
  write : EventContext φ γ
  fd : Nat
  events : Events
deriving DecidableEq

namespace FdContext

variable {φ γ : Type*}

/-- `new FdContext` for an fd. -/
def new (fd : Nat) : FdContext φ γ :=
  { read := .empty, write := .empty, fd := fd, events := .none }

def getContext (ctx : FdContext φ γ) : Event → EventContext φ γ
  | .read => ctx.read
  | .write => ctx.write

/-- Write the context that `getContext` returns a reference to. -/
def setContext (ctx : FdContext φ γ) (event : Event) (ev : EventContext φ γ) : FdContext φ γ :=
  match event with
  | .read => { ctx with read := ev }
  | .write => { ctx with write := ev }

/-- `triggerEvent`; `schedule` swaps the callback or fiber out of the context and queues nothing when
that was empty. -/
def triggerEvent (ctx : FdContext φ γ) (event : Event) :
    Except Assertion (FdContext φ γ × List (Task φ γ)) :=
  if ctx.events.has event = false then .error .notRegistered
  else
    let ctx := { ctx with events := ctx.events.drop event }
    let ev := ctx.getContext event
    if ev.scheduler = false then .error .nullScheduler
    else
      match ev.cb with
      | some cb =>
        .ok (ctx.setContext event { ev with scheduler := false, cb := none }, [.cb cb])
      | none =>
        .ok (ctx.setContext event { ev with scheduler := false, fiber := none },
          (ev.fiber.map Task.fiber).toList)

end FdContext

/-! ### Critical sections -/

/-- `EPOLL_CTL_ADD`, `EPOLL_CTL_MOD`, `EPOLL_CTL_DEL`. -/
inductive CtlOp where
  | add
  | mod
  | del
deriving DecidableEq

/-- One call of `epoll_ctl` and whether it succeeded. -/
structure Ctl where
  op : CtlOp
  events : Events
  ok : Bool
deriving DecidableEq

/-- What a critical section leaves behind: the context, the counter, the `epoll_ctl` it issued, what
it handed to the scheduler and whether it reports success. -/
structure Outcome (φ γ : Type*) where
  context : FdContext φ γ
  pending : Int
  ctl : Option Ctl
  scheduled : List (Task φ γ)
  ok : Bool
deriving DecidableEq

/-- The event bits of an `epoll_event`: `EPOLLIN`, `EPOLLOUT`, and `EPOLLERR` or `EPOLLHUP`. -/
structure Reported where
  events : Events
  failed : Bool
deriving DecidableEq

namespace FdContext

variable {φ γ : Type*}

/-- A section that changes nothing. -/
def unchanged (ctx : FdContext φ γ) (pending : Int) (ctl : Option Ctl) (ok : Bool) :
    Outcome φ γ :=
  { context := ctx, pending := pending, ctl := ctl, scheduled := [], ok := ok }

/-- `addEvent` under the lock; without a callback it is the current fiber `self` that waits, and
`exec` tells whether that is in state `EXEC`. -/
def addEvent (ctx : FdContext φ γ) (pending : Int) (event : Event) (cb : Option γ) (self : φ)
    (exec ctlOk : Bool) : Except Assertion (Outcome φ γ) :=
  if ctx.events.has event then .error .addedTwice
  else
    let op : CtlOp := if ctx.events.any then .mod else .add
    let ctl : Ctl := { op := op, events := ctx.events.add event, ok := ctlOk }
    if ctlOk = false then .ok (ctx.unchanged pending (some ctl) false)
    else
      let ev := ctx.getContext event
      if ev.scheduler || ev.fiber.isSome || ev.cb.isSome then .error .contextInUse
      else if cb.isNone ∧ exec = false then .error .fiberNotExec
      else
        let ev := { ev with
          scheduler := true
          cb := cb
          fiber := if cb.isNone then some self else ev.fiber }
        .ok {
          context := { ctx with events := ctx.events.add event }.setContext event ev
          pending := pending + 1
          ctl := some ctl
          scheduled := []
          ok := true }

/-- The `epoll_ctl` of `delEvent`, `canceEvent` and the idle loop, which leaves `left` registered. -/
def leaveCtl (left : Events) (ctlOk : Bool) : Ctl :=
  { op := if left.any then .mod else .del, events := left, ok := ctlOk }

def delEvent (ctx : FdContext φ γ) (pending : Int) (event : Event) (ctlOk : Bool) :
    Except Assertion (Outcome φ γ) :=
  if ctx.events.has event = false then .ok (ctx.unchanged pending none false)
  else
    let left := ctx.events.drop event
    let ctl := leaveCtl left ctlOk
    if ctlOk = false then .ok (ctx.unchanged pending (some ctl) false)
    else
      .ok {
        context := { ctx with events := left }.setContext event .empty
        pending := pending - 1
        ctl := some ctl
        scheduled := []
        ok := true }

def canceEvent (ctx : FdContext φ γ) (pending : Int) (event : Event) (ctlOk : Bool) :
    Except Assertion (Outcome φ γ) :=
  if ctx.events.has event = false then .ok (ctx.unchanged pending none false)
  else
    let left := ctx.events.drop event
    let ctl := leaveCtl left ctlOk
    if ctlOk = false then .ok (ctx.unchanged pending (some ctl) false)
    else do
      let (ctx, scheduled) ← ctx.triggerEvent event
      return {
        context := ctx
        pending := pending - 1
        ctl := some ctl
        scheduled := scheduled
        ok := true }

/-- `if(wanted) { triggerEvent(event); --m_pendingEvent; }`, as `canceAll` and the idle loop do for
each of the two events. -/
def triggerIf (wanted : Bool) (event : Event) (outcome : Outcome φ γ) :
    Except Assertion (Outcome φ γ) :=
  if wanted then do
    let (ctx, scheduled) ← outcome.context.triggerEvent event
    return { outcome with
      context := ctx
      pending := outcome.pending - 1
      scheduled := outcome.scheduled ++ scheduled }
  else return outcome

def canceAll (ctx : FdContext φ γ) (pending : Int) (ctlOk : Bool) :
    Except Assertion (Outcome φ γ) :=
  if ctx.events.any = false then .ok (ctx.unchanged pending none false)
  else
    let ctl : Ctl := { op := .del, events := .none, ok := ctlOk }
    if ctlOk = false then .ok (ctx.unchanged pending (some ctl) false)
    else do
      let afterRead ← triggerIf ctx.events.read .read (ctx.unchanged pending (some ctl) true)
      let afterWrite ← triggerIf afterRead.context.events.write .write afterRead
      if afterWrite.context.events.any then .error .eventsLeft else return afterWrite

/-- `real_evs`: an error or hang-up reports every registered event. -/
def realEvents (ctx : FdContext φ γ) (reported : Reported) : Events :=
  if reported.failed then reported.events.union ctx.events else reported.events

/-- The idle loop's treatment of one reported event. It triggers what was reported, not only what of
it is still registered. -/
def deliver (ctx : FdContext φ γ) (pending : Int) (reported : Reported) (ctlOk : Bool) :
    Except Assertion (Outcome φ γ) :=
  let real := ctx.realEvents reported
  if (ctx.events.inter real).any = false then .ok (ctx.unchanged pending none false)
  else
    let ctl := leaveCtl (ctx.events.diff real) ctlOk
    if ctlOk = false then .ok (ctx.unchanged pending (some ctl) false)
    else do
      let afterRead ← triggerIf real.read .read (ctx.unchanged pending (some ctl) true)
      triggerIf real.write .write afterRead

end FdContext

/-! ### The manager -/

/-- `contextResize`: cut the table to `size` or fill it up with new entries. -/
def contextResize {α : Type*} (create : Nat → α) (table : List α) (size : Nat) : List α :=
  table.take size ++ (List.range' table.length (size - table.length)).map create

/-- `registered` is the kernel's epoll set: the events of each fd that was added to it. `aborted`
holds the assertion that stopped the run. -/
structure IOManager (φ γ : Type*) where
  fdContexts : List (FdContext φ γ)
  pendingEvent : Int
  registered : Nat → Option Events
  aborted : Option Assertion

namespace IOManager

variable {φ γ : Type*}

/-- The constructor makes room for 32 fds. -/
def new : IOManager φ γ :=
  { fdContexts := contextResize FdContext.new [] 32
    pendingEvent := 0
    registered := fun _ => none
    aborted := none }

/-- One critical section; `fiber` is the calling fiber. -/
inductive Label (φ γ : Type*) where
  | addEvent (fd : Nat) (event : Event) (cb : Option γ) (self : φ) (exec ctlOk : Bool)
  | delEvent (fd : Nat) (event : Event) (ctlOk : Bool)
  | canceEvent (fd : Nat) (event : Event) (ctlOk : Bool)
  | canceAll (fd : Nat) (ctlOk : Bool)
  | deliver (fd : Nat) (reported : Reported) (ctlOk : Bool)
deriving DecidableEq

/-- The fd a section is about. -/
def Label.fd : Label φ γ → Nat
  | .addEvent fd .. | .delEvent fd .. | .canceEvent fd .. | .canceAll fd _ | .deliver fd .. => fd

/-- The section itself. -/
def Label.section (label : Label φ γ) (ctx : FdContext φ γ) (pending : Int) :
    Except Assertion (Outcome φ γ) :=
  match label with
  | .addEvent _ event cb self exec ctlOk => ctx.addEvent pending event cb self exec ctlOk
  | .delEvent _ event ctlOk => ctx.delEvent pending event ctlOk
  | .canceEvent _ event ctlOk => ctx.canceEvent pending event ctlOk
  | .canceAll _ ctlOk => ctx.canceAll pending ctlOk
  | .deliver _ reported ctlOk => ctx.deliver pending reported ctlOk

/-- The table in which a section looks its context up: `addEvent` makes room for its fd first. -/
def Label.table (label : Label φ γ) (table : List (FdContext φ γ)) : List (FdContext φ γ) :=
  match label with
  | .addEvent fd .. =>
    if fd < table.length then table else contextResize FdContext.new table (fd * 3 / 2)
  | _ => table

/-- What a step shows: the `epoll_ctl` it issued, the tasks it scheduled, its result, or the
assertion that stopped it. -/
inductive Shown (φ γ : Type*) where
  | done (ctl : Option Ctl) (scheduled : List (Task φ γ)) (ok : Bool)
  | aborted (assertion : Assertion)
deriving DecidableEq

/-- The kernel's set after an `epoll_ctl`. -/
def control (registered : Nat → Option Events) (fd : Nat) : Option Ctl → Nat → Option Events
  | some { op := .del, ok := true, .. } => Function.update registered fd none
  | some { op := _, events := events, ok := true } => Function.update registered fd (some events)
  | _ => registered

/-- One step. An fd past the table is not known to any function but `addEvent`. -/
def step (manager : IOManager φ γ) (label : Label φ γ) :
    Option (IOManager φ γ × Shown φ γ) :=
  if manager.aborted.isSome then none
  else
    let table := label.table manager.fdContexts
    match table[label.fd]?, label with
    | none, .addEvent .. => some ({ manager with aborted := some .outOfRange }, .aborted .outOfRange)
    | none, _ => some (manager, .done none [] false)
    | some ctx, _ =>
      match label.section ctx manager.pendingEvent with
      | .error assertion =>
        some ({ manager with aborted := some assertion }, .aborted assertion)
      | .ok outcome =>
        some
          ({ manager with
              fdContexts := table.set label.fd outcome.context
              pendingEvent := outcome.pending
              registered := control manager.registered label.fd outcome.ctl },
            .done outcome.ctl outcome.scheduled outcome.ok)

end IOManager

end Wyze
