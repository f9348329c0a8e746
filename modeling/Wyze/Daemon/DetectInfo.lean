/-
**The times that the threads of a child report to its parent.**

The daemon's parent and the child that it forks share a `DetectInfo`. A thread of the child calls
`update_thread_time`, which looks for the thread's entry and tests the capacity before it takes the
lock under which it writes a new entry; the parent reads the times with `detect_thread_time`.

A step is one statement of one thread on the shared memory, or the taking of the lock. An entry behind
the array may have memory of the process's in its place, or none: `mapped` says so, and where there is
none the process is killed.
-/
import Mathlib.Logic.Function.Basic
import Wyze.Lib.Run
import Wyze.Lib.Words

namespace Wyze.Daemon

/-- `THREAD_INFO_ARRAY`. -/
def THREAD_INFO_ARRAY : Nat := 30

structure ThreadInfo where
  recordTime : Nat
  threadId : Int
  threadDesc : Vector UInt8 120

/-- `infos` goes on behind the array: what memory there holds when it is read as an entry. -/
structure DetectInfo where
  realSize : Nat
  interval : Nat
  infos : Nat → ThreadInfo

namespace DetectInfo

/-- The entry with this index is written. -/
def set (info : DetectInfo) (i : Nat) (entry : ThreadInfo) : DetectInfo :=
  { info with infos := Function.update info.infos i entry }

/-- `init_shm`, when the segment can be attached. -/
def initShm (info : DetectInfo) : DetectInfo := { info with realSize := 0, interval := 3 * 60 }

/-- `reset_real_size`. -/
def resetRealSize (info : DetectInfo) : DetectInfo := { info with realSize := 0 }

/-- `set_detect_interval`. -/
def setDetectInterval (info : DetectInfo) (interval : Nat) : DetectInfo :=
  { info with interval := interval * 2 % 2 ^ 64 }

/-- `detect_thread_time`: 1 for a child that is to be killed. -/
def detectThreadTime (info : DetectInfo) (interval curTime : Nat) : Nat :=
  if (List.range info.realSize).any fun i => (info.infos i).recordTime < sub64 curTime interval then 1
  else curTime

variable {info : DetectInfo} {i j : Nat} {entry : ThreadInfo}

@[simp]
theorem set_realSize : (info.set i entry).realSize = info.realSize := rfl

theorem set_self : (info.set i entry).infos i = entry := by
  simp only [set, Function.update_self]

theorem set_of_ne (other : j ≠ i) : (info.set i entry).infos j = info.infos j := by
  simp only [set, Function.update_of_ne other]

/-- An entry that is written for the same thread. -/
theorem set_threadId (same : entry.threadId = (info.infos i).threadId) (j : Nat) :
    ((info.set i entry).infos j).threadId = (info.infos j).threadId := by
  by_cases here : j = i
  · rw [here, set_self]
    exact same
  · rw [set_of_ne here]

end DetectInfo

/-- `strncpy`: `n` bytes, those of the string up to its end and zeros behind them. -/
def strncpy (dest : Vector UInt8 120) (src : List UInt8) (n : Nat) : Vector UInt8 120 :=
  Vector.ofFn fun i => if i < n then ((src.takeWhile (· ≠ 0))[i.val]?).getD 0 else dest[i]

/-- Where a thread stands in `update_thread_time`: outside; before the test of the loop, the comparison
in it, the writing of the time that it is left with; before the test of the capacity, the taking of the
lock; behind the lock, before each of the writes to the new entry, and before `++real_size`, the return
and the end of the lock. -/
inductive Phase where
  | idle
  | looping (i : Nat)
  | comparing (i : Nat)
  | refreshing (i : Nat)
  | testing
  | locking
  | naming
  | describing
  | stamping
  | counting
  deriving DecidableEq, Repr

/-- A child of the daemon. -/
structure Child where
  info : DetectInfo
  phase : Int → Phase
  /-- The argument of a thread's call. -/
  desc : Int → List UInt8
  /-- The thread that has `s_mutex`. -/
  owner : Option Int
  /-- It was not killed by an access to an entry without memory. -/
  running : Bool

/-- What a step does that others see: the entry it writes, and the value with which its call returns. -/
structure Effect where
  wrote : Option Nat
  returned : Option Int

/-- What a child finds: whether `g_detectInfo` is set, and which entries behind the array have memory. -/
structure Process where
  attached : Bool
  mapped : Nat → Bool

namespace Child

/-- The thread goes on. -/
def goTo (child : Child) (thread : Int) (phase : Phase) : Child :=
  { child with phase := Function.update child.phase thread phase }

/-- The entry is read or written if it has memory, and else the child is killed. -/
def access (process : Process) (child : Child) (i : Nat) (next : Child) (effect : Effect) :
    Child × Effect :=
  if i < THREAD_INFO_ARRAY ∨ process.mapped i then (next, effect)
  else ({ child with running := false }, { effect with returned := none })

/-- The next statement of a thread in `update_thread_time`; `now` is the time that it reads, if it reads
one. -/
def updateThreadTime (process : Process) (child : Child) (thread : Int) (now : Nat) :
    Option (Child × Effect) :=
  let info := child.info
  let n := info.realSize
  match child.phase thread with
  | .idle => none
  | .looping i =>
    some (child.goTo thread (if i < n then .comparing i else .testing), ⟨none, none⟩)
  | .comparing i =>
    let next := if (info.infos i).threadId = thread then .refreshing i else .looping ((i + 1) % 2 ^ 32)
    some (child.access process i (child.goTo thread next) ⟨none, none⟩)
  | .refreshing i =>
    let info := info.set i { info.infos i with recordTime := now }
    some (child.access process i ({ child with info := info }.goTo thread .idle) ⟨some i, some 0⟩)
  | .testing =>
    if n ≥ THREAD_INFO_ARRAY then some (child.goTo thread .idle, ⟨none, some (-1)⟩)
    else some (child.goTo thread .locking, ⟨none, none⟩)
  | .locking =>
    match child.owner with
    | none => some ({ child with owner := some thread }.goTo thread .naming, ⟨none, none⟩)
    | some _ => none
  | .naming =>
    let info := info.set n { info.infos n with threadId := thread }
    some (child.access process n ({ child with info := info }.goTo thread .describing) ⟨some n, none⟩)
  | .describing =>
    let desc := child.desc thread
    let copied := strncpy (info.infos n).threadDesc desc (if 120 > desc.length then desc.length else 120)
    let info := info.set n { info.infos n with threadDesc := copied }
    some (child.access process n ({ child with info := info }.goTo thread .stamping) ⟨some n, none⟩)
  | .stamping =>
    let info := info.set n { info.infos n with recordTime := now }
    some (child.access process n ({ child with info := info }.goTo thread .counting) ⟨some n, none⟩)
  | .counting =>
    let info := { info with realSize := (n + 1) % 2 ^ 32 }
    some ({ child with info := info, owner := none }.goTo thread .idle, ⟨none, some 0⟩)

/-- A child after `reset_real_size`: no thread of it has called anything. -/
def start (info : DetectInfo) : Child :=
  { info := info.resetRealSize
    phase := fun _ => .idle
    desc := fun _ => []
    owner := none
    running := true }

/-- The first child. -/
def new (info : DetectInfo) : Child := start info.initShm

inductive Label where
  /-- The thread calls `update_thread_time`. -/
  | call (thread : Int) (desc : List UInt8)
  /-- A thread goes on in its call. -/
  | run (thread : Int) (now : Nat)
  | setDetectInterval (interval : Nat)
  /-- The child is gone and the parent forks another one. -/
  | fork

/-- One step. -/
def move (process : Process) (child : Child) : Label → Option (Child × Effect)
  | .call thread desc =>
    if child.running ∧ child.phase thread = .idle then
      if process.attached then
        some ({ child with desc := Function.update child.desc thread desc }.goTo thread (.looping 0),
          ⟨none, none⟩)
      else some (child, ⟨none, some (-1)⟩)
    else none
  | .run thread now => if child.running then child.updateThreadTime process thread now else none
  | .setDetectInterval interval =>
    some (if process.attached then { child with info := child.info.setDetectInterval interval } else child,
      ⟨none, none⟩)
  | .fork => if process.attached then some (start child.info, ⟨none, none⟩) else none

end Child

end Wyze.Daemon
