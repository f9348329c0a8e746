/-
**The timer manager.**

`Timer` and `TimerManager` follow the source's classes. Timers are objects on a heap, named by their
addresses; `TimerManager.timers` is the set of addresses in the order of `Comparator`, which reads
the objects. A new timer gets an address at which no timer was created before. A clock reading is
an argument of the operation that takes it, and `uint64_t` arithmetic wraps.

`TimerManager.call` is one operation of the manager or of one of its timers; `Reply.eraseEnd` is the
undefined `erase(end())`.
-/
import Mathlib.Algebra.Group.Int.Defs
import Mathlib.Algebra.Group.Nat.Defs
import Mathlib.Data.Prod.Lex
import Mathlib.Logic.Function.Basic
import Wyze.Lib.OrderedSet
import Wyze.Lib.Words

namespace Wyze

/-- The address of a timer object. -/
abbrev Addr := Nat

/-- A timer with callbacks from `γ`; `cb` is `none` once the timer was cancelled or has fired for
the last time. -/
structure Timer (γ : Type*) where
  ms : Nat
  cb : Option γ
  recurring : Bool
  next : Nat
deriving DecidableEq

namespace Timer

variable {γ : Type*}

/-- The constructor reads the clock. -/
def new (ms : Nat) (cb : γ) (recurring : Bool) (now : Nat) : Timer γ :=
  { ms := ms, cb := some cb, recurring := recurring, next := add64 now ms }

/-- `Timer::Comparator` on two pointers, each null or a due time with an address. -/
def Comparator : Option (Nat × Addr) → Option (Nat × Addr) → Bool
  | none, none => false
  | none, some _ => true
  | some _, none => false
  | some lhs, some rhs =>
    if lhs.1 < rhs.1 then true
    else if rhs.1 < lhs.1 then false
    else decide (lhs.2 < rhs.2)

/-- On objects the comparator is the lexicographic order of due time and address. -/
theorem comparator_some (lhs rhs : Nat × Addr) :
    Comparator (some lhs) (some rhs) = decide (toLex lhs < toLex rhs) := by
  have order : toLex lhs < toLex rhs ↔ lhs.1 < rhs.1 ∨ lhs.1 = rhs.1 ∧ lhs.2 < rhs.2 :=
    Prod.Lex.toLex_lt_toLex
  rw [decide_eq_decide.mpr order, Comparator]
  split
  · rename_i earlier
    exact (decide_eq_true (Or.inl earlier)).symm
  · rename_i notEarlier
    split
    · rename_i later
      exact (decide_eq_false (by omega)).symm
    · rename_i notLater
      have same : lhs.1 = rhs.1 := by omega
      exact decide_eq_decide.mpr ⟨fun smaller => Or.inr ⟨same, smaller⟩,
        fun order => (order.resolve_left notEarlier).2⟩

end Timer

/-- `timers` is the ordered set, `tickled` the flag that one insertion at the front was announced and
not yet seen by `getNextTimer`. -/
structure TimerManager (γ : Type*) where
  heap : Addr → Option (Timer γ)
  timers : List Addr
  tickled : Bool
  previousTime : Nat

/-- What an operation shows: `added` and `returned` tell whether `onTimerInsertdAtFront` was called,
`expired` lists the collected callbacks, each with the timer it came from. -/
inductive Reply (γ : Type*) where
  | added (atFront : Bool)
  | returned (ok atFront : Bool)
  | next (ms : Nat)
  | expired (cbs : List (Addr × Option γ))
  | eraseEnd
deriving DecidableEq

/-- The timers whose callbacks an operation hands out. -/
def Reply.fired {γ : Type*} : Reply γ → List Addr
  | .expired cbs => cbs.map Prod.fst
  | _ => []

namespace TimerManager

variable {γ : Type*}

/-- The constructor reads the clock. -/
def new (now : Nat) : TimerManager γ :=
  { heap := fun _ => none, timers := [], tickled := false, previousTime := now }

/-- A pointer as the comparator reads it. -/
def pointee (manager : TimerManager γ) (addr : Addr) : Option (Nat × Addr) :=
  (manager.heap addr).map fun timer => (timer.next, addr)

/-- The order of the set: the due time, then the address. -/
def key (manager : TimerManager γ) (addr : Addr) : Nat ×ₗ Nat :=
  toLex (((manager.heap addr).map Timer.next).getD 0, addr)

/-- Write a timer object. -/
def store (manager : TimerManager γ) (addr : Addr) (timer : Timer γ) : TimerManager γ :=
  { manager with heap := Function.update manager.heap addr (some timer) }

/-- `m_timers.erase(m_timers.find(timer))`; `none` when `find` returns `end()`. -/
def findErase (manager : TimerManager γ) (addr : Addr) : Option (TimerManager γ) :=
  (OrderedSet.erase manager.key (manager.key addr) manager.timers).map fun rest =>
    { manager with timers := rest }

/-- `m_timers.insert(timer)`. -/
def insert (manager : TimerManager γ) (addr : Addr) : TimerManager γ :=
  { manager with timers := OrderedSet.insert manager.key addr manager.timers }

/-- The protected `addTimer`: insert, and announce a timer that stands at the front unless an earlier
announcement is still unseen. -/
def insertTimer (manager : TimerManager γ) (addr : Addr) : TimerManager γ × Bool :=
  let inserted := manager.insert addr
  let atFront := (inserted.timers.head? == some addr) && !manager.tickled
  ({ inserted with tickled := manager.tickled || atFront }, atFront)

/-- `addTimer` with the address of the new object. -/
def addTimer (manager : TimerManager γ) (ms : Nat) (cb : γ) (recurring : Bool) (now : Nat)
    (addr : Addr) : TimerManager γ × Reply γ :=
  let (added, atFront) := (manager.store addr (Timer.new ms cb recurring now)).insertTimer addr
  (added, .added atFront)

/-- `Timer::cancel` of the object `self` at `addr`. -/
def cancel (manager : TimerManager γ) (addr : Addr) (self : Timer γ) :
    TimerManager γ × Reply γ :=
  if self.cb.isSome then
    let cleared := manager.store addr { self with cb := none }
    match cleared.findErase addr with
    | none => (cleared, .eraseEnd)
    | some erased => (erased, .returned true false)
  else (manager, .returned false false)

/-- `Timer::refresh`. -/
def refresh (manager : TimerManager γ) (addr : Addr) (self : Timer γ) (now : Nat) :
    TimerManager γ × Reply γ :=
  if self.cb.isNone then (manager, .returned false false)
  else
    match manager.findErase addr with
    | none => (manager, .returned false false)
    | some erased =>
      ((erased.store addr { self with next := add64 now self.ms }).insert addr,
        .returned true false)

/-- `Timer::reset`. -/
def reset (manager : TimerManager γ) (addr : Addr) (self : Timer γ) (ms : Nat) (fromNow : Bool)
    (now : Nat) : TimerManager γ × Reply γ :=
  if ms = self.ms ∧ fromNow = false then (manager, .returned true false)
  else if self.cb.isNone then (manager, .returned false false)
  else
    match manager.findErase addr with
    | none => (manager, .returned false false)
    | some erased =>
      let start := if fromNow then now else sub64 self.next self.ms
      let (added, atFront) :=
        (erased.store addr { self with ms := ms, next := add64 start ms }).insertTimer addr
      (added, .returned true atFront)

/-- The due time of the first timer. -/
def firstNext (manager : TimerManager γ) : Option Nat :=
  manager.timers.head?.map fun addr => ((manager.heap addr).map Timer.next).getD 0

/-- `getNextTimer`: the time to the first due time, `~0` without timers. -/
def getNextTimer (manager : TimerManager γ) (now : Nat) : TimerManager γ × Nat :=
  ({ manager with tickled := false },
    match manager.firstNext with
    | none => 2 ^ 64 - 1
    | some next => if now ≥ next then 0 else next - now)

/-- `detectClockRollover`: the clock went back by more than twelve hours. -/
def detectClockRollover (manager : TimerManager γ) (now : Nat) : TimerManager γ × Bool :=
  ({ manager with previousTime := now },
    decide (now < manager.previousTime) &&
      decide (now < sub64 manager.previousTime (1000 * 60 * 60 * 12)))

/-- The expired front of the set and the rest, cut behind the timers due at `now`; `tmp` is the
address of the temporary `now_timer`. -/
def splitExpired (manager : TimerManager γ) (rollover : Bool) (now : Nat) (tmp : Addr) :
    List Addr × List Addr :=
  if rollover then (manager.timers, [])
  else
    let dueNow := fun addr => decide (((manager.heap addr).map Timer.next).getD 0 = now)
    let bound := OrderedSet.lowerBound manager.key (toLex (now, tmp)) manager.timers
    (OrderedSet.below manager.key (toLex (now, tmp)) manager.timers ++ bound.takeWhile dueNow,
      bound.dropWhile dueNow)

/-- The loop over the expired timers: a recurring one is set anew, another one loses its callback. -/
def expireLoop (now : Nat) : List Addr → TimerManager γ →
    TimerManager γ × List (Addr × Option γ)
  | [], manager => (manager, [])
  | addr :: expired, manager =>
    match manager.heap addr with
    | none => expireLoop now expired manager
    | some timer =>
      let handled :=
        if timer.recurring then
          (manager.store addr { timer with next := add64 now timer.ms }).insert addr
        else manager.store addr { timer with cb := none }
      let (final, cbs) := expireLoop now expired handled
      (final, (addr, timer.cb) :: cbs)

/-- `listExpiredCb`. -/
def listExpiredCb (manager : TimerManager γ) (now : Nat) (tmp : Addr) :
    TimerManager γ × List (Addr × Option γ) :=
  match manager.firstNext with
  | none => (manager, [])
  | some first =>
    let (checked, rollover) := manager.detectClockRollover now
    if rollover = false ∧ first > now then (checked, [])
    else
      let (expired, rest) := checked.splitExpired rollover now tmp
      expireLoop now expired { checked with timers := rest }

/-- One operation, with the clock readings it takes. -/
inductive Call (γ : Type*) where
  | addTimer (ms : Nat) (cb : γ) (recurring : Bool) (now : Nat) (addr : Addr)
  | cancel (addr : Addr)
  | refresh (addr : Addr) (now : Nat)
  | reset (addr : Addr) (ms : Nat) (fromNow : Bool) (now : Nat)
  | getNextTimer (now : Nat)
  | listExpiredCb (now : Nat) (tmp : Addr)
deriving DecidableEq

/-- Execute one operation. A timer is created at a fresh address, and a member function needs its
object. -/
def call (manager : TimerManager γ) : Call γ → Option (TimerManager γ × Reply γ)
  | .addTimer ms cb recurring now addr =>
    if (manager.heap addr).isSome then none else some (manager.addTimer ms cb recurring now addr)
  | .cancel addr => (manager.heap addr).map fun self => manager.cancel addr self
  | .refresh addr now => (manager.heap addr).map fun self => manager.refresh addr self now
  | .reset addr ms fromNow now =>
    (manager.heap addr).map fun self => manager.reset addr self ms fromNow now
  | .getNextTimer now =>
    let (seen, ms) := manager.getNextTimer now
    some (seen, .next ms)
  | .listExpiredCb now tmp =>
    let (final, cbs) := manager.listExpiredCb now tmp
    some (final, .expired cbs)

end TimerManager

end Wyze
