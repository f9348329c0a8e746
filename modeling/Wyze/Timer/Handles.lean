/-
**What a timer's own operations return.**

A handle stays after its timer has fired or was cancelled. `start` is when a timer was last armed: made,
refreshed, reset from now, or set anew by an expiry pass; `reset` with `from_now` false finds it again
through an unsigned subtraction.

* `sub64_add64`: the subtraction undoes the addition.
* `Starts.next`: the due time of an armed timer is its start and its period.
* `lawful_iff`: when a call says whether the timer was armed and arms it as asked.
* `handles_iff`: the runs in which every call does.
-/
import Wyze.Timer.Expiry

namespace Wyze

/-- Subtracting undoes adding, also where the sum wraps. -/
theorem sub64_add64 {start : Nat} (fits : start < 2 ^ 64) (ms : Nat) :
    sub64 (add64 start ms) ms = start := by
  unfold sub64 add64
  omega

/-- The reply is a true. -/
def Reply.succeeded {γ : Type} : Reply γ → Bool
  | .returned ok _ => ok
  | _ => false

namespace TimerManager

open Labelled

variable {γ : Type} {manager next : TimerManager γ} {addr : Addr}

/-- The timer is armed with that period and due time. -/
def ArmedWith (manager : TimerManager γ) (addr : Addr) (ms due : Nat) : Prop :=
  addr ∈ manager.timers ∧
    ∃ timer, manager.heap addr = some timer ∧ timer.ms = ms ∧ timer.next = due

/-! ### The operations of a timer -/

theorem mem_iff_isSome (well : manager.WellFormed) {self : Timer γ}
    (found : manager.heap addr = some self) : addr ∈ manager.timers ↔ self.cb.isSome := by
  constructor
  · intro inSet
    obtain ⟨_, found', set⟩ := (well.live addr).mp (Or.inl inSet)
    rw [found] at found'
    cases found'
    exact set
  · exact mem_of_set well found

theorem cancel_unarmed (well : manager.WellFormed) {self : Timer γ}
    (found : manager.heap addr = some self) (outside : addr ∉ manager.timers) :
    manager.cancel addr self = (manager, .returned false false) := by
  rw [mem_iff_isSome well found] at outside
  rw [cancel, if_neg outside]

theorem cancel_armed (well : manager.WellFormed) {self : Timer γ}
    (found : manager.heap addr = some self) (inSet : addr ∈ manager.timers) :
    ∃ next, manager.cancel addr self = (next, .returned true false) ∧ next.WellFormed ∧
      addr ∉ next.timers ∧ ∀ other, other ≠ addr → next.heap other = manager.heap other := by
  have set := (mem_iff_isSome well found).mp inSet
  obtain ⟨next, ok, cancelled, kept, _, gone⟩ := cancel_spec well found
  rw [cancelled]
  rw [cancel, if_pos set] at cancelled
  dsimp only at cancelled
  split at cancelled
  · cases cancelled
  · rename_i erased search
    cases cancelled
    refine ⟨_, rfl, kept, ?_, fun other distinct => ?_⟩
    · rw [mem_iff_isSome kept (gone rfl)]
      exact Bool.false_ne_true
    · obtain ⟨rest, _, rfl⟩ := Option.map_eq_some_iff.mp search
      exact store_heap_of_ne distinct _

theorem isNone_of_not_mem (well : manager.WellFormed) {self : Timer γ}
    (found : manager.heap addr = some self) (outside : addr ∉ manager.timers) :
    self.cb.isNone = true := by
  rw [mem_iff_isSome well found, Option.not_isSome_iff_eq_none] at outside
  rw [outside, Option.isNone_none]

theorem not_isNone_of_mem (well : manager.WellFormed) {self : Timer γ}
    (found : manager.heap addr = some self) (inSet : addr ∈ manager.timers) :
    ¬ self.cb.isNone = true := by
  obtain ⟨cb, set⟩ := Option.isSome_iff_exists.mp ((mem_iff_isSome well found).mp inSet)
  rw [set, Option.isNone_some]
  exact Bool.false_ne_true

theorem refresh_unarmed (well : manager.WellFormed) {self : Timer γ}
    (found : manager.heap addr = some self) (outside : addr ∉ manager.timers) (now : Nat) :
    manager.refresh addr self now = (manager, .returned false false) := by
  rw [refresh, if_pos (isNone_of_not_mem well found outside)]

theorem refresh_armed (well : manager.WellFormed) {self : Timer γ}
    (found : manager.heap addr = some self) (inSet : addr ∈ manager.timers) (now : Nat) :
    ∃ next, manager.refresh addr self now = (next, .returned true false) ∧ next.WellFormed ∧
      next.ArmedWith addr self.ms (add64 now self.ms) ∧
      ∀ other, other ≠ addr → next.heap other = manager.heap other := by
  have set := not_isNone_of_mem well found inSet
  obtain ⟨set', rest, erased, _⟩ := findErase_of_set well found set
  obtain ⟨next, ok, refreshed, kept, _⟩ := refresh_spec well found now
  rw [refreshed]
  rw [refresh, if_neg set] at refreshed
  simp only [erased] at refreshed
  cases refreshed
  exact ⟨_, rfl, kept, ⟨mem_of_set kept (store_heap_self _) set', _, store_heap_self _, rfl, rfl⟩,
    fun other distinct => store_heap_of_ne distinct _⟩

/-- `reset` to the period that the timer has returns at once. -/
theorem reset_same {self : Timer γ} (now : Nat) :
    manager.reset addr self self.ms false now = (manager, .returned true false) := by
  rw [reset, if_pos ⟨rfl, rfl⟩]

theorem reset_unarmed (well : manager.WellFormed) {self : Timer γ}
    (found : manager.heap addr = some self) (outside : addr ∉ manager.timers) {ms : Nat}
    {fromNow : Bool} (other : ¬ (ms = self.ms ∧ fromNow = false)) (now : Nat) :
    manager.reset addr self ms fromNow now = (manager, .returned false false) := by
  rw [reset, if_neg other, if_pos (isNone_of_not_mem well found outside)]

theorem reset_armed (well : manager.WellFormed) {self : Timer γ}
    (found : manager.heap addr = some self) (inSet : addr ∈ manager.timers) {ms : Nat}
    {fromNow : Bool} (other : ¬ (ms = self.ms ∧ fromNow = false)) (now : Nat) :
    ∃ next atFront, manager.reset addr self ms fromNow now = (next, .returned true atFront) ∧
      next.WellFormed ∧
      next.ArmedWith addr ms (add64 (if fromNow then now else sub64 self.next self.ms) ms) ∧
      ∀ other, other ≠ addr → next.heap other = manager.heap other := by
  have set := not_isNone_of_mem well found inSet
  obtain ⟨set', rest, erased, _⟩ := findErase_of_set well found set
  obtain ⟨next, ok, atFront, wasReset, kept, _⟩ := reset_spec well found ms fromNow now
  rw [wasReset]
  rw [reset, if_neg other, if_neg set] at wasReset
  simp only [erased] at wasReset
  cases wasReset
  exact ⟨_, _, rfl, kept, ⟨mem_of_set kept (store_heap_self _) set', _, store_heap_self _, rfl, rfl⟩,
    fun other distinct => store_heap_of_ne distinct _⟩

/-! ### Starts -/

/-- A manager beside the time at which each timer was last armed. -/
structure Record (γ : Type) where
  manager : TimerManager γ
  start : Addr → Nat

/-- What is seen of a call: the manager and the starts before it, its reply, and the manager after it. -/
structure Seen (γ : Type) where
  before : Record γ
  call : Call γ
  reply : Reply γ
  after : TimerManager γ

/-- The reading of the clock that a call takes. -/
def Call.clock : Call γ → Nat
  | .addTimer _ _ _ now _ => now
  | .cancel _ => 0
  | .refresh _ now => now
  | .reset _ _ _ now => now
  | .getNextTimer now => now
  | .listExpiredCb now _ => now

/-- The timers that a call arms start at its reading; a timer that fires and does not recur is armed no
more. -/
def starts (start : Addr → Nat) (label : Call γ) (reply : Reply γ) : Addr → Nat :=
  match label with
  | .addTimer _ _ _ now addr => Function.update start addr now
  | .refresh addr now => if reply.succeeded then Function.update start addr now else start
  | .reset addr _ fromNow now =>
    if reply.succeeded && fromNow then Function.update start addr now else start
  | .listExpiredCb now _ => fun addr => if addr ∈ reply.fired then now else start addr
  | .cancel _ | .getNextTimer _ => start

/-- A call at a 64-bit reading of the clock. -/
def step (record : Record γ) (label : Call γ) : Option (Record γ × Seen γ) :=
  if label.clock < 2 ^ 64 then
    (record.manager.call label).map fun called =>
      ({ manager := called.1, start := starts record.start label called.2 },
        { before := record, call := label, reply := called.2, after := called.1 })
  else none

def Record.new (now : Nat) : Record γ := { manager := TimerManager.new now, start := fun _ => 0 }

/-- The due time of an armed timer is its start and its period. -/
structure Starts (record : Record γ) : Prop where
  well : record.manager.WellFormed
  next : ∀ addr self, record.manager.heap addr = some self → addr ∈ record.manager.timers →
    self.next = add64 (record.start addr) self.ms ∧ record.start addr < 2 ^ 64

theorem Starts.new (now : Nat) : Starts (Record.new now : Record γ) where
  well := new_wellFormed now
  next := by rintro _ _ ⟨⟩

/-- An object that is as it was is in the set if it was. -/
theorem mem_congr (well : manager.WellFormed) (well' : next.WellFormed)
    (same : next.heap addr = manager.heap addr) : addr ∈ next.timers ↔ addr ∈ manager.timers := by
  have was := (or_iff_left List.not_mem_nil).symm.trans (well.live addr)
  have isNow := (or_iff_left List.not_mem_nil).symm.trans (well'.live addr)
  rw [was, isNow, Live, Live, same]

variable {record : Record γ}

/-- A timer is armed and starts. -/
theorem Starts.arm (starts : Starts record) (well : next.WellFormed) {ms at_ : Nat}
    (armed : next.ArmedWith addr ms (add64 at_ ms)) (fits : at_ < 2 ^ 64)
    (frame : ∀ other, other ≠ addr → next.heap other = record.manager.heap other) :
    Starts { manager := next, start := Function.update record.start addr at_ } where
  well := well
  next := by
    intro other self found inSet
    dsimp only at found inSet ⊢
    by_cases same : other = addr
    · subst same
      obtain ⟨_, timer, found', rfl, due⟩ := armed
      rw [found] at found'
      cases found'
      rw [Function.update_self]
      exact ⟨due, fits⟩
    · rw [Function.update_of_ne same]
      rw [frame other same] at found
      exact starts.next other self found
        ((mem_congr starts.well well (frame other same)).mp inSet)

/-- The other timers stay as they are. -/
theorem Starts.keep (starts : Starts record) (well : next.WellFormed)
    (frame : ∀ addr ∈ next.timers, next.heap addr = record.manager.heap addr) :
    Starts { record with manager := next } where
  well := well
  next := by
    intro addr self found inSet
    have same := frame addr inSet
    exact starts.next addr self (same.symm.trans found)
      ((mem_congr starts.well well same).mp inSet)

/-- The timers that fire are the expired ones of the set. -/
theorem mem_fired (well : manager.WellFormed) (now : Nat) (tmp : Addr) (addr : Addr) :
    addr ∈ (manager.listExpiredCb now tmp).2.map Prod.fst ↔
      addr ∈ manager.timers ∧
        manager.expired (manager.detectClockRollover now).2 now addr = true := by
  obtain ⟨taken, consistent, _, pass⟩ := listExpiredCb_eq well now tmp
  obtain ⟨_, _, names, _⟩ := expireLoop_spec now _ consistent
  rw [pass, names, List.mem_filter]

/-- An expiry pass starts the timers anew that it leaves armed. -/
theorem Starts.pass (starts : Starts record) {now : Nat} (fits : now < 2 ^ 64) (tmp : Addr) :
    Starts
      { manager := (record.manager.listExpiredCb now tmp).1
        start := fun addr =>
          if addr ∈ (record.manager.listExpiredCb now tmp).2.map Prod.fst then now
          else record.start addr } where
  well := (listExpiredCb_spec starts.well now tmp).1
  next := by
    intro addr self found inSet
    dsimp only at found inSet ⊢
    obtain ⟨was, timer, found', again⟩ := (mem_listExpiredCb starts.well now tmp addr).mp inSet
    rw [listExpiredCb_heap starts.well, found', Option.map_some, afterPass] at found
    by_cases fires : record.manager.expired (record.manager.detectClockRollover now).2 now addr = true
    · rw [if_pos ⟨was, fires⟩, Timer.expire, if_pos (again fires)] at found
      cases found
      rw [if_pos ((mem_fired starts.well now tmp addr).mpr ⟨was, fires⟩)]
      exact ⟨rfl, fits⟩
    · rw [if_neg fun both => fires both.2] at found
      cases found
      rw [if_neg fun fired => fires ((mem_fired starts.well now tmp addr).mp fired).2]
      exact starts.next addr self found' was

/-! ### Calls -/

/-- The call says whether the timer is armed, and changes nothing if it says no. -/
def Seen.Answers (seen : Seen γ) (addr : Addr) : Prop :=
  (seen.reply.succeeded = true ↔ addr ∈ seen.before.manager.timers) ∧
    (seen.reply.succeeded = false → seen.after = seen.before.manager)

/-- What a timer's own operations are to do: `cancel`, `refresh` and `reset` say whether the timer is
armed; `refresh` arms it for its period from now, `reset` for the period `ms` from now or from its
start. -/
def Seen.Lawful (seen : Seen γ) : Prop :=
  match seen.call with
  | .cancel addr => seen.Answers addr
  | .refresh addr now => seen.Answers addr ∧ (seen.reply.succeeded = true →
      ∀ self, seen.before.manager.heap addr = some self →
        seen.after.ArmedWith addr self.ms (now + self.ms))
  | .reset addr ms fromNow now => seen.Answers addr ∧ (seen.reply.succeeded = true →
      seen.after.ArmedWith addr ms ((if fromNow then now else seen.before.start addr) + ms))
  | _ => True

/-- The due time that is asked for fits into 64 bits, and a timer that is not armed is not reset to the
period that it has with `from_now` false. -/
def Regular (record : Record γ) : Call γ → Prop
  | .refresh addr now => ∀ self, record.manager.heap addr = some self →
      addr ∈ record.manager.timers → now + self.ms < 2 ^ 64
  | .reset addr ms fromNow now => ∀ self, record.manager.heap addr = some self →
      if addr ∈ record.manager.timers then
        (if fromNow then now else record.start addr) + ms < 2 ^ 64
      else ¬ (ms = self.ms ∧ fromNow = false)
  | _ => True

instance : ∀ (record : Record γ) (label : Call γ), Decidable (Regular record label)
  | record, .refresh addr now => inferInstanceAs (Decidable (∀ self ∈ record.manager.heap addr,
      addr ∈ record.manager.timers → now + self.ms < 2 ^ 64))
  | record, .reset addr ms fromNow now => inferInstanceAs (Decidable (∀ self ∈ record.manager.heap addr,
      if addr ∈ record.manager.timers then
        (if fromNow then now else record.start addr) + ms < 2 ^ 64
      else ¬ (ms = self.ms ∧ fromNow = false)))
  | _, .addTimer .. | _, .cancel _ | _, .getNextTimer _ | _, .listExpiredCb .. => .isTrue trivial

/-- A timer that was armed with a sum has the plain sum as its due time when this fits. -/
theorem ArmedWith.plain_iff {ms at_ : Nat} (armed : next.ArmedWith addr ms (add64 at_ ms)) :
    next.ArmedWith addr ms (at_ + ms) ↔ at_ + ms < 2 ^ 64 := by
  obtain ⟨inSet, timer, found, period, due⟩ := armed
  rw [← add64_eq_iff, ← due]
  constructor
  · rintro ⟨_, timer', found', _, due'⟩
    rw [found] at found'
    cases found'
    exact due'
  · exact fun same => ⟨inSet, timer, found, period, same⟩

theorem answers_true {seen : Seen γ} (succeeded : seen.reply.succeeded = true)
    (inSet : addr ∈ seen.before.manager.timers) : seen.Answers addr :=
  ⟨iff_of_true succeeded inSet,
    fun failed => absurd (failed.symm.trans succeeded) Bool.false_ne_true⟩

theorem answers_false {seen : Seen γ} (failed : seen.reply.succeeded = false)
    (outside : addr ∉ seen.before.manager.timers) (same : seen.after = seen.before.manager) :
    seen.Answers addr := by
  refine ⟨iff_of_false ?_ outside, fun _ => same⟩
  rw [failed]
  exact Bool.false_ne_true

/-- **`cancel`.** -/
theorem Starts.cancel (starts : Starts record) {self : Timer γ}
    (found : record.manager.heap addr = some self) {after : TimerManager γ} {reply : Reply γ}
    (cancelled : record.manager.cancel addr self = (after, reply)) :
    Starts { record with manager := after } ∧
      Seen.Lawful { before := record, call := .cancel addr, reply := reply, after := after } := by
  by_cases inSet : addr ∈ record.manager.timers
  · obtain ⟨_, succeeded, well, gone, frame⟩ := cancel_armed starts.well found inSet
    rw [succeeded] at cancelled
    cases cancelled
    refine ⟨starts.keep well fun other member => frame other ?_, answers_true rfl inSet⟩
    exact fun same => gone (same ▸ member)
  · rw [cancel_unarmed starts.well found inSet] at cancelled
    cases cancelled
    exact ⟨starts, answers_false rfl inSet rfl⟩

/-- **`refresh`.** -/
theorem Starts.refresh (starts : Starts record) {self : Timer γ}
    (found : record.manager.heap addr = some self) {now : Nat} (fits : now < 2 ^ 64)
    {after : TimerManager γ} {reply : Reply γ}
    (refreshed : record.manager.refresh addr self now = (after, reply)) :
    Starts { manager := after, start := TimerManager.starts record.start (.refresh addr now) reply } ∧
      (Seen.Lawful { before := record, call := .refresh addr now, reply := reply, after := after } ↔
        Regular record (.refresh addr now)) := by
  by_cases inSet : addr ∈ record.manager.timers
  · obtain ⟨_, succeeded, well, armed, frame⟩ := refresh_armed starts.well found inSet now
    rw [succeeded] at refreshed
    cases refreshed
    refine ⟨starts.arm well armed fits frame, ?_⟩
    constructor
    · rintro ⟨_, asked⟩ self' found' _
      rw [found] at found'
      cases found'
      exact armed.plain_iff.mp (asked rfl self found)
    · refine fun regular => ⟨answers_true rfl inSet, fun _ self' found' => ?_⟩
      rw [found] at found'
      cases found'
      exact armed.plain_iff.mpr (regular self found inSet)
  · rw [refresh_unarmed starts.well found inSet] at refreshed
    cases refreshed
    refine ⟨starts, iff_of_true ⟨answers_false rfl inSet rfl, by rintro ⟨⟩⟩ ?_⟩
    exact fun _ _ member => absurd member inSet

/-- **`reset`** of an armed timer. -/
theorem Starts.reset_armed (starts : Starts record) {self : Timer γ}
    (found : record.manager.heap addr = some self) (inSet : addr ∈ record.manager.timers) {ms : Nat}
    {fromNow : Bool} {now : Nat} (fits : now < 2 ^ 64) {after : TimerManager γ} {reply : Reply γ}
    (wasReset : record.manager.reset addr self ms fromNow now = (after, reply)) :
    reply.succeeded = true ∧
      Starts
        { manager := after
          start := TimerManager.starts record.start (.reset addr ms fromNow now) reply } ∧
      after.ArmedWith addr ms (add64 (if fromNow then now else record.start addr) ms) := by
  obtain ⟨due, early⟩ := starts.next addr self found inSet
  by_cases same : ms = self.ms ∧ fromNow = false
  · obtain ⟨rfl, rfl⟩ := same
    rw [reset_same] at wasReset
    cases wasReset
    exact ⟨rfl, starts, inSet, self, found, rfl, due⟩
  · obtain ⟨_, _, succeeded, well, armed, frame⟩ :=
      TimerManager.reset_armed starts.well found inSet same now
    rw [succeeded] at wasReset
    cases wasReset
    rw [due, sub64_add64 early] at armed
    refine ⟨rfl, ?_, armed⟩
    cases fromNow with
    | true => exact starts.arm well armed fits frame
    | false =>
        have started := starts.arm well armed early frame
        rwa [if_neg Bool.false_ne_true, Function.update_eq_self] at started

/-- **`reset`.** -/
theorem Starts.reset (starts : Starts record) {self : Timer γ}
    (found : record.manager.heap addr = some self) {ms : Nat} {fromNow : Bool} {now : Nat}
    (fits : now < 2 ^ 64) {after : TimerManager γ} {reply : Reply γ}
    (wasReset : record.manager.reset addr self ms fromNow now = (after, reply)) :
    Starts
        { manager := after
          start := TimerManager.starts record.start (.reset addr ms fromNow now) reply } ∧
      (Seen.Lawful
          { before := record, call := .reset addr ms fromNow now, reply := reply, after := after } ↔
        Regular record (.reset addr ms fromNow now)) := by
  by_cases inSet : addr ∈ record.manager.timers
  · obtain ⟨succeeded, started, armed⟩ := starts.reset_armed found inSet fits wasReset
    refine ⟨started, ?_⟩
    constructor
    · rintro ⟨_, asked⟩ self' _
      rw [if_pos inSet]
      exact armed.plain_iff.mp (asked succeeded)
    · intro regular
      have short := regular self found
      rw [if_pos inSet] at short
      exact ⟨answers_true succeeded inSet, fun _ => armed.plain_iff.mpr short⟩
  · by_cases same : ms = self.ms ∧ fromNow = false
    · obtain ⟨rfl, rfl⟩ := same
      rw [reset_same] at wasReset
      cases wasReset
      refine ⟨starts, iff_of_false ?_ ?_⟩
      · exact fun lawful => inSet (lawful.1.1.mp rfl)
      · intro regular
        have other := regular self found
        rw [if_neg inSet] at other
        exact other ⟨rfl, rfl⟩
    · rw [reset_unarmed starts.well found inSet same] at wasReset
      cases wasReset
      refine ⟨starts, iff_of_true ⟨answers_false rfl inSet rfl, by rintro ⟨⟩⟩ ?_⟩
      intro self' found'
      rw [found] at found'
      cases found'
      rw [if_neg inSet]
      exact same

/-- **A call** keeps the starts, and is lawful exactly when it is regular. -/
theorem lawful_iff {label : Call γ} {after : Record γ × Seen γ} (starts : Starts record)
    (stepped : step record label = some after) :
    Starts after.1 ∧ (after.2.Lawful ↔ Regular record label) := by
  unfold step at stepped
  split at stepped
  · rename_i fits
    obtain ⟨⟨next, reply⟩, called, rfl⟩ := Option.map_eq_some_iff.mp stepped
    cases label with
    | addTimer ms cb recurring now addr =>
        refine ⟨?_, iff_of_true trivial trivial⟩
        obtain ⟨fresh, added⟩ := addTimer_of_call called
        obtain ⟨well, _⟩ := addTimer_spec starts.well fresh ms cb recurring now
        cases added
        refine starts.arm well ⟨?_, _, store_heap_self _, rfl, rfl⟩ fits
          fun other distinct => store_heap_of_ne distinct _
        exact mem_of_set well (store_heap_self _) rfl
    | cancel addr =>
        obtain ⟨self, found, cancelled⟩ := Option.map_eq_some_iff.mp called
        obtain ⟨kept, lawful⟩ := starts.cancel found cancelled
        exact ⟨kept, iff_of_true lawful trivial⟩
    | refresh addr now =>
        obtain ⟨self, found, refreshed⟩ := Option.map_eq_some_iff.mp called
        exact starts.refresh found fits refreshed
    | reset addr ms fromNow now =>
        obtain ⟨self, found, wasReset⟩ := Option.map_eq_some_iff.mp called
        exact starts.reset found fits wasReset
    | getNextTimer now =>
        cases called
        have well := starts.well
        exact ⟨starts.keep ⟨well.ordered, well.once, well.apart, well.live⟩ fun _ _ => rfl,
          iff_of_true trivial trivial⟩
    | listExpiredCb now tmp =>
        cases called
        exact ⟨starts.pass fits tmp, iff_of_true trivial trivial⟩
  · cases stepped

/-- **Handles of timers.** In a run of calls every `cancel`, `refresh` and `reset` says whether its timer
is armed, changes nothing if it says no, and else arms it as asked, if and only if no timer that is not
armed is reset to the period it has with `from_now` false, and every due time that is asked for fits
into 64 bits. -/
theorem handles_iff (start : Nat) (calls : List (Call γ)) {final : Record γ} {outputs : List (Seen γ)}
    (executed : trace step (Record.new start) calls = some (final, outputs)) :
    (∀ seen ∈ outputs, seen.Lawful) ↔ Meets step Regular (Record.new start) calls :=
  trace_outputs_iff (fun _ _ _ before stepped => lawful_iff before stepped) calls (Starts.new start)
    executed

/-- A recurring timer fires at 5 and is reset to 8 from its start: it is due at 13. -/
theorem handles_recurring :
    ∃ final outputs, trace step (Record.new 0 : Record String)
        [.addTimer 5 "often" true 0 3, .listExpiredCb 5 9, .reset 3 8 false 6] =
          some (final, outputs) ∧
      (∀ seen ∈ outputs, seen.Lawful) ∧ final.manager.ArmedWith 3 8 13 := by
  have executed : trace step (Record.new 0 : Record String)
      [.addTimer 5 "often" true 0 3, .listExpiredCb 5 9, .reset 3 8 false 6] = some (_, _) := rfl
  exact ⟨_, _, executed, (handles_iff 0 _ executed).mpr (by decide), by decide, _, rfl, rfl, rfl⟩

/-- **A cancelled timer is reset**: the call returns true, and the timer stays what it is. And a timer
whose due time wraps is due before it is refreshed. -/
theorem cancelled_reset :
    (∃ final outputs, trace step (Record.new 0 : Record String)
        [.addTimer 5 "once" false 0 3, .cancel 3, .reset 3 5 false 1] = some (final, outputs) ∧
      ∃ seen ∈ outputs, seen.call = .reset 3 5 false 1 ∧ seen.reply = .returned true false ∧
        3 ∉ seen.before.manager.timers ∧ 3 ∉ seen.after.timers) ∧
    ∃ final outputs, trace step (Record.new 0 : Record String)
        [.addTimer (2 ^ 64 - 1) "late" false 0 7, .refresh 7 1000] = some (final, outputs) ∧
      ∃ seen ∈ outputs, seen.call = .refresh 7 1000 ∧ seen.reply = .returned true false ∧
        seen.after.ArmedWith 7 (2 ^ 64 - 1) 999 := by
  refine ⟨⟨_, _, rfl, _, List.mem_cons_of_mem _ (List.mem_cons_of_mem _ List.mem_cons_self), rfl, rfl,
    by decide, by decide⟩, ⟨_, _, rfl, _, List.mem_cons_of_mem _ List.mem_cons_self, rfl, rfl,
    by decide, _, rfl, rfl, rfl⟩⟩

end TimerManager

end Wyze
