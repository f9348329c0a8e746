/-
**A nearer deadline is announced.**

A waiter sleeps until the first due time that its `getNextTimer` saw. `Told seen manager` says that
every live timer due before `seen` has been announced: `m_tickled` is set. Only an insertion through
`insertTimer` brings such a timer, and there the test of the front sets the flag
(`insertTimer_told`); `refresh` and the expiry loop insert without the test, but they only postpone
(`Postpones`), because a due time is never more than the timer's period after a clock reading of the
past (`Started`). `nearer_announced` is the result for runs.
-/
import Wyze.Timer.Expiry

namespace Wyze

/-- The operation called `onTimerInsertdAtFront`. -/
def Reply.announces {γ : Type*} : Reply γ → Bool
  | .added atFront | .returned _ atFront => atFront
  | .next _ | .expired _ | .eraseEnd => false

namespace TimerManager

open Labelled

variable {γ : Type*} {manager next : TimerManager γ} {addr : Addr} {label : Call γ}
  {reply : Reply γ} {seen : Option Nat} {clock now : Nat}

/-! ### Clock readings and deadlines -/

/-- The clock reading of an operation. -/
def Call.reading : Call γ → Option Nat
  | .addTimer _ _ _ now _ | .refresh _ now | .reset _ _ true now | .getNextTimer now
  | .listExpiredCb now _ => some now
  | .cancel _ | .reset _ _ false _ => none

/-- The deadlines that the operation sets fit in 64 bits. -/
def Fits (manager : TimerManager γ) : Call γ → Prop
  | .addTimer ms _ _ now _ => now + ms < 2 ^ 64
  | .refresh addr now => ∀ self ∈ manager.heap addr, self.cb.isSome → now + self.ms < 2 ^ 64
  | .reset addr ms fromNow now => ∀ self ∈ manager.heap addr, self.cb.isSome →
      (if fromNow then now else self.next - self.ms) + ms < 2 ^ 64
  | .listExpiredCb now _ => ∀ addr ∈ manager.timers, ∀ self ∈ manager.heap addr,
      self.recurring → self.next ≤ now → now + self.ms < 2 ^ 64
  | .cancel _ | .getNextTimer _ => True

instance (manager : TimerManager γ) : ∀ label, Decidable (manager.Fits label)
  | .addTimer .. => inferInstanceAs (Decidable (_ < _))
  | .refresh .. | .reset .. => inferInstanceAs (Decidable (∀ self ∈ manager.heap _, _ → _ < _))
  | .listExpiredCb .. =>
    inferInstanceAs (Decidable (∀ addr ∈ manager.timers, ∀ self ∈ manager.heap addr, _ → _ → _ < _))
  | .cancel _ | .getNextTimer _ => .isTrue trivial

/-! ### The invariant -/

/-- The object was set at a clock reading of the past: its due time is its period later. -/
structure Started (clock : Nat) (timer : Timer γ) : Prop where
  period : timer.ms ≤ timer.next
  past : timer.next ≤ clock + timer.ms
  fits : timer.next < 2 ^ 64

/-- Every live timer due before `seen` has been announced; `none` is no due time at all. -/
def Told (seen : Option Nat) (manager : TimerManager γ) : Prop :=
  ∀ addr timer, manager.heap addr = some timer → timer.cb.isSome → (∀ W ∈ seen, timer.next < W) →
    manager.tickled = true

/-- **The invariant** with the last clock reading and the first due time last seen. -/
structure Announced (seen : Option Nat) (clock : Nat) (manager : TimerManager γ) : Prop where
  well : manager.WellFormed
  started : ∀ addr timer, manager.heap addr = some timer → Started clock timer
  synced : manager.previousTime ≤ clock
  told : manager.Told seen

theorem Started.mono {timer : Timer γ} (started : Started clock timer)
    (later : clock ≤ now) : Started now timer :=
  ⟨started.period, started.past.trans (Nat.add_le_add_right later _), started.fits⟩

/-- A timer set at a reading of the clock that has not gone back. -/
theorem started_of_set {timer : Timer γ} {start : Nat} (set : timer.next = add64 start timer.ms)
    (fits : start + timer.ms < 2 ^ 64) (past : start ≤ clock) : Started clock timer := by
  rw [add64_of_lt fits] at set
  exact ⟨by omega, by omega, by omega⟩

/-! ### Operations that only postpone -/

/-- No timer becomes live or is due earlier, and no announcement is taken back. -/
structure Postpones (manager next : TimerManager γ) : Prop where
  tickled : next.tickled = manager.tickled
  due : ∀ addr timer', next.heap addr = some timer' → timer'.cb.isSome →
    ∃ timer, manager.heap addr = some timer ∧ timer.cb.isSome ∧ timer.next ≤ timer'.next

theorem Postpones.told (postpones : manager.Postpones next) (told : manager.Told seen) :
    next.Told seen := by
  intro addr timer' found' set' nearer
  obtain ⟨timer, found, set, earlier⟩ := postpones.due addr timer' found' set'
  rw [postpones.tickled]
  exact told addr timer found set fun W isSeen => earlier.trans_lt (nearer W isSeen)

theorem Postpones.of_heap (tickled : next.tickled = manager.tickled)
    (same : next.heap = manager.heap) : manager.Postpones next :=
  ⟨tickled, fun addr timer found set => ⟨timer, by rw [← same]; exact found, set, le_rfl⟩⟩

/-- A write that leaves the timer no earlier than it was. -/
theorem Postpones.of_store {self timer : Timer γ} (tickled : next.tickled = manager.tickled)
    (stored : next.heap = (manager.store addr timer).heap) (found : manager.heap addr = some self)
    (kept : timer.cb.isSome → self.cb.isSome ∧ self.next ≤ timer.next) :
    manager.Postpones next := by
  refine ⟨tickled, fun other timer' found' set' => ?_⟩
  rw [stored] at found'
  by_cases isSelf : other = addr
  · subst isSelf
    obtain rfl : timer = timer' := Option.some.inj ((store_heap_self timer).symm.trans found')
    exact ⟨self, found, kept set'⟩
  · rw [store_heap_of_ne isSelf] at found'
    exact ⟨timer', found', set', le_rfl⟩

theorem findErase_eq (erased : manager.findErase addr = some next) :
    ∃ left, next = { manager with timers := left } := by
  obtain ⟨left, _, rfl⟩ := Option.map_eq_some_iff.mp erased
  exact ⟨left, rfl⟩

/-- What holds of the objects holds of them after a write of one for which it holds. -/
theorem forall_store {P : Timer γ → Prop} {timer : Timer γ} (here : P timer)
    (others : ∀ other self, manager.heap other = some self → P self) :
    ∀ other self, (manager.store addr timer).heap other = some self → P self := by
  intro other self found
  by_cases isSelf : other = addr
  · subst isSelf
    obtain rfl : timer = self := Option.some.inj ((store_heap_self timer).symm.trans found)
    exact here
  · rw [store_heap_of_ne isSelf] at found
    exact others other self found

/-! ### The test of the front -/

/-- The first timer is due no later than any other. -/
theorem head_due_le (well : manager.WellFormed) {first : Addr}
    (head : manager.timers.head? = some first) {other : Addr} (inSet : other ∈ manager.timers)
    {timer timer' : Timer γ} (found : manager.heap first = some timer)
    (found' : manager.heap other = some timer') : timer.next ≤ timer'.next := by
  obtain ⟨rest, split⟩ := List.head?_eq_some_iff.mp head
  rw [split] at inSet
  rcases List.mem_cons.mp inSet with rfl | later
  · rw [found] at found'
    cases found'
    exact le_rfl
  · have ordered := well.ordered
    rw [split] at ordered
    have below := ((List.pairwise_cons.mp ordered).1 other later).le
    rw [key, key, found, found', Prod.Lex.toLex_le_toLex] at below
    simp only [Option.map_some, Option.getD_some] at below
    omega

/-- **The test of the front announces.** When the other live timers have been told, `insertTimer`
leaves no timer untold. -/
theorem insertTimer_told (inserted : (manager.insert addr).WellFormed)
    (told : ∀ other timer, other ≠ addr → manager.heap other = some timer → timer.cb.isSome →
      (∀ W ∈ seen, timer.next < W) → manager.tickled = true) :
    (manager.insertTimer addr).1.Told seen := by
  intro other timer found set nearer
  have inSet : other ∈ (manager.insert addr).timers := mem_of_set inserted found set
  obtain ⟨first, head⟩ : ∃ first, (manager.insert addr).timers.head? = some first :=
    Option.isSome_iff_exists.mp (List.isSome_head?.mpr (List.ne_nil_of_mem inSet))
  obtain ⟨timer', found', set'⟩ :=
    (inserted.live first).mp (Or.inl (List.mem_of_head? head))
  have nearer' : ∀ W ∈ seen, timer'.next < W := fun W isSeen =>
    (head_due_le inserted head inSet found' found).trans_lt (nearer W isSeen)
  simp only [insertTimer, head, Bool.or_eq_true, Bool.and_eq_true, beq_iff_eq, Option.some.injEq]
  by_cases isSelf : first = addr
  · cases manager.tickled with
    | true => exact Or.inl rfl
    | false => exact Or.inr ⟨isSelf, rfl⟩
  · exact Or.inl (told first timer' isSelf found' set' nearer')

/-! ### One lemma per operation -/

theorem announced_new (start : Nat) : Announced none start (new start : TimerManager γ) where
  well := new_wellFormed start
  started := fun _ _ found => nomatch found
  synced := le_rfl
  told := fun _ _ found => nomatch found

theorem Announced.mono (announced : manager.Announced seen clock) (later : clock ≤ now) :
    manager.Announced seen now :=
  ⟨announced.well, fun addr timer found => (announced.started addr timer found).mono later,
    announced.synced.trans later, announced.told⟩

theorem addTimer_announced (announced : manager.Announced seen now)
    (fresh : manager.heap addr = none) (ms : Nat) (cb : γ) (recurring : Bool)
    (fits : now + ms < 2 ^ 64) :
    (manager.addTimer ms cb recurring now addr).1.Announced seen now := by
  have set : (Timer.new ms cb recurring now).cb.isSome := rfl
  have placed := insert_store_spec (allocate_spec announced.well fresh set) set
  rw [store_store] at placed
  refine
    { well := insertTimer_wellFormed placed
      started := forall_store (started_of_set rfl fits le_rfl) announced.started
      synced := announced.synced
      told := insertTimer_told placed fun other timer distinct found => ?_ }
  rw [store_heap_of_ne distinct] at found
  exact announced.told other timer found

/-- **`cancel`** leaves the flag and the clock, and writes at most the timer without its callback. -/
theorem cancel_leaves (manager : TimerManager γ) (addr : Addr) (self : Timer γ) :
    (manager.cancel addr self).1.tickled = manager.tickled ∧
      (manager.cancel addr self).1.previousTime = manager.previousTime ∧
      ((manager.cancel addr self).1.heap = manager.heap ∨
        (manager.cancel addr self).1.heap = (manager.store addr { self with cb := none }).heap) := by
  rw [cancel]
  split
  · dsimp only
    cases erased : (manager.store addr { self with cb := none }).findErase addr with
    | none => exact ⟨rfl, rfl, Or.inr rfl⟩
    | some rest =>
        obtain ⟨left, rfl⟩ := findErase_eq erased
        exact ⟨rfl, rfl, Or.inr rfl⟩
  · exact ⟨rfl, rfl, Or.inl rfl⟩

theorem cancel_announced (announced : manager.Announced seen clock) {self : Timer γ}
    (found : manager.heap addr = some self) :
    (manager.cancel addr self).1.Announced seen clock := by
  obtain ⟨next, ok, returned, kept, _⟩ := cancel_spec announced.well found
  obtain ⟨tickled, synced, heap⟩ := cancel_leaves manager addr self
  rw [returned] at tickled synced heap ⊢
  rcases heap with same | stored
  · refine ⟨kept, ?_, synced.trans_le announced.synced,
      (Postpones.of_heap tickled same).told announced.told⟩
    rw [show next.heap = manager.heap from same]
    exact announced.started
  · have was := announced.started addr self found
    have postpones : manager.Postpones next :=
      .of_store tickled stored found fun set => absurd set Bool.false_ne_true
    refine ⟨kept, ?_, synced.trans_le announced.synced, postpones.told announced.told⟩
    rw [show next.heap = _ from stored]
    exact forall_store ⟨was.period, was.past, was.fits⟩ announced.started

theorem refresh_announced (announced : manager.Announced seen now) {self : Timer γ}
    (found : manager.heap addr = some self) (fits : self.cb.isSome → now + self.ms < 2 ^ 64) :
    (manager.refresh addr self now).1.Announced seen now := by
  rw [refresh]
  split
  · exact announced
  · rename_i set
    obtain ⟨set', rest, erased, consistent⟩ := findErase_of_set announced.well found set
    simp only [erased]
    have was := announced.started addr self found
    refine
      { well := insert_store_spec consistent set'
        started := forall_store (started_of_set rfl (fits set') le_rfl) announced.started
        synced := announced.synced
        told := Postpones.told ?_ announced.told }
    refine Postpones.of_store rfl rfl found fun _ => ⟨set', ?_⟩
    rw [add64_of_lt (fits set')]
    exact was.past

theorem reset_announced (announced : manager.Announced seen clock) {self : Timer γ}
    (found : manager.heap addr = some self) (ms : Nat) (fromNow : Bool)
    (later : fromNow = true → now ≤ clock)
    (fits : self.cb.isSome → (if fromNow then now else self.next - self.ms) + ms < 2 ^ 64) :
    (manager.reset addr self ms fromNow now).1.Announced seen clock := by
  rw [reset]
  split
  · exact announced
  split
  · exact announced
  · rename_i set
    obtain ⟨set', rest, erased, consistent⟩ := findErase_of_set announced.well found set
    have was := announced.started addr self found
    have start := sub64_of_le was.period was.fits
    have past : (if fromNow then now else self.next - self.ms) ≤ clock := by
      cases fromNow with
      | true => exact later rfl
      | false => exact Nat.sub_le_iff_le_add.mpr was.past
    simp only [erased, start]
    generalize placedTimer : ({ self with
      ms := ms, next := add64 (if fromNow then now else self.next - self.ms) ms } : Timer γ) = timer
    have placed : ((({ manager with timers := rest } : TimerManager γ).store addr timer).insert
        addr).WellFormed := insert_store_spec consistent (by rw [← placedTimer]; exact set')
    refine
      { well := insertTimer_wellFormed placed
        started := forall_store ?_ announced.started
        synced := announced.synced
        told := insertTimer_told placed fun other timer' distinct found' => ?_ }
    · subst placedTimer
      exact started_of_set rfl (fits set') past
    · rw [store_heap_of_ne distinct] at found'
      exact announced.told other timer' found'

/-! ### The expiry loop -/

theorem expireLoop_flags (now : Nat) : ∀ (expired : List Addr) (manager : TimerManager γ),
    (expireLoop now expired manager).1.tickled = manager.tickled ∧
      (expireLoop now expired manager).1.previousTime = manager.previousTime
  | [], _ => ⟨rfl, rfl⟩
  | addr :: expired, manager => by
    rw [expireLoop]
    split
    · exact expireLoop_flags now expired manager
    · dsimp only
      split
      · exact expireLoop_flags now expired _
      · exact expireLoop_flags now expired _

/-- **The expiry loop** leaves an object as it was but for its callback, or sets it anew. -/
theorem expireLoop_heap (now : Nat) : ∀ (expired : List Addr) {manager : TimerManager γ}
    {addr : Addr} {timer' : Timer γ}, (expireLoop now expired manager).1.heap addr = some timer' →
    ∃ timer, manager.heap addr = some timer ∧ timer'.ms = timer.ms ∧
      timer'.recurring = timer.recurring ∧ (timer'.cb.isSome → timer.cb.isSome) ∧
      (timer'.next = timer.next ∨
        addr ∈ expired ∧ timer.recurring = true ∧ timer'.next = add64 now timer.ms)
  | [], _, _, timer', found => ⟨timer', found, rfl, rfl, id, Or.inl rfl⟩
  | first :: expired, manager, addr, timer', found => by
    rw [expireLoop] at found
    cases object : manager.heap first with
    | none =>
        simp only [object] at found
        obtain ⟨timer, was, ms, kind, set, due⟩ := expireLoop_heap now expired found
        exact ⟨timer, was, ms, kind, set, due.imp_right fun moved =>
          ⟨List.mem_cons_of_mem _ moved.1, moved.2⟩⟩
    | some self =>
        simp only [object] at found
        obtain ⟨timer, was, ms, kind, set, due⟩ := expireLoop_heap now expired found
        by_cases isSelf : addr = first
        · subst isSelf
          cases recurring : self.recurring with
          | true =>
              simp only [recurring, if_true] at was
              obtain rfl : _ = timer := Option.some.inj ((store_heap_self _).symm.trans was)
              exact ⟨self, object, ms, kind.trans recurring.symm, set, Or.inr
                ⟨List.mem_cons_self, recurring, due.elim id fun moved => moved.2.2⟩⟩
          | false =>
              simp only [recurring, Bool.false_eq_true, if_false] at was
              obtain rfl : _ = timer := Option.some.inj ((store_heap_self _).symm.trans was)
              exact ⟨self, object, ms, kind.trans recurring.symm,
                fun live => absurd (set live) Bool.false_ne_true,
                due.imp_right fun moved => absurd moved.2.1 Bool.false_ne_true⟩
        · have was' : manager.heap addr = some timer := by
            rw [← was]
            split
            · exact (store_heap_of_ne isSelf _).symm
            · exact (store_heap_of_ne isSelf _).symm
          exact ⟨timer, was', ms, kind, set, due.imp_right fun moved =>
            ⟨List.mem_cons_of_mem _ moved.1, moved.2⟩⟩

/-- What is cut off as expired stands in the set and, unless the clock was set back, is due. -/
theorem mem_splitExpired (well : manager.WellFormed) {tmp : Addr}
    (front : addr ∈ (manager.splitExpired false now tmp).1) {timer : Timer γ}
    (found : manager.heap addr = some timer) : addr ∈ manager.timers ∧ timer.next ≤ now := by
  rw [splitExpired_eq well.ordered] at front
  obtain ⟨inSet, isDue⟩ := List.mem_filter.mp front
  rw [expired, Bool.false_or, decide_eq_true_eq, due, found] at isDue
  exact ⟨inSet, isDue⟩

/-- A clock that does not go back is no rollover. -/
theorem detectClockRollover_of_le (synced : manager.previousTime ≤ now) :
    manager.detectClockRollover now = ({ manager with previousTime := now }, false) := by
  rw [detectClockRollover, decide_eq_false (Nat.not_lt.mpr synced), Bool.false_and]

theorem listExpiredCb_announced (announced : manager.Announced seen now) (tmp : Addr)
    (fits : manager.Fits (.listExpiredCb now tmp)) :
    (manager.listExpiredCb now tmp).1.Announced seen now := by
  have kept := (listExpiredCb_spec announced.well now tmp).1
  rw [listExpiredCb] at kept ⊢
  cases first : manager.firstNext with
  | none => exact announced
  | some due =>
      simp only [first, detectClockRollover_of_le announced.synced, true_and] at kept ⊢
      by_cases early : due > now
      · rw [if_pos early]
        exact ⟨⟨announced.well.ordered, announced.well.once, announced.well.apart,
          announced.well.live⟩, announced.started, le_rfl, announced.told⟩
      · rw [if_neg early] at kept ⊢
        generalize split : ({ manager with previousTime := now } : TimerManager γ).splitExpired false
          now tmp = parts at kept ⊢
        obtain ⟨expired, rest⟩ := parts
        have taken : ∀ addr ∈ expired, ∀ timer, manager.heap addr = some timer →
            addr ∈ manager.timers ∧ timer.next ≤ now := fun addr member timer found =>
          mem_splitExpired (show ({ manager with previousTime := now } : TimerManager γ).WellFormed from
            ⟨announced.well.ordered, announced.well.once, announced.well.apart,
              announced.well.live⟩) (by rw [split]; exact member) found
        obtain ⟨tickled, synced⟩ := expireLoop_flags now expired
          ({ manager with timers := rest, previousTime := now } : TimerManager γ)
        refine
          { well := kept
            started := fun addr timer' found => ?_
            synced := synced.le
            told := Postpones.told ⟨tickled, fun addr timer' found set => ?_⟩ announced.told }
        · obtain ⟨timer, was, ms, _, _, same | ⟨member, recurring, set⟩⟩ :=
            expireLoop_heap now expired found
          · have before := announced.started addr timer was
            exact ⟨by rw [ms, same]; exact before.period, by rw [ms, same]; exact before.past,
              by rw [same]; exact before.fits⟩
          · obtain ⟨inSet, due⟩ := taken addr member timer was
            rw [← ms] at set
            exact started_of_set set (ms ▸ fits addr inSet timer was recurring due) le_rfl
        · obtain ⟨timer, was, _, _, live, same | ⟨member, recurring, set'⟩⟩ :=
            expireLoop_heap now expired found
          · exact ⟨timer, was, live set, same.ge⟩
          · obtain ⟨inSet, due⟩ := taken addr member timer was
            rw [add64_of_lt (fits addr inSet timer was recurring due)] at set'
            exact ⟨timer, was, live set, by omega⟩

/-! ### Runs -/

/-- What a call of `getNextTimer` sees replaces what was seen before. -/
def seenAfter (seen : Option Nat) (manager : TimerManager γ) : Call γ → Option Nat
  | .getNextTimer _ => manager.firstNext
  | _ => seen

theorem getNextTimer_announced (announced : manager.Announced seen now) :
    (manager.getNextTimer now).1.Announced manager.firstNext now := by
  refine ⟨⟨announced.well.ordered, announced.well.once, announced.well.apart, announced.well.live⟩,
    announced.started, announced.synced, fun addr timer found set nearer => ?_⟩
  have inSet : addr ∈ manager.timers := mem_of_set announced.well found set
  obtain ⟨first, head⟩ : ∃ first, manager.timers.head? = some first :=
    Option.isSome_iff_exists.mp (List.isSome_head?.mpr (List.ne_nil_of_mem inSet))
  obtain ⟨timer', found', _⟩ := (announced.well.live first).mp (Or.inl (List.mem_of_head? head))
  have least := head_due_le announced.well head inSet found' found
  have isFirst : manager.firstNext = some timer'.next := by
    rw [firstNext, head, Option.map_some, found']
    rfl
  exact absurd (nearer timer'.next isFirst) (Nat.not_lt.mpr least)

/-- **One operation** keeps the invariant. -/
theorem call_announced (announced : manager.Announced seen clock)
    (later : ∀ now ∈ label.reading, clock ≤ now) (fits : manager.Fits label)
    (called : manager.call label = some (next, reply)) :
    next.Announced (seenAfter seen manager label) (label.reading.getD clock) := by
  cases label with
  | addTimer ms cb recurring now addr =>
      obtain ⟨fresh, added⟩ := addTimer_of_call called
      cases added
      exact addTimer_announced (announced.mono (later now rfl)) fresh ms cb recurring fits
  | cancel addr =>
      obtain ⟨self, found, cancelled⟩ := Option.map_eq_some_iff.mp called
      cases congrArg Prod.fst cancelled
      exact cancel_announced announced found
  | refresh addr now =>
      obtain ⟨self, found, refreshed⟩ := Option.map_eq_some_iff.mp called
      cases congrArg Prod.fst refreshed
      exact refresh_announced (announced.mono (later now rfl)) found (fits self found)
  | reset addr ms fromNow now =>
      obtain ⟨self, found, set⟩ := Option.map_eq_some_iff.mp called
      cases congrArg Prod.fst set
      cases fromNow with
      | true =>
          exact reset_announced (announced.mono (later now rfl)) found ms true (fun _ => le_rfl)
            (fits self found)
      | false =>
          exact reset_announced announced found ms false
            (fun fromNow => absurd fromNow Bool.false_ne_true) (fits self found)
  | getNextTimer now =>
      cases called
      exact getNextTimer_announced (announced.mono (later now rfl))
  | listExpiredCb now tmp =>
      cases called
      exact listExpiredCb_announced (announced.mono (later now rfl)) tmp fits

theorem refresh_tickled (addr : Addr) (self : Timer γ) (now : Nat) :
    (manager.refresh addr self now).1.tickled = manager.tickled := by
  rw [refresh]
  split
  · rfl
  · split
    · rfl
    · rename_i erased found
      obtain ⟨left, rfl⟩ := findErase_eq found
      rfl

theorem listExpiredCb_tickled (now : Nat) (tmp : Addr) :
    (manager.listExpiredCb now tmp).1.tickled = manager.tickled := by
  rw [listExpiredCb]
  split
  · rfl
  · dsimp only [detectClockRollover]
    split
    · rfl
    · exact (expireLoop_flags ..).1

/-- The flag is set only by an operation that announces. -/
theorem call_tickled (called : manager.call label = some (next, reply))
    (unseen : next.tickled = true) : manager.tickled = true ∨ reply.announces = true := by
  have insertion : ∀ {base : TimerManager γ} {addr : Addr}, base.tickled = manager.tickled →
      (base.insertTimer addr).1.tickled = true →
      manager.tickled = true ∨ (base.insertTimer addr).2 = true := by
    intro base addr same set
    simp only [insertTimer, Bool.or_eq_true] at set
    exact set.imp_left fun before => same ▸ before
  cases label with
  | addTimer ms cb recurring now addr =>
      obtain ⟨_, added⟩ := addTimer_of_call called
      cases added
      exact insertion rfl unseen
  | cancel addr =>
      obtain ⟨self, _, cancelled⟩ := Option.map_eq_some_iff.mp called
      obtain rfl := congrArg Prod.fst cancelled
      exact Or.inl ((cancel_leaves manager addr self).1 ▸ unseen)
  | refresh addr now =>
      obtain ⟨self, _, refreshed⟩ := Option.map_eq_some_iff.mp called
      obtain rfl := congrArg Prod.fst refreshed
      exact Or.inl (refresh_tickled addr self now ▸ unseen)
  | reset addr ms fromNow now =>
      obtain ⟨self, _, set⟩ := Option.map_eq_some_iff.mp called
      obtain rfl := congrArg Prod.fst set
      obtain rfl := congrArg Prod.snd set
      rw [reset] at unseen ⊢
      split at unseen
      · exact Or.inl unseen
      rename_i moves
      rw [if_neg moves]
      split at unseen
      · exact Or.inl unseen
      rename_i set'
      rw [if_neg set']
      cases erased : manager.findErase addr with
      | none =>
          simp only [erased] at unseen
          exact Or.inl unseen
      | some rest =>
          simp only [erased] at unseen ⊢
          obtain ⟨left, rfl⟩ := findErase_eq erased
          exact insertion rfl unseen
  | getNextTimer now =>
      cases called
      cases unseen
  | listExpiredCb now tmp =>
      cases called
      exact Or.inl (listExpiredCb_tickled now tmp ▸ unseen)

/-- No call of `getNextTimer` among the operations. -/
def Unseen (calls : List (Call γ)) : Prop := ∀ now, .getNextTimer now ∉ calls

/-- **A run** keeps the invariant, at its last clock reading and, without a call of `getNextTimer`, for
what was seen before it. -/
theorem run_announced (rest : List (Call γ)) : ∀ (calls : List (Call γ)) {seen : Option Nat}
    {clock : Nat} {manager final : TimerManager γ} {replies : List (Reply γ)},
    manager.Announced seen clock →
    (clock :: (calls ++ rest).filterMap Call.reading).Pairwise (· ≤ ·) →
    Meets call Fits manager calls → trace call manager calls = some (final, replies) →
    ∃ seen' clock', final.Announced seen' clock' ∧
      (clock' :: rest.filterMap Call.reading).Pairwise (· ≤ ·) ∧ (Unseen calls → seen' = seen) := by
  intro calls
  induction calls with
  | nil =>
      intro seen clock manager final replies announced monotone _ executed
      cases executed
      exact ⟨seen, clock, announced, monotone, fun _ => rfl⟩
  | cons label calls ih =>
      intro seen clock manager final replies announced monotone fits executed
      obtain ⟨next, reply, others, called, tail, rfl⟩ := trace_cons_eq_some.mp executed
      obtain ⟨later, monotone'⟩ : (∀ now ∈ label.reading, clock ≤ now) ∧
          (label.reading.getD clock :: (calls ++ rest).filterMap Call.reading).Pairwise (· ≤ ·) := by
        rw [List.cons_append, List.filterMap_cons] at monotone
        cases read : label.reading with
        | none =>
            rw [read] at monotone
            exact ⟨nofun, monotone⟩
        | some now =>
            rw [read] at monotone
            obtain ⟨least, tail⟩ := List.pairwise_cons.mp monotone
            exact ⟨fun _ same => Option.some.inj same ▸ least now List.mem_cons_self, tail⟩
      obtain ⟨seen', clock', announced', monotone'', same⟩ :=
        ih (call_announced announced later fits.1 called) monotone' (fits.2 _ called) tail
      refine ⟨seen', clock', announced', monotone'', fun unseen => ?_⟩
      rw [same fun now member => unseen now (List.mem_cons_of_mem _ member)]
      cases label with
      | getNextTimer now => exact absurd List.mem_cons_self (unseen now)
      | _ => rfl

theorem run_tickled : ∀ (calls : List (Call γ)) {manager final : TimerManager γ}
    {replies : List (Reply γ)}, trace call manager calls = some (final, replies) →
    final.tickled = true → manager.tickled = true ∨ ∃ reply ∈ replies, reply.announces = true := by
  intro calls
  induction calls with
  | nil =>
      intro manager final replies executed unseen
      cases executed
      exact Or.inl unseen
  | cons label calls ih =>
      intro manager final replies executed unseen
      obtain ⟨next, reply, others, called, tail, rfl⟩ := trace_cons_eq_some.mp executed
      rcases ih tail unseen with before | ⟨reply', member, announces⟩
      · exact (call_tickled called before).imp_right fun announces =>
          ⟨reply, List.mem_cons_self, announces⟩
      · exact Or.inr ⟨reply', List.mem_cons_of_mem _ member, announces⟩

/-- **A deadline nearer than the one last seen has been announced.** In every run whose clock readings
do not go back and whose deadlines fit in 64 bits, let `W` be the first due time that the last call of
`getNextTimer` saw, infinity without timers. When a timer is now due before `W`, `m_tickled` is set,
and an operation since that call has called `onTimerInsertdAtFront`. -/
theorem nearer_announced (start : Nat) (calls : List (Call γ)) {final : TimerManager γ}
    {replies : List (Reply γ)} (executed : trace call (new start) calls = some (final, replies))
    (monotone : (start :: calls.filterMap Call.reading).Pairwise (· ≤ ·))
    (fits : Meets call Fits (new start) calls) :
    ∀ before now after waiting front, calls = before ++ .getNextTimer now :: after → Unseen after →
      trace call (new start) before = some (waiting, front) →
      ∀ due ∈ final.firstNext, (∀ W ∈ waiting.firstNext, due < W) →
        final.tickled = true ∧
          ∃ reply ∈ replies.drop (before.length + 1), reply.announces = true := by
  rintro before now after waiting front rfl unseen first due isFirst nearer
  obtain ⟨middle, front', back, first', second, rfl⟩ := trace_append_eq_some.mp executed
  rw [first] at first'
  cases first'
  obtain ⟨next, reply, others, called, tail, rfl⟩ := trace_cons_eq_some.mp second
  obtain ⟨fits', fits''⟩ := meets_append.mp fits
  obtain ⟨_, clock, announced, monotone', _⟩ :=
    run_announced _ before (announced_new start) monotone fits' first
  obtain ⟨later, monotone''⟩ := List.pairwise_cons.mp monotone'
  have fitsTail := fits'' _ _ first
  have told := call_announced announced
    (fun _ same => by cases same; exact later now List.mem_cons_self) fitsTail.1 called
  obtain ⟨_, _, announced', _, same⟩ := run_announced [] after told
    (by rwa [List.append_nil]) (fitsTail.2 _ called) tail
  obtain rfl := same unseen
  have tickled : final.tickled = true := by
    obtain ⟨addr, head, rfl⟩ := Option.map_eq_some_iff.mp isFirst
    obtain ⟨timer, found, set⟩ := (announced'.well.live addr).mp (Or.inl (List.mem_of_head? head))
    rw [found] at nearer
    exact announced'.told addr timer found set nearer
  refine ⟨tickled, ?_⟩
  have unset : next.tickled = false := by
    cases called
    rfl
  have dropped : (front ++ reply :: others).drop (before.length + 1) = others := by
    rw [← length_of_trace first, List.drop_append]
    simp
  rw [dropped]
  exact (run_tickled after tail tickled).resolve_left (by simp [unset])

/-- A timer at 50 was seen; a refresh and a recurring timer that fires only postpone, then a timer at
35 is set and announced. -/
theorem nearer_announced_inserted :
    ∃ final replies, trace call (new 0 : TimerManager String)
        [.addTimer 10 "often" true 0 1, .addTimer 50 "late" false 0 2, .listExpiredCb 15 9,
          .refresh 1 20, .cancel 1, .getNextTimer 20, .addTimer 15 "soon" false 20 3,
          .refresh 2 25] = some (final, replies) ∧
      final.firstNext = some 35 ∧ final.tickled = true ∧
        ∃ reply ∈ replies.drop 6, reply.announces = true := by
  have executed : trace call (new 0 : TimerManager String)
      [.addTimer 10 "often" true 0 1, .addTimer 50 "late" false 0 2, .listExpiredCb 15 9,
        .refresh 1 20, .cancel 1, .getNextTimer 20, .addTimer 15 "soon" false 20 3,
        .refresh 2 25] = some (_, _) := rfl
  have result := nearer_announced 0 _ executed (by decide)
    (by decide)
    [.addTimer 10 "often" true 0 1, .addTimer 50 "late" false 0 2, .listExpiredCb 15 9,
      .refresh 1 20, .cancel 1] 20 [.addTimer 15 "soon" false 20 3, .refresh 2 25] _ _ rfl
    (by simp [Unseen]) rfl 35 rfl (by rintro _ ⟨⟩; decide)
  exact ⟨_, _, executed, rfl, result⟩

end TimerManager

end Wyze
