/-
**The invariant of the timer set.**

`Consistent manager pending` says that the set is in order and holds exactly the live timers, but
for those of `pending`, which an operation has taken out to move them. Three lemmas say how a timer
is taken out (`findErase_spec`), put back (`insert_store_spec`) or retired (`retire_spec`); each
operation is made of these, so each has a short lemma of its own, and `call_keeps` collects them.
-/
import Wyze.Timer.Basic

namespace Wyze

namespace Timer

variable {γ : Type*}

/-- What an expiry pass at `now` makes of the object of an expired timer. -/
def expire (now : Nat) (timer : Timer γ) : Timer γ :=
  if timer.recurring then { timer with next := add64 now timer.ms } else { timer with cb := none }

theorem expire_recurring (now : Nat) (timer : Timer γ) :
    (timer.expire now).recurring = timer.recurring := by
  rw [expire]
  split <;> rfl

theorem expire_cb_of_none (now : Nat) (timer : Timer γ) (gone : timer.cb = none) :
    (timer.expire now).cb = none := by
  rw [expire]
  split
  · exact gone
  · rfl

/-- An expired timer keeps its callback exactly when it is recurring. -/
theorem expire_cb_isSome (now : Nat) (timer : Timer γ) :
    (timer.expire now).cb.isSome ↔ timer.cb.isSome ∧ timer.recurring = true := by
  rw [expire]
  split
  · rename_i recurring
    exact (and_iff_left recurring).symm
  · rename_i once
    exact iff_of_false Bool.false_ne_true fun set => once set.2

end Timer

namespace TimerManager

variable {γ : Type*} {manager : TimerManager γ} {addr : Addr} {pending : List Addr}

/-- The object exists and its callback is set. -/
def Live (manager : TimerManager γ) (addr : Addr) : Prop :=
  ∃ timer, manager.heap addr = some timer ∧ timer.cb.isSome

/-- **The invariant** while the timers of `pending` are taken out. -/
structure Consistent (manager : TimerManager γ) (pending : List Addr) : Prop where
  ordered : OrderedSet.Ordered manager.key manager.timers
  once : pending.Nodup
  apart : ∀ addr ∈ pending, addr ∉ manager.timers
  live : ∀ addr, addr ∈ manager.timers ∨ addr ∈ pending ↔ manager.Live addr

/-- The invariant between two operations. -/
abbrev WellFormed (manager : TimerManager γ) : Prop := manager.Consistent []

/-- Objects stay, keep their kind, and never get a callback back. -/
def Later (manager next : TimerManager γ) : Prop :=
  ∀ addr timer, manager.heap addr = some timer → ∃ timer', next.heap addr = some timer' ∧
    timer'.recurring = timer.recurring ∧ (timer.cb = none → timer'.cb = none)

theorem Later.refl (manager : TimerManager γ) : manager.Later manager :=
  fun _ timer found => ⟨timer, found, rfl, id⟩

theorem Later.trans {first second third : TimerManager γ} (before : first.Later second)
    (after : second.Later third) : first.Later third := by
  intro addr timer found
  obtain ⟨timer', found', kind, gone⟩ := before addr timer found
  obtain ⟨timer'', found'', kind', gone'⟩ := after addr timer' found'
  exact ⟨timer'', found'', kind'.trans kind, fun none => gone' (gone none)⟩

/-! ### Keys -/

/-- The key of an object is what `Comparator` compares. -/
theorem comparator_pointee {first second : Addr} {timer timer' : Timer γ}
    (found : manager.heap first = some timer) (found' : manager.heap second = some timer') :
    Timer.Comparator (manager.pointee first) (manager.pointee second) =
      decide (manager.key first < manager.key second) := by
  rw [pointee, pointee, found, found', Option.map_some, Option.map_some, Timer.comparator_some,
    key, key, found, found']
  rfl

/-- Keys end in the address. -/
theorem key_injective (manager : TimerManager γ) {first second : Addr}
    (same : manager.key first = manager.key second) : first = second :=
  (Prod.ext_iff.mp (toLex.injective same)).2

/-! ### Writing objects -/

@[simp]
theorem store_heap_self (timer : Timer γ) : (manager.store addr timer).heap addr = some timer :=
  Function.update_self ..

theorem store_heap_of_ne {other : Addr} (distinct : other ≠ addr) (timer : Timer γ) :
    (manager.store addr timer).heap other = manager.heap other :=
  Function.update_of_ne distinct ..

@[simp]
theorem store_store (first second : Timer γ) :
    (manager.store addr first).store addr second = manager.store addr second := by
  rw [store, store, store, Function.update_idem]

theorem store_key_of_ne {other : Addr} (distinct : other ≠ addr) (timer : Timer γ) :
    (manager.store addr timer).key other = manager.key other := by
  rw [key, store_heap_of_ne distinct, key]

theorem store_key_of_next {timer timer' : Timer γ} (found : manager.heap addr = some timer)
    (same : timer'.next = timer.next) : (manager.store addr timer').key = manager.key := by
  funext other
  by_cases isSelf : other = addr
  · subst isSelf
    rw [key, key, store_heap_self, found, Option.map_some, Option.map_some, same]
  · exact store_key_of_ne isSelf timer'

theorem store_live_of_ne {other : Addr} (distinct : other ≠ addr) (timer : Timer γ) :
    (manager.store addr timer).Live other ↔ manager.Live other := by
  rw [Live, Live, store_heap_of_ne distinct]

theorem store_live_self (timer : Timer γ) :
    (manager.store addr timer).Live addr ↔ timer.cb.isSome := by
  rw [Live, store_heap_self]
  exact ⟨fun ⟨_, same, set⟩ => Option.some.inj same ▸ set, fun set => ⟨timer, rfl, set⟩⟩

theorem store_later {timer timer' : Timer γ} (found : manager.heap addr = some timer)
    (kind : timer'.recurring = timer.recurring) (gone : timer.cb = none → timer'.cb = none) :
    manager.Later (manager.store addr timer') := by
  intro other old found'
  by_cases isSelf : other = addr
  · subst isSelf
    rw [found] at found'
    cases found'
    exact ⟨timer', store_heap_self timer', kind, gone⟩
  · exact ⟨old, (store_heap_of_ne isSelf timer').trans found', rfl, id⟩

/-- Writing the object of a timer that is not in the set leaves the order of the set. -/
theorem store_ordered (timer : Timer γ)
    (ordered : OrderedSet.Ordered manager.key manager.timers) (outside : addr ∉ manager.timers) :
    OrderedSet.Ordered (manager.store addr timer).key manager.timers :=
  ordered.congr fun other inSet =>
    store_key_of_ne (fun same : other = addr => outside (same ▸ inSet)) timer

/-! ### Taking out, putting back, retiring -/

/-- **`find` hits** for a timer of the set, and `erase` takes it out. -/
theorem findErase_spec (consistent : manager.Consistent pending) (inSet : addr ∈ manager.timers) :
    ∃ rest, manager.findErase addr = some { manager with timers := rest } ∧
      ({ manager with timers := rest } : TimerManager γ).Consistent (addr :: pending) := by
  obtain ⟨rest, erased, ordered, members⟩ := OrderedSet.erase_spec consistent.ordered inSet
  refine ⟨rest, by rw [findErase, erased, Option.map_some], ?_⟩
  refine
    { ordered := ordered
      once := List.nodup_cons.mpr
        ⟨fun isPending => consistent.apart addr isPending inSet, consistent.once⟩
      apart := ?_
      live := fun other => ?_ }
  · rintro other isPending inRest
    obtain ⟨inOld, distinct⟩ := (members other).mp inRest
    rcases List.mem_cons.mp isPending with rfl | later
    · exact distinct rfl
    · exact consistent.apart other later inOld
  · refine Iff.trans ?_ (consistent.live other)
    by_cases isSelf : other = addr
    · subst isSelf
      simp [inSet]
    · simp [members, isSelf]

/-- **A pending timer is put back** under its new key. -/
theorem insert_store_spec (consistent : manager.Consistent (addr :: pending)) {timer : Timer γ}
    (set : timer.cb.isSome) :
    ((manager.store addr timer).insert addr).Consistent pending := by
  have outside := consistent.apart addr List.mem_cons_self
  obtain ⟨notPending, once⟩ := List.nodup_cons.mp consistent.once
  have fresh : ∀ other ∈ manager.timers,
      (manager.store addr timer).key other ≠ (manager.store addr timer).key addr := by
    intro other inSet same
    rw [key_injective _ same] at inSet
    exact outside inSet
  obtain ⟨ordered, members⟩ :=
    OrderedSet.insert_spec (store_ordered timer consistent.ordered outside) fresh
  refine
    { ordered := ordered
      once := once
      apart := ?_
      live := fun other => ?_ }
  · intro other isPending inNew
    rcases (members other).mp inNew with rfl | inOld
    · exact notPending isPending
    · exact consistent.apart other (List.mem_cons_of_mem _ isPending) inOld
  · rw [show other ∈ ((manager.store addr timer).insert addr).timers ↔ _ from members other]
    by_cases isSelf : other = addr
    · subst isSelf
      exact iff_of_true (Or.inl (Or.inl rfl)) ((store_live_self timer).mpr set)
    · refine Iff.trans ?_ ((consistent.live other).trans (store_live_of_ne isSelf timer).symm)
      simp [isSelf]

/-- **A pending timer is retired** by taking its callback. -/
theorem retire_spec (consistent : manager.Consistent (addr :: pending)) {timer : Timer γ}
    (gone : timer.cb = none) : (manager.store addr timer).Consistent pending := by
  have outside := consistent.apart addr List.mem_cons_self
  obtain ⟨notPending, once⟩ := List.nodup_cons.mp consistent.once
  refine
    { ordered := store_ordered timer consistent.ordered outside
      once := once
      apart := fun other isPending => consistent.apart other (List.mem_cons_of_mem _ isPending)
      live := fun other => ?_ }
  by_cases isSelf : other = addr
  · subst isSelf
    rw [store_live_self, gone]
    exact iff_of_false (not_or.mpr ⟨outside, notPending⟩) Bool.false_ne_true
  · refine Iff.trans ?_ ((consistent.live other).trans (store_live_of_ne isSelf timer).symm)
    simp [isSelf, store]

/-- A new object is pending until it is put into the set. -/
theorem allocate_spec (consistent : manager.Consistent pending) (fresh : manager.heap addr = none)
    {timer : Timer γ} (set : timer.cb.isSome) :
    (manager.store addr timer).Consistent (addr :: pending) := by
  have dead : ¬ (addr ∈ manager.timers ∨ addr ∈ pending) := by
    rw [consistent.live]
    rintro ⟨old, found, _⟩
    rw [fresh] at found
    cases found
  obtain ⟨outside, notPending⟩ := not_or.mp dead
  refine
    { ordered := store_ordered timer consistent.ordered outside
      once := List.nodup_cons.mpr ⟨notPending, consistent.once⟩
      apart := List.forall_mem_cons.mpr ⟨outside, consistent.apart⟩
      live := fun other => ?_ }
  by_cases isSelf : other = addr
  · subst isSelf
    simpa using (store_live_self timer).mpr set
  · refine Iff.trans ?_ ((consistent.live other).trans (store_live_of_ne isSelf timer).symm)
    simp [isSelf, store]

/-! ### One lemma per operation -/

theorem new_wellFormed (now : Nat) : (new now : TimerManager γ).WellFormed where
  ordered := List.Pairwise.nil
  once := List.nodup_nil
  apart := nofun
  live := fun addr => iff_of_false (by simp [new]) (fun ⟨_, found, _⟩ => nomatch found)

/-- A live timer stands in the set. -/
theorem mem_of_set (well : manager.WellFormed) {self : Timer γ}
    (found : manager.heap addr = some self) (set : self.cb.isSome) : addr ∈ manager.timers :=
  ((well.live addr).mpr ⟨self, found, set⟩).resolve_right List.not_mem_nil

/-- A timer with a callback is in the set, so it is found and taken out. -/
theorem findErase_of_set (well : manager.WellFormed) {self : Timer γ}
    (found : manager.heap addr = some self) (set : ¬ self.cb.isNone = true) :
    self.cb.isSome ∧ ∃ rest, manager.findErase addr = some { manager with timers := rest } ∧
      ({ manager with timers := rest } : TimerManager γ).Consistent [addr] := by
  have set' : self.cb.isSome := Option.isSome_iff_ne_none.mpr (by simpa using set)
  exact ⟨set', findErase_spec well (mem_of_set well found set')⟩

theorem insertTimer_wellFormed (inserted : (manager.insert addr).WellFormed) :
    (manager.insertTimer addr).1.WellFormed :=
  ⟨inserted.ordered, inserted.once, inserted.apart, inserted.live⟩

theorem addTimer_spec (well : manager.WellFormed) (fresh : manager.heap addr = none)
    (ms : Nat) (cb : γ) (recurring : Bool) (now : Nat) :
    (manager.addTimer ms cb recurring now addr).1.WellFormed ∧
      manager.Later (manager.addTimer ms cb recurring now addr).1 := by
  have set : (Timer.new ms cb recurring now).cb.isSome := rfl
  have placed := insert_store_spec (allocate_spec well fresh set) set
  rw [store_store] at placed
  refine ⟨insertTimer_wellFormed placed, ?_⟩
  intro other timer found
  refine ⟨timer, ?_, rfl, id⟩
  rw [← found]
  exact store_heap_of_ne (fun same : other = addr => by rw [same, fresh] at found; cases found) _

/-- **`cancel`** of a live timer finds it and retires it. -/
theorem cancel_spec (well : manager.WellFormed) {self : Timer γ}
    (found : manager.heap addr = some self) :
    ∃ next ok, manager.cancel addr self = (next, .returned ok false) ∧ next.WellFormed ∧
      manager.Later next ∧
      (ok = true → next.heap addr = some { self with cb := none }) := by
  rw [cancel]
  split
  · rename_i set
    obtain ⟨rest, erased, consistent⟩ := findErase_spec well (mem_of_set well found set)
    have sameKey := store_key_of_next found
      (show ({ self with cb := none } : Timer γ).next = self.next from rfl)
    have erased' : (manager.store addr { self with cb := none }).findErase addr =
        some (({ manager with timers := rest } : TimerManager γ).store addr
          { self with cb := none }) := by
      simp only [findErase, Option.map_eq_some_iff] at erased ⊢
      obtain ⟨rest', removed, same⟩ := erased
      cases same
      exact ⟨rest, by rw [sameKey]; exact removed, rfl⟩
    simp only [erased']
    exact ⟨_, true, rfl, retire_spec consistent rfl, store_later found rfl fun _ => rfl,
      fun _ => store_heap_self _⟩
  · exact ⟨manager, false, rfl, well, .refl manager, nofun⟩

theorem refresh_spec (well : manager.WellFormed) {self : Timer γ}
    (found : manager.heap addr = some self) (now : Nat) :
    ∃ next ok, manager.refresh addr self now = (next, .returned ok false) ∧ next.WellFormed ∧
      manager.Later next := by
  rw [refresh]
  split
  · exact ⟨manager, false, rfl, well, .refl manager⟩
  · rename_i set
    obtain ⟨set', rest, erased, consistent⟩ := findErase_of_set well found set
    simp only [erased]
    exact ⟨_, true, rfl, insert_store_spec consistent set', store_later found rfl id⟩

theorem reset_spec (well : manager.WellFormed) {self : Timer γ}
    (found : manager.heap addr = some self) (ms : Nat) (fromNow : Bool) (now : Nat) :
    ∃ next ok atFront, manager.reset addr self ms fromNow now = (next, .returned ok atFront) ∧
      next.WellFormed ∧ manager.Later next := by
  rw [reset]
  split
  · exact ⟨manager, true, false, rfl, well, .refl manager⟩
  split
  · exact ⟨manager, false, false, rfl, well, .refl manager⟩
  · rename_i set
    obtain ⟨set', rest, erased, consistent⟩ := findErase_of_set well found set
    simp only [erased]
    exact ⟨_, true, _, rfl, insertTimer_wellFormed (insert_store_spec consistent set'),
      store_later found rfl id⟩

/-- **One round of the expiry loop** hands out the callback of its timer and writes its object; the
timer is put back or retired. -/
theorem expireLoop_cons {expired : List Addr} (consistent : manager.Consistent (addr :: expired))
    (now : Nat) :
    ∃ self handled, manager.heap addr = some self ∧ self.cb.isSome ∧ handled.Consistent expired ∧
      handled.heap = (manager.store addr (self.expire now)).heap ∧
      expireLoop now (addr :: expired) manager =
        ((expireLoop now expired handled).1,
          (addr, self.cb) :: (expireLoop now expired handled).2) := by
  obtain ⟨self, found, set⟩ := (consistent.live addr).mp (Or.inr List.mem_cons_self)
  cases kind : self.recurring with
  | true =>
      have again : self.expire now = { self with next := add64 now self.ms } := if_pos kind
      refine ⟨self, (manager.store addr (self.expire now)).insert addr, found, set, ?_, rfl, ?_⟩
      · rw [again]
        exact insert_store_spec consistent set
      · rw [expireLoop, found, again]
        simp only [kind, if_true]
  | false =>
      have spent : self.expire now = { self with cb := none } :=
        if_neg (by rw [kind]; exact Bool.false_ne_true)
      refine ⟨self, manager.store addr (self.expire now), found, set, ?_, rfl, ?_⟩
      · rw [spent]
        exact retire_spec consistent rfl
      · rw [expireLoop, found, spent]
        simp only [kind, Bool.false_eq_true, if_false]

/-- **The expiry loop** hands out each timer's callback and leaves only the recurring ones live. -/
theorem expireLoop_spec (now : Nat) : ∀ (expired : List Addr) {manager : TimerManager γ},
    manager.Consistent expired →
    (expireLoop now expired manager).1.WellFormed ∧
      manager.Later (expireLoop now expired manager).1 ∧
      (expireLoop now expired manager).2.map Prod.fst = expired ∧
      (∀ entry ∈ (expireLoop now expired manager).2, ∃ timer,
        manager.heap entry.1 = some timer ∧ entry.2 = timer.cb ∧ timer.cb.isSome) ∧
      (∀ addr, addr ∉ expired → (expireLoop now expired manager).1.heap addr = manager.heap addr) ∧
      ∀ addr ∈ expired, ∀ timer, manager.heap addr = some timer →
        (expireLoop now expired manager).1.heap addr = some (timer.expire now)
  | [], manager, consistent => ⟨consistent, .refl manager, rfl, nofun, fun _ _ => rfl, nofun⟩
  | addr :: expired, manager, consistent => by
    have notLater := (List.nodup_cons.mp consistent.once).1
    obtain ⟨self, handled, found, set, consistent', stored, unfolded⟩ :=
      expireLoop_cons consistent now
    have frame' : ∀ other, other ≠ addr → handled.heap other = manager.heap other :=
      fun other distinct => by rw [stored, store_heap_of_ne distinct]
    have later' : manager.Later handled := by
      have later := store_later found (self.expire_recurring now)
        (self.expire_cb_of_none now)
      rwa [Later, ← stored] at later
    obtain ⟨well, later, names, callbacks, frame, written⟩ :=
      expireLoop_spec now expired consistent'
    rw [unfolded]
    refine ⟨well, later'.trans later, by rw [List.map_cons, names], ?_, ?_, ?_⟩
    · refine List.forall_mem_cons.mpr ⟨⟨self, found, rfl, set⟩, fun entry member => ?_⟩
      obtain ⟨timer, found', same⟩ := callbacks entry member
      have distinct : entry.1 ≠ addr := by
        rintro rfl
        exact notLater (names ▸ List.mem_map_of_mem member)
      exact ⟨timer, by rw [← frame' _ distinct, found'], same⟩
    · intro other outside
      obtain ⟨distinct, outside'⟩ := List.ne_and_not_mem_of_not_mem_cons outside
      rw [frame other outside', frame' other distinct]
    · intro other member timer found'
      rcases List.mem_cons.mp member with rfl | member'
      · rw [found] at found'
        cases found'
        rw [frame other notLater, stored, store_heap_self]
      · have distinct : other ≠ addr := fun same => notLater (same ▸ member')
        exact written other member' timer (by rw [frame' other distinct, found'])

theorem splitExpired_append (manager : TimerManager γ) (rollover : Bool) (now : Nat) (tmp : Addr) :
    (manager.splitExpired rollover now tmp).1 ++ (manager.splitExpired rollover now tmp).2 =
      manager.timers := by
  rw [splitExpired]
  split
  · exact List.append_nil _
  · simp only [List.append_assoc, List.takeWhile_append_dropWhile]
    exact OrderedSet.below_append_lowerBound _ _ _

/-- The front of the set, taken out at once. -/
theorem take_front_spec (well : manager.WellFormed) {front rest : List Addr}
    (split : front ++ rest = manager.timers) :
    ({ manager with timers := rest } : TimerManager γ).Consistent front := by
  have ordered := well.ordered
  have live := well.live
  rw [← split] at ordered live
  have apart := List.nodup_append.mp ordered.nodup
  refine
    { ordered := ordered.sublist (List.sublist_append_right _ _)
      once := apart.1
      apart := fun addr inFront inRest => apart.2.2 addr inFront addr inRest rfl
      live := fun addr => ?_ }
  rw [Or.comm, ← List.mem_append]
  exact (or_iff_left List.not_mem_nil).symm.trans (live addr)

/-- **`listExpiredCb`** hands out live timers, each once, and leaves only the recurring ones live. -/
theorem listExpiredCb_spec (well : manager.WellFormed) (now : Nat) (tmp : Addr) :
    (manager.listExpiredCb now tmp).1.WellFormed ∧
      manager.Later (manager.listExpiredCb now tmp).1 ∧
      ((manager.listExpiredCb now tmp).2.map Prod.fst).Nodup ∧
      (∀ entry ∈ (manager.listExpiredCb now tmp).2, ∃ timer,
        manager.heap entry.1 = some timer ∧ entry.2 = timer.cb ∧ timer.cb.isSome) ∧
      ∀ addr ∈ (manager.listExpiredCb now tmp).2.map Prod.fst, ∀ timer,
        (manager.listExpiredCb now tmp).1.heap addr = some timer → timer.recurring = false →
        timer.cb = none := by
  rw [listExpiredCb]
  split
  · exact ⟨well, .refl manager, List.nodup_nil, nofun, nofun⟩
  · generalize checkedEq : manager.detectClockRollover now = checkedPair
    obtain ⟨checked, rollover⟩ := checkedPair
    obtain rfl : { manager with previousTime := now } = checked := congrArg Prod.fst checkedEq
    dsimp only
    split
    · exact ⟨⟨well.ordered, well.once, well.apart, well.live⟩, .refl manager, List.nodup_nil,
        nofun, nofun⟩
    · have consistent := take_front_spec well
        (splitExpired_append { manager with previousTime := now } rollover now tmp)
      generalize ({ manager with previousTime := now } : TimerManager γ).splitExpired rollover now
        tmp = parts at consistent ⊢
      obtain ⟨expired, rest⟩ := parts
      have taken : ({ manager with timers := rest, previousTime := now } :
          TimerManager γ).Consistent expired :=
        ⟨consistent.ordered, consistent.once, consistent.apart, consistent.live⟩
      obtain ⟨kept, later, names, callbacks, _, written⟩ := expireLoop_spec now expired taken
      refine ⟨kept, later, ?_, callbacks, fun addr member timer found once => ?_⟩
      · rw [names]
        exact taken.once
      · rw [names] at member
        obtain ⟨self, was, _⟩ := (taken.live addr).mp (Or.inr member)
        obtain rfl : self.expire now = timer :=
          Option.some.inj ((written addr member self was).symm.trans found)
        rw [Timer.expire_recurring] at once
        rw [Timer.expire, if_neg (by rw [once]; exact Bool.false_ne_true)]

/-! ### The first timer -/

/-- **`addTimer`** leaves the first due time as it is, or makes the new timer the first one; this it
announces unless an earlier announcement is unseen. -/
theorem addTimer_firstNext (well : manager.WellFormed) (fresh : manager.heap addr = none)
    (ms : Nat) (cb : γ) (recurring : Bool) (now : Nat) :
    (manager.addTimer ms cb recurring now addr).1.firstNext = manager.firstNext ∨
      (manager.addTimer ms cb recurring now addr).1.firstNext = some (add64 now ms) ∧
        (∀ next ∈ manager.firstNext, add64 now ms ≤ next) ∧
        (manager.tickled = true ∨
          (manager.addTimer ms cb recurring now addr).2 = .added true) := by
  have others : ∀ first ∈ manager.timers, first ≠ addr := by
    rintro first inSet rfl
    obtain ⟨timer, found, _⟩ := (well.live first).mp (Or.inl inSet)
    rw [fresh] at found
    cases found
  generalize created : Timer.new ms cb recurring now = timer
  have due : timer.next = add64 now ms := by
    rw [← created]
    rfl
  have sameHead := OrderedSet.head?_insert (manager.store addr timer).key addr manager.timers
  unfold addTimer insertTimer insert firstNext
  simp only [created]
  rcases sameHead with same | ⟨isFirst, least⟩
  · left
    simp only [store] at same ⊢
    rw [same]
    cases head : manager.timers.head? with
    | none => rfl
    | some first =>
        have distinct := others first (List.mem_of_head? head)
        simp only [Option.map_some, Function.update_of_ne distinct]
  · right
    refine ⟨?_, ?_, ?_⟩
    · simp only [store] at isFirst ⊢
      rw [isFirst, Option.map_some, Function.update_self, Option.map_some, Option.getD_some, due]
    · intro next isNext
      obtain ⟨first, head, rfl⟩ := Option.map_eq_some_iff.mp isNext
      have below := least first head
      rw [key, store_heap_self, store_key_of_ne (others first (List.mem_of_head? head)), key,
        Prod.Lex.toLex_le_toLex] at below
      simp only [Option.map_some, Option.getD_some, due] at below
      omega
    · cases unseen : manager.tickled with
      | true => exact Or.inl rfl
      | false =>
          right
          simp only [store] at isFirst ⊢
          rw [isFirst, unseen, beq_self_eq_true]
          rfl

end TimerManager

end Wyze
