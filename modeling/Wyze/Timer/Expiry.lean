/-
**An expiry pass hands out exactly the due timers.**

* `splitExpired_eq` — the cut by `lower_bound` and the loop over equal due times is a filter of the
  set: whatever the address of the temporary `now_timer`, the timers due at `now` lie in front of it.
* `expireLoop_entries` — the callbacks handed out, in the order of the set.
* `listExpiredCb_eq` — the pass on a well-formed manager; `listExpiredCb_exact` in any state of a run.
-/
import Wyze.Timer.Runs

namespace Wyze.TimerManager

open Labelled

variable {γ : Type*} {manager : TimerManager γ} {addr : Addr} {now : Nat}

/-- The due time of a timer. -/
def due (manager : TimerManager γ) (addr : Addr) : Nat :=
  ((manager.heap addr).map Timer.next).getD 0

/-- The timer is due at `now`; after a rollover every timer is. -/
def expired (manager : TimerManager γ) (rollover : Bool) (now : Nat) (addr : Addr) : Bool :=
  rollover || decide (manager.due addr ≤ now)

theorem key_eq (manager : TimerManager γ) (addr : Addr) :
    manager.key addr = toLex (manager.due addr, addr) := rfl

/-! ### The cut -/

/-- A later place in the set is no earlier due time. -/
theorem due_sorted (ordered : OrderedSet.Ordered manager.key manager.timers) :
    manager.timers.Pairwise fun first second => manager.due first ≤ manager.due second := by
  refine ordered.imp fun {first second} smaller => ?_
  rw [key_eq, key_eq, Prod.Lex.toLex_lt_toLex] at smaller
  dsimp only at smaller
  omega

/-- **The cut is a filter.** -/
theorem splitExpired_eq (ordered : OrderedSet.Ordered manager.key manager.timers) (rollover : Bool)
    (now : Nat) (tmp : Addr) :
    (manager.splitExpired rollover now tmp).1 =
      manager.timers.filter (manager.expired rollover now) := by
  have whole := splitExpired_append manager rollover now tmp
  have inFront : ∀ addr ∈ (manager.splitExpired rollover now tmp).1,
      manager.expired rollover now addr = true := by
    intro addr front
    cases rollover with
    | true => rfl
    | false =>
        rw [splitExpired, if_neg Bool.false_ne_true] at front
        rw [expired, Bool.false_or, decide_eq_true_eq]
        rcases List.mem_append.mp front with low | same
        · have smaller := OrderedSet.key_lt_of_mem_below low
          rw [key_eq, Prod.Lex.toLex_lt_toLex] at smaller
          dsimp only at smaller
          omega
        · have isNow := List.all_eq_true.mp List.all_takeWhile addr same
          exact (of_decide_eq_true isNow).le
  have behind : ∀ addr ∈ (manager.splitExpired rollover now tmp).2,
      ¬ manager.expired rollover now addr = true := by
    intro addr back
    cases rollover with
    | true => cases back
    | false =>
        rw [splitExpired, if_neg Bool.false_ne_true] at back
        rw [expired, Bool.false_or, decide_eq_true_eq, not_le]
        refine OrderedSet.lt_rank_of_mem_dropWhile (fun other high => ?_)
          ((due_sorted ordered).sublist (List.dropWhile_sublist _)) back
        have least := ordered.le_key_of_mem_lowerBound high
        rw [key_eq, Prod.Lex.toLex_le_toLex] at least
        dsimp only at least
        omega
  rw [← whole, List.filter_append, List.filter_eq_self.mpr inFront, List.filter_eq_nil_iff.mpr behind,
    List.append_nil]

/-! ### The loop -/

/-- The entries that the pass appends: each timer with its own callback. -/
theorem expireLoop_entries (now : Nat) : ∀ (expired : List Addr) {manager : TimerManager γ},
    manager.Consistent expired →
    (expireLoop now expired manager).2 =
      expired.map fun addr => (addr, (manager.heap addr).bind Timer.cb)
  | [], _, _ => rfl
  | addr :: expired, manager, consistent => by
    obtain ⟨self, handled, found, _, consistent', stored, unfolded⟩ :=
      expireLoop_cons consistent now
    have notLater := (List.nodup_cons.mp consistent.once).1
    have others : ∀ other ∈ expired, handled.heap other = manager.heap other := by
      intro other member
      rw [stored, store_heap_of_ne fun same : other = addr => notLater (same ▸ member)]
    rw [unfolded, expireLoop_entries now expired consistent', List.map_cons, found]
    refine congrArg _ (List.map_congr_left fun other member => ?_)
    rw [others other member]

/-! ### The pass -/

/-- Before the first due time nothing is expired. -/
theorem filter_expired_eq_nil (ordered : OrderedSet.Ordered manager.key manager.timers)
    {first : Nat} (isFirst : manager.firstNext = some first) (early : now < first) :
    manager.timers.filter (manager.expired false now) = [] := by
  obtain ⟨head, isHead, rfl⟩ := Option.map_eq_some_iff.mp isFirst
  obtain ⟨rest, split⟩ := List.head?_eq_some_iff.mp isHead
  have sorted := due_sorted ordered
  rw [split] at sorted ⊢
  refine List.filter_eq_nil_iff.mpr fun addr member => ?_
  rw [expired, Bool.false_or, decide_eq_true_eq, not_le]
  rcases List.mem_cons.mp member with rfl | later
  · exact early
  · exact early.trans_le ((List.pairwise_cons.mp sorted).1 addr later)

/-- **A pass is the loop over the expired timers**, taken out of the set; its early exits are passes
over none. -/
theorem listExpiredCb_eq (well : manager.WellFormed) (now : Nat) (tmp : Addr) :
    ∃ taken : TimerManager γ,
      taken.Consistent
        (manager.timers.filter (manager.expired (manager.detectClockRollover now).2 now)) ∧
      taken.heap = manager.heap ∧
      manager.listExpiredCb now tmp =
        expireLoop now
          (manager.timers.filter (manager.expired (manager.detectClockRollover now).2 now)) taken := by
  rw [listExpiredCb]
  cases isFirst : manager.firstNext with
  | none =>
      have empty : manager.timers = [] := by
        rwa [firstNext, Option.map_eq_none_iff, List.head?_eq_none_iff] at isFirst
      rw [empty]
      exact ⟨manager, well, rfl, rfl⟩
  | some first =>
      generalize detected : manager.detectClockRollover now = report
      obtain ⟨checked, rollover⟩ := report
      obtain rfl : { manager with previousTime := now } = checked := congrArg Prod.fst detected
      dsimp only
      by_cases early : rollover = false ∧ first > now
      · rw [if_pos early, early.1, filter_expired_eq_nil well.ordered isFirst early.2]
        exact ⟨{ manager with previousTime := now },
          ⟨well.ordered, well.once, well.apart, well.live⟩, rfl, rfl⟩
      · rw [if_neg early]
        have front : (({ manager with previousTime := now } : TimerManager γ).splitExpired rollover
            now tmp).1 = _ := splitExpired_eq well.ordered rollover now tmp
        have taken := take_front_spec well
          (splitExpired_append { manager with previousTime := now } rollover now tmp)
        rw [front] at taken
        refine ⟨{ manager with timers := _, previousTime := now },
          ⟨taken.ordered, taken.once, taken.apart, taken.live⟩, rfl, ?_⟩
        exact congrArg (fun due => expireLoop now due _) front

/-- What a pass leaves of an object: an expired timer of the set is set anew or loses its callback,
every other object is as it was. -/
def afterPass (manager : TimerManager γ) (rollover : Bool) (now : Nat) (addr : Addr)
    (timer : Timer γ) : Timer γ :=
  if addr ∈ manager.timers ∧ manager.expired rollover now addr = true then timer.expire now
  else timer

/-- **What a pass leaves in memory.** -/
theorem listExpiredCb_heap (well : manager.WellFormed) (now : Nat) (tmp : Addr) (addr : Addr) :
    (manager.listExpiredCb now tmp).1.heap addr =
      (manager.heap addr).map (manager.afterPass (manager.detectClockRollover now).2 now addr) := by
  obtain ⟨taken, consistent, sameHeap, pass⟩ := listExpiredCb_eq well now tmp
  obtain ⟨_, _, _, _, frame, written⟩ := expireLoop_spec now _ consistent
  rw [pass]
  by_cases front : addr ∈ manager.timers ∧
      manager.expired (manager.detectClockRollover now).2 now addr = true
  · obtain ⟨timer, found, _⟩ := (well.live addr).mp (Or.inl front.1)
    rw [written addr (List.mem_filter.mpr front) timer (sameHeap ▸ found), found, Option.map_some,
      afterPass, if_pos front]
  · rw [frame addr fun member => front (List.mem_filter.mp member), sameHeap]
    cases manager.heap addr with
    | none => rfl
    | some timer => rw [Option.map_some, afterPass, if_neg front]

/-- **What a pass leaves in the set**: the timers that are not expired and the recurring ones. -/
theorem mem_listExpiredCb (well : manager.WellFormed) (now : Nat) (tmp : Addr) (addr : Addr) :
    addr ∈ (manager.listExpiredCb now tmp).1.timers ↔
      addr ∈ manager.timers ∧ ∃ timer, manager.heap addr = some timer ∧
        (manager.expired (manager.detectClockRollover now).2 now addr = true →
          timer.recurring = true) := by
  have kept := (listExpiredCb_spec well now tmp).1
  have live := (or_iff_left List.not_mem_nil).symm.trans (kept.live addr)
  have was := (or_iff_left List.not_mem_nil).symm.trans (well.live addr)
  rw [live, Live, listExpiredCb_heap well]
  constructor
  · rintro ⟨_, written, set⟩
    obtain ⟨timer, found, rfl⟩ := Option.map_eq_some_iff.mp written
    rw [afterPass] at set
    split at set
    · rename_i front
      exact ⟨front.1, timer, found, fun _ => ((timer.expire_cb_isSome now).mp set).2⟩
    · rename_i behind
      have inSet := was.mpr ⟨timer, found, set⟩
      exact ⟨inSet, timer, found, fun isExpired => absurd ⟨inSet, isExpired⟩ behind⟩
  · rintro ⟨inSet, timer, found, again⟩
    obtain ⟨timer', found', set⟩ := was.mp inSet
    rw [found] at found'
    cases found'
    refine ⟨_, Option.map_eq_some_iff.mpr ⟨timer, found, rfl⟩, ?_⟩
    rw [afterPass]
    split
    · rename_i front
      exact (timer.expire_cb_isSome now).mpr ⟨set, again front.2⟩
    · exact set

/-! ### Runs -/

/-- **An expiry pass is exact** in every state of a run and at every reading of the clock, wherever
the temporary `now_timer` lies. It appends the callbacks of the timers due by `now`, or of all
timers when a rollover is reported, each once and in the order of `Comparator`. It leaves the other
timers as they are and in the set, sets the recurring ones anew from `now`, and takes the callback
from the others and them from the set. -/
theorem listExpiredCb_exact (start : Nat) (calls : List (Call γ)) {replies : List (Reply γ)}
    (executed : trace call (new start) calls = some (manager, replies)) (now : Nat) (tmp : Addr) :
    (manager.listExpiredCb now tmp).2 =
        (manager.timers.filter (manager.expired (manager.detectClockRollover now).2 now)).map
          (fun addr => (addr, (manager.heap addr).bind Timer.cb)) ∧
      (∀ addr, addr ∈ manager.timers ↔ ∃ timer, manager.heap addr = some timer ∧ timer.cb.isSome) ∧
      manager.timers.Pairwise (fun first second =>
        Timer.Comparator (manager.pointee first) (manager.pointee second) = true) ∧
      (∀ addr, addr ∈ (manager.listExpiredCb now tmp).1.timers ↔
        addr ∈ manager.timers ∧ ∃ timer, manager.heap addr = some timer ∧
          (manager.expired (manager.detectClockRollover now).2 now addr = true →
            timer.recurring = true)) ∧
      ∀ addr timer, manager.heap addr = some timer →
        (manager.listExpiredCb now tmp).1.heap addr =
          some (if addr ∈ manager.timers ∧
              manager.expired (manager.detectClockRollover now).2 now addr = true then
            if timer.recurring then { timer with next := add64 now timer.ms }
            else { timer with cb := none }
          else timer) := by
  have well : manager.WellFormed := run_wellFormed executed
  obtain ⟨members, ordered, _⟩ := timers_consistent start calls executed
  refine ⟨?_, members, ordered, mem_listExpiredCb well now tmp, fun addr timer found => ?_⟩
  · obtain ⟨taken, consistent, sameHeap, pass⟩ := listExpiredCb_eq well now tmp
    rw [pass, expireLoop_entries now _ consistent, sameHeap]
  · rw [listExpiredCb_heap well, found]
    rfl

/-- Two timers due at the reading, on either side of the temporary, and a later one; the recurring
one has period zero and is due again at once. -/
theorem listExpiredCb_exact_ties :
    ∃ manager replies, trace call (new 0 : TimerManager String)
        [.addTimer 5 "once" false 0 7, .addTimer 0 "often" true 5 3, .addTimer 9 "late" false 0 1] =
          some (manager, replies) ∧
      (manager.listExpiredCb 5 4).2 = [(3, some "often"), (7, some "once")] ∧
      3 ∈ (manager.listExpiredCb 5 4).1.timers := by
  have executed : trace call (new 0 : TimerManager String)
      [.addTimer 5 "once" false 0 7, .addTimer 0 "often" true 5 3,
        .addTimer 9 "late" false 0 1] = some (_, _) := rfl
  obtain ⟨entries, _, _, members, _⟩ := listExpiredCb_exact 0 _ executed 5 4
  exact ⟨_, _, executed, entries.trans rfl, (members 3).mpr ⟨by decide, _, rfl, fun _ => rfl⟩⟩

end Wyze.TimerManager
