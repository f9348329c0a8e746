/-
**Runs of the timer manager.**

Every sequence of operations keeps the set in order and equal to the set of live timers, finds every
timer it looks for, and fires a timer neither after it was cancelled nor, when it is not recurring,
twice: `timers_consistent`. Firing is bounded by a credit that each timer holds until it is spent.
-/
import Mathlib.Data.List.Nodup
import Wyze.Lib.Run
import Wyze.Timer.Invariant

namespace Wyze.TimerManager

open Labelled

variable {γ : Type*} {manager next : TimerManager γ} {addr : Addr} {label : Call γ}
  {reply : Reply γ}

/-- A timer is created at an address that has none. -/
theorem addTimer_of_call {ms : Nat} {cb : γ} {recurring : Bool} {now : Nat}
    (called : manager.call (.addTimer ms cb recurring now addr) = some (next, reply)) :
    manager.heap addr = none ∧ manager.addTimer ms cb recurring now addr = (next, reply) := by
  rw [call] at called
  split at called
  · cases called
  · rename_i fresh
    exact ⟨Option.not_isSome_iff_eq_none.mp fresh, Option.some.inj called⟩

/-- **One operation** keeps the invariant, never erases `end()`, hands out live timers, each once
with its own callback, and retires what it hands out unless it is recurring. -/
theorem call_keeps (well : manager.WellFormed) (called : manager.call label = some (next, reply)) :
    next.WellFormed ∧ manager.Later next ∧ reply ≠ .eraseEnd ∧ reply.fired.Nodup ∧
      (∀ cbs, reply = .expired cbs → ∀ entry ∈ cbs, ∃ timer,
        manager.heap entry.1 = some timer ∧ entry.2 = timer.cb ∧ timer.cb.isSome) ∧
      ∀ addr ∈ reply.fired, ∀ timer, next.heap addr = some timer → timer.recurring = false →
        timer.cb = none := by
  cases label with
  | addTimer ms cb recurring now addr =>
      obtain ⟨fresh, added⟩ := addTimer_of_call called
      obtain ⟨kept, later⟩ := addTimer_spec well fresh ms cb recurring now
      cases added
      exact ⟨kept, later, nofun, List.nodup_nil, nofun, nofun⟩
  | cancel addr =>
      obtain ⟨self, found, cancelled⟩ := Option.map_eq_some_iff.mp called
      obtain ⟨_, _, returned, kept, later, _⟩ := cancel_spec well found
      rw [returned] at cancelled
      cases cancelled
      exact ⟨kept, later, nofun, List.nodup_nil, nofun, nofun⟩
  | refresh addr now =>
      obtain ⟨self, found, refreshed⟩ := Option.map_eq_some_iff.mp called
      obtain ⟨_, _, returned, kept, later⟩ := refresh_spec well found now
      rw [returned] at refreshed
      cases refreshed
      exact ⟨kept, later, nofun, List.nodup_nil, nofun, nofun⟩
  | reset addr ms fromNow now =>
      obtain ⟨self, found, set⟩ := Option.map_eq_some_iff.mp called
      obtain ⟨_, _, _, returned, kept, later⟩ := reset_spec well found ms fromNow now
      rw [returned] at set
      cases set
      exact ⟨kept, later, nofun, List.nodup_nil, nofun, nofun⟩
  | getNextTimer now =>
      cases called
      exact ⟨⟨well.ordered, well.once, well.apart, well.live⟩, .refl manager, nofun,
        List.nodup_nil, nofun, nofun⟩
  | listExpiredCb now tmp =>
      obtain ⟨kept, later, once, callbacks, spent⟩ := listExpiredCb_spec well now tmp
      cases called
      exact ⟨kept, later, nofun, once, fun cbs same => by cases same; exact callbacks, spent⟩

/-- Only live timers are fired. -/
theorem fired_live (well : manager.WellFormed) (called : manager.call label = some (next, reply))
    (fired : addr ∈ reply.fired) : manager.Live addr := by
  obtain ⟨_, _, _, _, callbacks, _⟩ := call_keeps well called
  cases reply with
  | expired cbs =>
      obtain ⟨entry, member, rfl⟩ := List.mem_map.mp fired
      obtain ⟨timer, found, _, set⟩ := callbacks cbs rfl entry member
      exact ⟨timer, found, set⟩
  | _ => cases fired

/-- Neither `erase(end())` nor a null callback. -/
def Proper (reply : Reply γ) : Prop :=
  reply ≠ .eraseEnd ∧ ∀ cbs, reply = .expired cbs → ∀ entry ∈ cbs, entry.2.isSome

theorem call_proper (well : manager.WellFormed) (called : manager.call label = some (next, reply)) :
    Proper reply := by
  obtain ⟨_, _, found, _, callbacks, _⟩ := call_keeps well called
  refine ⟨found, fun cbs same entry member => ?_⟩
  obtain ⟨timer, _, same', set⟩ := callbacks cbs same entry member
  rw [same']
  exact set

/-! ### Credit -/

/-- One for a timer that has yet to fire or to be cancelled, also before it is created. -/
def credit (manager : TimerManager γ) (addr : Addr) : Nat :=
  match manager.heap addr with
  | none => 1
  | some timer => if timer.cb.isSome then 1 else 0

/-- The timer, if it exists, is not recurring. -/
def OneShot (manager : TimerManager γ) (addr : Addr) : Prop :=
  ∀ timer, manager.heap addr = some timer → timer.recurring = false

theorem OneShot.of_later (later : manager.Later next) (once : next.OneShot addr) :
    manager.OneShot addr := by
  intro timer found
  obtain ⟨timer', found', kind, _⟩ := later addr timer found
  rw [← kind, once timer' found']

theorem credit_of_later (later : manager.Later next) (addr : Addr) :
    next.credit addr ≤ manager.credit addr := by
  have least : next.credit addr ≤ 1 := by
    rw [credit]
    split
    · exact le_rfl
    · split <;> omega
  rw [credit.eq_def manager]
  split
  · exact least
  · rename_i timer found
    obtain ⟨timer', found', _, gone⟩ := later addr timer found
    split
    · exact least
    · rename_i unset
      have gone' := gone (Option.not_isSome_iff_eq_none.mp unset)
      simp [credit, found', gone']

/-- A handed-out one-shot timer pays with its credit. -/
theorem call_credit (well : manager.WellFormed) (called : manager.call label = some (next, reply))
    (once : next.OneShot addr) :
    reply.fired.count addr + next.credit addr ≤ manager.credit addr := by
  obtain ⟨_, later, _, nodup, callbacks, spent⟩ := call_keeps well called
  by_cases fired : addr ∈ reply.fired
  · obtain ⟨timer, found, set⟩ := fired_live well called fired
    obtain ⟨timer', found', _, _⟩ := later addr timer found
    have gone := spent addr fired timer' found' (once timer' found')
    have single := List.nodup_iff_count_le_one.mp nodup addr
    simpa [credit, found, found', set, gone] using single
  · rw [List.count_eq_zero_of_not_mem fired, Nat.zero_add]
    exact credit_of_later later addr

/-- **A one-shot timer fires at most once in a run.** -/
theorem run_credit (addr : Addr) :
    ∀ (calls : List (Call γ)) {manager final : TimerManager γ} {replies : List (Reply γ)},
      manager.WellFormed → trace call manager calls = some (final, replies) →
      final.OneShot addr → manager.OneShot addr ∧
        (replies.flatMap Reply.fired).count addr + final.credit addr ≤ manager.credit addr := by
  intro calls
  induction calls with
  | nil =>
      intro manager final replies _ executed once
      cases executed
      exact ⟨once, by simp⟩
  | cons label calls ih =>
      intro manager final replies well executed once
      obtain ⟨next, reply, rest, called, tail, rfl⟩ := trace_cons_eq_some.mp executed
      obtain ⟨kept, later, _⟩ := call_keeps well called
      obtain ⟨once', paid⟩ := ih kept tail once
      have first := call_credit well called once'
      refine ⟨once'.of_later later, ?_⟩
      rw [List.flatMap_cons, List.count_append]
      omega

/-! ### Cancelled timers -/

/-- The object exists and its callback is gone. -/
def Spent (manager : TimerManager γ) (addr : Addr) : Prop :=
  ∃ timer, manager.heap addr = some timer ∧ timer.cb = none

theorem Spent.not_live (spent : manager.Spent addr) : ¬ manager.Live addr := by
  rintro ⟨timer, found, set⟩
  obtain ⟨timer', found', gone⟩ := spent
  rw [found] at found'
  cases found'
  rw [gone] at set
  cases set

theorem Spent.later (spent : manager.Spent addr) (later : manager.Later next) :
    next.Spent addr := by
  obtain ⟨timer, found, gone⟩ := spent
  obtain ⟨timer', found', _, gone'⟩ := later addr timer found
  exact ⟨timer', found', gone' gone⟩

/-- **A spent timer never fires again.** -/
theorem run_spent (calls : List (Call γ)) {final : TimerManager γ} {replies : List (Reply γ)}
    (well : manager.WellFormed) (spent : manager.Spent addr)
    (executed : trace call manager calls = some (final, replies)) :
    ∀ reply ∈ replies, addr ∉ reply.fired := by
  refine (trace_shows (fun state label next (before : state.WellFormed ∧ state.Spent addr) called =>
    ?_) calls ⟨well, spent⟩ executed).2
  obtain ⟨kept, later, _⟩ := call_keeps before.1 called
  exact ⟨⟨kept, before.2.later later⟩, fun fired => before.2.not_live (fired_live before.1 called fired)⟩

/-- A successful `cancel` leaves a spent timer. -/
theorem cancel_spends (well : manager.WellFormed) {atFront : Bool}
    (called : manager.call (.cancel addr) = some (next, .returned true atFront)) :
    next.Spent addr := by
  obtain ⟨self, found, cancelled⟩ := Option.map_eq_some_iff.mp called
  obtain ⟨_, _, returned, _, _, gone⟩ := cancel_spec well found
  rw [returned] at cancelled
  cases cancelled
  exact ⟨_, gone rfl, rfl⟩

/-! ### Runs -/

/-- Every run of a new manager keeps the invariant. -/
theorem run_wellFormed {start : Nat} {calls : List (Call γ)} {replies : List (Reply γ)}
    (executed : trace call (new start) calls = some (manager, replies)) : manager.WellFormed :=
  trace_invariant' (fun state _ _ (before : state.WellFormed) called =>
    (call_keeps before called).1) (new_wellFormed start) executed

/-- **The timer set is always right.** After any sequence of operations on a new manager it holds
exactly the timers whose callback is set, in strictly increasing order, and `find` hits each of
them, so that no `cancel` of the run erased `end()`. No callback handed out was null, none was handed
out after a `cancel` of its timer that returned true, and that of a one-shot timer at most once. -/
theorem timers_consistent (start : Nat) (calls : List (Call γ)) {final : TimerManager γ}
    {replies : List (Reply γ)} (executed : trace call (new start) calls = some (final, replies)) :
    (∀ addr, addr ∈ final.timers ↔ ∃ timer, final.heap addr = some timer ∧ timer.cb.isSome) ∧
      final.timers.Pairwise (fun first second =>
        Timer.Comparator (final.pointee first) (final.pointee second) = true) ∧
      final.timers.Nodup ∧
      (∀ addr timer, final.heap addr = some timer → timer.cb.isSome →
        (final.findErase addr).isSome) ∧
      .eraseEnd ∉ replies ∧
      (∀ cbs, .expired cbs ∈ replies → ∀ entry ∈ cbs, entry.2.isSome) ∧
      (∀ before addr after front atFront back, calls = before ++ .cancel addr :: after →
        replies = front ++ .returned true atFront :: back → front.length = before.length →
        ∀ reply ∈ back, addr ∉ reply.fired) ∧
      ∀ addr timer, final.heap addr = some timer → timer.recurring = false →
        (replies.flatMap Reply.fired).count addr ≤ 1 := by
  obtain ⟨well, shown⟩ := trace_shows (fun state label next (before : state.WellFormed) called =>
    ⟨(call_keeps before called).1, call_proper before called⟩) calls (new_wellFormed start) executed
  refine ⟨fun addr => ?_, ?_, well.ordered.nodup, fun addr timer found set => ?_,
    fun erased => (shown _ erased).1 rfl, fun cbs member => (shown _ member).2 cbs rfl, ?_,
    fun addr timer found once => ?_⟩
  · exact (or_iff_left List.not_mem_nil).symm.trans (well.live addr)
  · refine List.Pairwise.imp_of_mem (fun {first second} inFirst inSecond smaller => ?_) well.ordered
    obtain ⟨timer, found, _⟩ := (well.live first).mp (Or.inl inFirst)
    obtain ⟨timer', found', _⟩ := (well.live second).mp (Or.inl inSecond)
    rw [comparator_pointee found found']
    exact decide_eq_true smaller
  · obtain ⟨rest, erased, _⟩ := findErase_spec well (mem_of_set well found set)
    rw [erased]
    rfl
  · rintro before addr after front atFront back rfl split sameLength reply member
    obtain ⟨middle, front', back', first, second, split'⟩ := trace_append_eq_some.mp executed
    obtain ⟨next, answer, rest, called, tail, rfl⟩ := trace_cons_eq_some.mp second
    obtain ⟨rfl, same⟩ := List.append_inj (split.symm.trans split')
      (sameLength.trans (length_of_trace first).symm)
    cases same
    have kept : middle.WellFormed := run_wellFormed first
    exact run_spent after (call_keeps kept called).1 (cancel_spends kept called) tail reply member
  · have once' : final.OneShot addr := fun timer' found' => by
      rw [found] at found'
      cases found'
      exact once
    have paid := (run_credit addr calls (new_wellFormed start) executed once').2
    have one : (new start : TimerManager γ).credit addr = 1 := rfl
    omega

/-- A one-shot and a recurring timer due at the same time; the recurring one fires, is moved, is
cancelled and stays silent. -/
theorem timers_consistent_cancelled :
    ∃ final replies, trace call (new 0 : TimerManager String)
        [.addTimer 5 "once" false 0 7, .addTimer 5 "often" true 0 3, .listExpiredCb 5 9,
          .reset 3 8 false 6, .cancel 3, .listExpiredCb 100 9] = some (final, replies) ∧
      replies.map Reply.fired = [[], [], [3, 7], [], [], []] ∧
      final.timers.Nodup ∧ .eraseEnd ∉ replies := by
  have executed : trace call (new 0 : TimerManager String)
      [.addTimer 5 "once" false 0 7, .addTimer 5 "often" true 0 3, .listExpiredCb 5 9,
        .reset 3 8 false 6, .cancel 3, .listExpiredCb 100 9] = some (_, _) := rfl
  obtain ⟨_, _, nodup, _, no_end, _⟩ := timers_consistent 0 _ executed
  exact ⟨_, _, executed, rfl, nodup, no_end⟩

end Wyze.TimerManager
