/-
**The timeouts of one turn of the idle loop.**

`epollWaits` are the timeouts that `IOManager::idle` passes to `epoll_wait`, attempt by attempt, when
all but the last are interrupted by a signal: `next_timeout` is converted to `int` and capped in
every round, and what a round leaves in it the next round starts from. The remaining time is read
from the clock once, by `getNextTimer`.

* `epollWaits_eq` — the second round changes nothing, so that every attempt passes `epollTimeout`.
* `epollTimeout_bounds_iff` — the conversion is harmless unless it sets the sign bit.
* `epollWaits_bounded_iff` — which timeouts lie between zero and five seconds and end by the earliest
  deadline.
-/
import Wyze.Scheduler.Basic
import Wyze.Timer.Announce

namespace Wyze

open Labelled TimerManager

/-- What a round of the loop leaves in `next_timeout`; the cap is `MAX_TIMEOUT`. -/
def capTimeout (nextTimeout : Nat) : Nat :=
  if nextTimeout ≠ 2 ^ 64 - 1 then if toInt32 nextTimeout < 5000 then nextTimeout else 5000 else 5000

/-- The timeouts passed to `epoll_wait`, each with the clock at its attempt; every attempt but the
last returns with `EINTR`. -/
def epollWaits : Nat → List Nat → List (Nat × Int)
  | _, [] => []
  | nextTimeout, clock :: clocks =>
    (clock, toInt32 (capTimeout nextTimeout)) :: epollWaits (capTimeout nextTimeout) clocks

/-! ### The rounds -/

theorem toInt32_capTimeout (nextTimeout : Nat) :
    toInt32 (capTimeout nextTimeout) = epollTimeout nextTimeout := by
  have limit : toInt32 5000 = 5000 := by decide
  rw [capTimeout, epollTimeout]
  split
  · split
    · rfl
    · exact limit
  · exact limit

/-- **A retry starts from a capped value** and leaves it as it is. -/
theorem capTimeout_capTimeout (nextTimeout : Nat) :
    capTimeout (capTimeout nextTimeout) = capTimeout nextTimeout := by
  have limit : capTimeout 5000 = 5000 := by decide
  by_cases finite : nextTimeout ≠ 2 ^ 64 - 1
  · by_cases short : toInt32 nextTimeout < 5000
    · have same : capTimeout nextTimeout = nextTimeout := by
        rw [capTimeout, if_pos finite, if_pos short]
      rw [same, same]
    · have capped : capTimeout nextTimeout = 5000 := by
        rw [capTimeout, if_pos finite, if_neg short]
      rw [capped, limit]
  · have capped : capTimeout nextTimeout = 5000 := by rw [capTimeout, if_neg finite]
    rw [capped, limit]

/-- Every attempt passes the same timeout. -/
theorem epollWaits_eq : ∀ (clocks : List Nat) (nextTimeout : Nat),
    epollWaits nextTimeout clocks = clocks.map fun clock => (clock, epollTimeout nextTimeout)
  | [], _ => rfl
  | clock :: clocks, nextTimeout => by
    have same : epollTimeout (capTimeout nextTimeout) = epollTimeout nextTimeout := by
      rw [← toInt32_capTimeout, capTimeout_capTimeout, toInt32_capTimeout]
    rw [epollWaits, epollWaits_eq clocks, same, toInt32_capTimeout, List.map_cons]

/-! ### The conversion -/

/-- The sign bit of the converted value is not set, or there is no timer. -/
def SignClear (remaining : Nat) : Prop := remaining = 2 ^ 64 - 1 ∨ remaining % 2 ^ 32 < 2 ^ 31

instance (remaining : Nat) : Decidable (SignClear remaining) := inferInstanceAs (Decidable (_ ∨ _))

theorem epollTimeout_of_signClear {remaining : Nat} (clear : SignClear remaining) :
    epollTimeout remaining = (min (remaining % 2 ^ 32) 5000 : Nat) := by
  rw [epollTimeout]
  rcases clear with rfl | small
  · rfl
  · rw [if_pos (by rintro rfl; exact absurd small (by decide)), toInt32, if_pos small]
    split <;> omega

/-- **The conversion to `int`** gives a timeout between zero and five seconds unless it sets the sign
bit. -/
theorem epollTimeout_bounds_iff (remaining : Nat) :
    0 ≤ epollTimeout remaining ∧ epollTimeout remaining ≤ 5000 ↔ SignClear remaining := by
  constructor
  · rintro ⟨positive, _⟩
    by_contra set
    obtain ⟨finite, large⟩ := not_or.mp set
    rw [epollTimeout, if_pos finite, toInt32, if_neg large] at positive
    have small := Nat.mod_lt remaining (by decide : 0 < 2 ^ 32)
    split at positive <;> omega
  · intro clear
    rw [epollTimeout_of_signClear clear]
    omega

/-! ### The deadline -/

namespace TimerManager

variable {γ : Type*} {manager : TimerManager γ} {now : Nat}

/-- The timeout lies between zero and five seconds and ends by the earliest deadline. -/
def Bounded (manager : TimerManager γ) (attempt : Nat × Int) : Prop :=
  0 ≤ attempt.2 ∧ attempt.2 ≤ 5000 ∧
    ∀ addr ∈ manager.timers, attempt.2 ≤ (manager.due addr - attempt.1 : Nat)

/-- The earliest deadline at which the sign bit stays clear, and which is still as far away at every
attempt as the capped time to it was at the reading of `getNextTimer`. -/
def Near (manager : TimerManager γ) (now : Nat) (clocks : List Nat) : Prop :=
  ∀ first ∈ manager.firstNext, SignClear (first - now) ∧
    ∀ clock ∈ clocks, min ((first - now) % 2 ^ 32) 5000 ≤ first - clock

/-- No deadline of the set is earlier than that of its first timer. -/
theorem forall_due_iff (well : manager.WellFormed) {bound : Int} {clock : Nat} :
    (∀ addr ∈ manager.timers, bound ≤ (manager.due addr - clock : Nat)) ↔
      ∀ first ∈ manager.firstNext, bound ≤ (first - clock : Nat) := by
  have sorted := due_sorted well.ordered
  have isFirst : manager.firstNext = manager.timers.head?.map manager.due := rfl
  rw [isFirst]
  cases timers : manager.timers with
  | nil => exact iff_of_true (fun _ member => nomatch member) (fun _ member => nomatch member)
  | cons head rest =>
      rw [timers] at sorted
      rw [List.head?_cons, Option.map_some]
      constructor
      · rintro all first ⟨⟩
        exact all head List.mem_cons_self
      · intro bounded addr member
        have least : manager.due head ≤ manager.due addr := by
          rcases List.mem_cons.mp member with rfl | later
          · exact le_rfl
          · exact (List.pairwise_cons.mp sorted).1 addr later
        have here := bounded (manager.due head) rfl
        omega

/-- The result of `getNextTimer` is the time to the first deadline. -/
theorem getNextTimer_eq (manager : TimerManager γ) (now : Nat) :
    (manager.getNextTimer now).2 = (manager.firstNext.map (· - now)).getD (2 ^ 64 - 1) := by
  rw [getNextTimer]
  cases manager.firstNext with
  | none => rfl
  | some first =>
      rw [Option.map_some, Option.getD_some]
      dsimp only
      split <;> omega

/-- **The timeouts are right exactly when the earliest deadline is near.** In every state of a run,
for every reading of `getNextTimer` and every sequence of attempts, all timeouts passed to
`epoll_wait` lie between zero and five seconds and within the time that remains until the earliest
deadline if and only if there is no timer, or the time to it leaves the sign bit of an `int` clear
and no retry comes when less than the capped time is left. -/
theorem epollWaits_bounded_iff (start : Nat) (calls : List (Call γ)) {replies : List (Reply γ)}
    (executed : trace call (new start) calls = some (manager, replies)) (now clock : Nat)
    (clocks : List Nat) :
    (∀ attempt ∈ epollWaits (manager.getNextTimer now).2 (clock :: clocks),
        manager.Bounded attempt) ↔ manager.Near now (clock :: clocks) := by
  have well : manager.WellFormed := run_wellFormed executed
  rw [epollWaits_eq, List.forall_mem_map, getNextTimer_eq]
  simp only [Bounded, forall_due_iff well]
  cases isFirst : manager.firstNext with
  | none =>
      have range : 0 ≤ epollTimeout (2 ^ 64 - 1) ∧ epollTimeout (2 ^ 64 - 1) ≤ 5000 := by decide
      refine iff_of_true (fun _ _ => ⟨range.1, range.2, ?_⟩) ?_
      · exact fun _ absent => nomatch absent
      · intro first absent
        rw [isFirst] at absent
        cases absent
  | some first =>
      have near : manager.Near now (clock :: clocks) ↔ SignClear (first - now) ∧
          ∀ reading ∈ clock :: clocks, min ((first - now) % 2 ^ 32) 5000 ≤ first - reading := by
        rw [Near, isFirst]
        exact ⟨fun all => all first rfl, fun here first' same => by cases same; exact here⟩
      rw [near, Option.map_some, Option.getD_some]
      constructor
      · intro bounded
        have range := bounded clock List.mem_cons_self
        have clear := (epollTimeout_bounds_iff (first - now)).mp ⟨range.1, range.2.1⟩
        refine ⟨clear, fun reading member => ?_⟩
        have within := (bounded reading member).2.2 first rfl
        rw [epollTimeout_of_signClear clear] at within
        exact_mod_cast within
      · rintro ⟨clear, within⟩ reading member
        obtain ⟨positive, capped⟩ := (epollTimeout_bounds_iff (first - now)).mpr clear
        refine ⟨positive, capped, ?_⟩
        rintro first' ⟨⟩
        rw [epollTimeout_of_signClear clear]
        exact_mod_cast within reading member

/-- A timer seven seconds away: the first attempt is interrupted after a second and a half. -/
theorem epollWaits_bounded_retry :
    ∃ manager replies, trace call (new 100 : TimerManager String)
        [.addTimer 7000 "job" false 100 7] = some (manager, replies) ∧
      ∀ attempt ∈ epollWaits (manager.getNextTimer 100).2 [100, 1600], manager.Bounded attempt := by
  have executed : trace call (new 100 : TimerManager String)
      [.addTimer 7000 "job" false 100 7] = some (_, _) := rfl
  refine ⟨_, _, executed, (epollWaits_bounded_iff 100 _ executed 100 100 [1600]).mpr ?_⟩
  rintro first ⟨⟩
  exact ⟨Or.inr (by decide), by decide⟩

/-- **A timer 2³¹ ms away makes the timeout negative**, and `epoll_wait` blocks until an event; and a
retry after two of three seconds waits for three more. -/
theorem epollWaits_bounded_fails :
    (∃ manager replies, trace call (new 100 : TimerManager String)
        [.addTimer (2 ^ 31) "job" false 100 7] = some (manager, replies) ∧
      epollWaits (manager.getNextTimer 100).2 [100] = [(100, -2147483648)] ∧
      ¬ manager.Bounded (100, -2147483648)) ∧
    ∃ manager replies, trace call (new 100 : TimerManager String)
        [.addTimer 3000 "job" false 100 7] = some (manager, replies) ∧
      epollWaits (manager.getNextTimer 100).2 [100, 2100] = [(100, 3000), (2100, 3000)] ∧
      ¬ manager.Bounded (2100, 3000) := by
  refine ⟨⟨_, _, rfl, by decide, fun bounded => absurd bounded.1 (by decide)⟩,
    _, _, rfl, by decide, fun bounded => ?_⟩
  have within := bounded.2.2 7 (List.mem_singleton.mpr rfl)
  exact absurd within (by decide)

end TimerManager

end Wyze
