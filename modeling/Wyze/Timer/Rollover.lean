/-
**When a rollover of the clock is reported.**

`detectClockRollover` compares a reading with the one of its previous call, less twelve hours, on
`uint64_t`. Within the first twelve hours of the clock's scale that subtraction wraps, and any step
back is taken for a rollover (`detectClockRollover_iff`). `rollover_exact` says so for every sequence
of readings, and for every run of the manager, where a false report hands out timers before they are
due.
-/
import Wyze.Timer.Announce

namespace Wyze.TimerManager

open Labelled

variable {γ : Type*} {manager next : TimerManager γ} {now : Nat} {label : Call γ} {reply : Reply γ}

/-- Twelve hours. -/
def halfDay : Nat := 1000 * 60 * 60 * 12

/-- What `detectClockRollover` returns for one reading after the other. -/
def detections (manager : TimerManager γ) : List Nat → List Bool
  | [] => []
  | now :: readings =>
    (manager.detectClockRollover now).2 :: (manager.detectClockRollover now).1.detections readings

/-- Whether each reading is more than twelve hours earlier than the one before. -/
def setBacks : Nat → List Nat → List Bool
  | _, [] => []
  | previous, now :: readings => decide (now + halfDay < previous) :: setBacks now readings

/-- The clock does not step back within its first twelve hours. -/
def Distant (previous now : Nat) : Prop := now < previous → halfDay ≤ previous

instance (previous now : Nat) : Decidable (Distant previous now) :=
  inferInstanceAs (Decidable (_ → _))

/-! ### One reading -/

/-- **What is reported**: a step back by more than twelve hours, or any step back within the first
twelve hours. -/
theorem detectClockRollover_iff (fits : manager.previousTime < 2 ^ 64) :
    (manager.detectClockRollover now).2 = true ↔
      now + halfDay < manager.previousTime ∨
        now < manager.previousTime ∧ manager.previousTime < halfDay := by
  rw [detectClockRollover, Bool.and_eq_true, decide_eq_true_eq, decide_eq_true_eq]
  change now < manager.previousTime ∧ now < sub64 manager.previousTime halfDay ↔ _
  rcases le_or_gt halfDay manager.previousTime with long | short
  · rw [sub64_of_le long fits]
    omega
  · rw [sub64_of_lt short (by decide)]
    have small : halfDay ≤ 2 ^ 64 - halfDay := by decide
    omega

/-- The report is right for every reading that does not step back within the first twelve hours. -/
theorem detectClockRollover_exact (fits : manager.previousTime < 2 ^ 64) :
    ((manager.detectClockRollover now).2 = true ↔ now + halfDay < manager.previousTime) ↔
      Distant manager.previousTime now := by
  rw [detectClockRollover_iff fits, Distant]
  omega

/-- **Every sequence of readings.** -/
theorem detections_eq_setBacks_iff : ∀ (readings : List Nat) {manager : TimerManager γ},
    manager.previousTime < 2 ^ 64 → (∀ now ∈ readings, now < 2 ^ 64) →
    (manager.detections readings = setBacks manager.previousTime readings ↔
      (manager.previousTime :: readings).IsChain Distant)
  | [], _, _, _ => iff_of_true rfl (.singleton _)
  | now :: readings, manager, fits, all => by
    obtain ⟨here, later⟩ := List.forall_mem_cons.mp all
    have rest : (manager.detectClockRollover now).1.detections readings = _ ↔ _ :=
      detections_eq_setBacks_iff readings here later
    rw [detections, setBacks, List.cons_eq_cons, List.isChain_cons_cons]
    refine and_congr ?_ rest
    rw [← detectClockRollover_exact fits, Bool.eq_iff_iff, decide_eq_true_eq]

/-! ### Runs -/

/-- The reading of the last call of `detectClockRollover`; a pass over an empty set makes none. -/
def lastReading (manager : TimerManager γ) (previous : Nat) : Call γ → Nat
  | .listExpiredCb now _ => if manager.timers = [] then previous else now
  | _ => previous

/-- One operation, with the last reading of `detectClockRollover` kept beside the manager. -/
def readingCall (state : TimerManager γ × Nat) (label : Call γ) :
    Option ((TimerManager γ × Nat) × Reply γ) :=
  (state.1.call label).map fun (next, reply) =>
    ((next, state.1.lastReading state.2 label), reply)

/-- The pass reports a rollover exactly when its reading is more than twelve hours earlier than the
last one, and else hands out no timer before it is due. -/
def ExactPass (state : TimerManager γ × Nat) : Call γ → Prop
  | .listExpiredCb now tmp => state.1.timers ≠ [] →
    ((state.1.detectClockRollover now).2 = true ↔ now + halfDay < state.2) ∧
      ∀ entry ∈ (state.1.listExpiredCb now tmp).2,
        state.1.due entry.1 ≤ now ∨ now + halfDay < state.2
  | _ => True

/-- The pass does not see the clock step back within its first twelve hours. -/
def DistantPass (state : TimerManager γ × Nat) : Call γ → Prop
  | .listExpiredCb now _ => state.1.timers ≠ [] → Distant state.2 now
  | _ => True

/-- Readings of the clock are 64-bit numbers. -/
def Call.Reads64 (label : Call γ) : Prop := ∀ now ∈ label.reading, now < 2 ^ 64

theorem refresh_previousTime (addr : Addr) (self : Timer γ) (now : Nat) :
    (manager.refresh addr self now).1.previousTime = manager.previousTime := by
  rw [refresh]
  split
  · rfl
  split
  · rfl
  · rename_i erased found
    obtain ⟨left, rfl⟩ := findErase_eq found
    rfl

theorem reset_previousTime (addr : Addr) (self : Timer γ) (ms : Nat) (fromNow : Bool) (now : Nat) :
    (manager.reset addr self ms fromNow now).1.previousTime = manager.previousTime := by
  rw [reset]
  split
  · rfl
  split
  · rfl
  split
  · rfl
  · rename_i erased found
    obtain ⟨left, rfl⟩ := findErase_eq found
    rfl

theorem firstNext_eq_none : manager.firstNext = none ↔ manager.timers = [] := by
  rw [firstNext, Option.map_eq_none_iff, List.head?_eq_none_iff]

theorem listExpiredCb_previousTime (now : Nat) (tmp : Addr) :
    (manager.listExpiredCb now tmp).1.previousTime =
      if manager.timers = [] then manager.previousTime else now := by
  rw [listExpiredCb]
  cases isFirst : manager.firstNext with
  | none => rw [if_pos (firstNext_eq_none.mp isFirst)]
  | some first =>
      rw [if_neg fun empty => by rw [firstNext_eq_none.mpr empty] at isFirst; cases isFirst]
      dsimp only [detectClockRollover]
      split
      · rfl
      · exact (expireLoop_flags ..).2

/-- Only a pass over timers takes a reading down. -/
theorem call_previousTime (called : manager.call label = some (next, reply)) :
    next.previousTime = manager.lastReading manager.previousTime label := by
  cases label with
  | addTimer ms cb recurring now addr =>
      obtain ⟨_, added⟩ := addTimer_of_call called
      cases added
      rfl
  | cancel addr =>
      obtain ⟨self, _, cancelled⟩ := Option.map_eq_some_iff.mp called
      obtain rfl : (manager.cancel addr self).1 = next := congrArg Prod.fst cancelled
      exact (cancel_leaves manager addr self).2.1
  | refresh addr now =>
      obtain ⟨self, _, refreshed⟩ := Option.map_eq_some_iff.mp called
      obtain rfl : (manager.refresh addr self now).1 = next := congrArg Prod.fst refreshed
      exact refresh_previousTime addr self now
  | reset addr ms fromNow now =>
      obtain ⟨self, _, set⟩ := Option.map_eq_some_iff.mp called
      obtain rfl : (manager.reset addr self ms fromNow now).1 = next := congrArg Prod.fst set
      exact reset_previousTime addr self ms fromNow now
  | getNextTimer now =>
      cases called
      rfl
  | listExpiredCb now tmp =>
      cases called
      exact listExpiredCb_previousTime now tmp

/-- **The invariant of a recorded run**: `m_previousTime` is the last reading. -/
structure Recorded (state : TimerManager γ × Nat) : Prop where
  well : state.1.WellFormed
  same : state.1.previousTime = state.2
  fits : state.2 < 2 ^ 64

theorem recorded_new {start : Nat} (fits : start < 2 ^ 64) :
    Recorded ((new start : TimerManager γ), start) :=
  ⟨new_wellFormed start, rfl, fits⟩

theorem readingCall_recorded {state : TimerManager γ × Nat}
    {next : (TimerManager γ × Nat) × Reply γ} (recorded : Recorded state)
    (reads : label.Reads64) (stepped : readingCall state label = some next) : Recorded next.1 := by
  obtain ⟨⟨manager, reply⟩, called, rfl⟩ := Option.map_eq_some_iff.mp stepped
  refine ⟨(call_keeps recorded.well called).1, ?_, ?_⟩
  · rw [call_previousTime called, recorded.same]
  · change state.1.lastReading state.2 label < 2 ^ 64
    cases label with
    | listExpiredCb now tmp =>
        rw [lastReading]
        split
        · exact recorded.fits
        · exact reads now rfl
    | _ => exact recorded.fits

/-- Only a reported rollover hands out a timer that is not due. -/
theorem due_le_of_mem_listExpiredCb (well : manager.WellFormed) {tmp : Addr}
    {entry : Addr × Option γ} (member : entry ∈ (manager.listExpiredCb now tmp).2) :
    manager.due entry.1 ≤ now ∨ (manager.detectClockRollover now).2 = true := by
  obtain ⟨taken, consistent, _, pass⟩ := listExpiredCb_eq well now tmp
  rw [pass, expireLoop_entries now _ consistent] at member
  obtain ⟨addr, front, rfl⟩ := List.mem_map.mp member
  have isExpired := (List.mem_filter.mp front).2
  rw [expired, Bool.or_eq_true, decide_eq_true_eq] at isExpired
  exact isExpired.symm

theorem exactPass_iff {state : TimerManager γ × Nat} (recorded : Recorded state) :
    ExactPass state label ↔ DistantPass state label := by
  cases label with
  | listExpiredCb now tmp =>
      have exact_iff : ((state.1.detectClockRollover now).2 = true ↔
          now + halfDay < state.1.previousTime) ↔ _ :=
        detectClockRollover_exact (recorded.same ▸ recorded.fits)
      rw [recorded.same] at exact_iff
      refine forall_congr' fun _ => ?_
      rw [← exact_iff]
      refine and_iff_left_of_imp fun report entry member => ?_
      rw [← report]
      exact due_le_of_mem_listExpiredCb recorded.well member
  | _ => exact Iff.rfl

/-- **Rollovers are detected exactly when the clock never steps back within its first twelve
hours.** For every sequence of readings, the reports are the steps back by more than twelve hours if
and only if no step back starts within the first twelve hours of the scale. In every run of the
manager, this is what decides whether each pass reports by the twelve hours and without such a step
hands out no timer before its deadline. -/
theorem rollover_exact (start : Nat) (fits : start < 2 ^ 64) :
    (∀ readings : List Nat, (∀ now ∈ readings, now < 2 ^ 64) →
      ((new start : TimerManager γ).detections readings = setBacks start readings ↔
        (start :: readings).IsChain Distant)) ∧
    ∀ calls : List (Call γ), (∀ label ∈ calls, label.Reads64) →
      (Meets readingCall ExactPass ((new start : TimerManager γ), start) calls ↔
        Meets readingCall DistantPass ((new start : TimerManager γ), start) calls) := by
  constructor
  · intro readings all
    exact detections_eq_setBacks_iff readings fits all
  · intro calls all
    have keeps : ∀ (state : TimerManager γ × Nat) label next, Recorded state → label.Reads64 →
        readingCall state label = some next → Recorded next.1 :=
      fun _ _ _ recorded reads stepped => readingCall_recorded recorded reads stepped
    exact meets_congr_allowed keeps (fun _ _ recorded _ => exactPass_iff recorded) calls
      (recorded_new fits) all

/-- A clock set back by a day, and one that steps back by an hour. -/
theorem rollover_exact_day :
    (new (10 ^ 12) : TimerManager String).detections [10 ^ 12 - 86400000, 10 ^ 12 - 90000000] =
      [true, false] :=
  ((@rollover_exact String (10 ^ 12) (by decide)).1 [10 ^ 12 - 86400000, 10 ^ 12 - 90000000]
    (by decide)).mpr (by decide)

/-- **One second after the start of its scale the clock steps back by a millisecond.** A rollover is
reported, and a timer due five seconds later is handed out at once. -/
theorem rollover_exact_fails :
    (new 1000 : TimerManager String).detections [999] ≠ setBacks 1000 [999] ∧
      ¬ Meets readingCall ExactPass ((new 1000 : TimerManager String), 1000)
        [.addTimer 5000 "job" false 1000 7, .listExpiredCb 999 0] ∧
      ∃ manager replies, trace call (new 1000 : TimerManager String)
          [.addTimer 5000 "job" false 1000 7] = some (manager, replies) ∧
        (manager.listExpiredCb 999 0).2 = [(7, some "job")] ∧ manager.due 7 = 6000 := by
  refine ⟨by decide, fun meets => ?_, _, _, rfl, by decide,
    add64_of_lt (by decide : 1000 + 5000 < 2 ^ 64)⟩
  obtain ⟨pass, _⟩ := meets.2 _ rfl
  have report := (pass (List.cons_ne_nil _ _)).1
  rw [detectClockRollover_iff (by decide)] at report
  have late : 999 + halfDay < 1000 := report.mp (Or.inr ⟨by decide, by decide⟩)
  exact absurd late (by decide)

end Wyze.TimerManager
