/-
**The daemon's parent, which watches its child.**

Between two looks at `waitpid` the parent sleeps. A look that finds the child running goes on to the times
of its threads when more than the interval is over since the last time that it did, and then
`detect_thread_time` says whether the child is to be killed; a child that is gone is replaced, unless it
has ended as it should. The threads of the child go on all the while.

* `killed_iff`: whom a check kills.
* `watch_kills`: **a kill is sent by a check that finds a thread overdue, and by nothing else**.
* `hung_deadline`: **from twice the interval after its last time on, or once after the last check before it
  hung if that was later, a thread that hangs is found by the next look of the parent**.
-/
import Wyze.Daemon.Capacity

namespace Wyze.Daemon

open Labelled

/-- What `waitpid` says of a child that is gone; an error leaves `status` at 0. -/
inductive Wait where
  | exited (code : Nat)
  | signalled
  | failed
  deriving DecidableEq

/-- The parent beside its child: the time, `old_time`, whether `detect_thread_time` is about to be called,
`restart_count`, and what `real_daemon` has returned. -/
structure Watch where
  record : Record
  clock : Nat
  oldTime : Nat
  checking : Bool
  restartCount : Nat
  returned : Option Int

/-- What happens: time passes; a thread of the child makes a step; the parent looks at a child that is
running, checks its times, or finds it gone. -/
inductive WatchLabel where
  | tick
  | child (label : Child.Label)
  | look
  | detect
  | reap (wait : Wait)

/-- What the parent does to the child. -/
inductive WatchEvent where
  | silent
  | killed
  deriving DecidableEq

namespace Watch

/-- `real_daemon` behind its first `fork`. -/
def new (info : DetectInfo) (now : Nat) : Watch :=
  { record := Record.new info
    clock := now
    oldTime := now
    checking := false
    restartCount := 0
    returned := none }

/-- The threads read the time that it is. -/
def OnTime (clock : Nat) : Child.Label → Bool
  | .run _ now => now = clock
  | .call _ _ | .setDetectInterval _ => true
  | .fork => false

def interval (watch : Watch) : Nat := watch.record.child.info.interval

def step (process : Process) (watch : Watch) (label : WatchLabel) : Option (Watch × WatchEvent) :=
  if watch.returned.isSome then none
  else
    match label with
    | .tick => some ({ watch with clock := watch.clock + 1 }, .silent)
    | .child label =>
      if OnTime watch.clock label then
        (watch.record.step process label).map fun next => ({ watch with record := next.1 }, .silent)
      else none
    | .look =>
      if watch.checking then none
      else some ({ watch with
        checking := decide ((watch.oldTime + watch.interval) % 2 ^ 64 < watch.clock) }, .silent)
    | .detect =>
      if watch.checking then
        let oldTime := watch.record.child.info.detectThreadTime watch.interval watch.clock
        some ({ watch with oldTime := oldTime, checking := false },
          if oldTime = 1 then .killed else .silent)
      else none
    | .reap wait =>
      if watch.checking then none
      else
        let rt : Option Int :=
          match wait with
          | .exited code => if code ≠ 64 then some code else none
          | .signalled => none
          | .failed => some 0
        match rt with
        | some rt => some ({ watch with returned := some rt }, .silent)
        | none =>
          (watch.record.step process .fork).map fun next =>
            ({ watch with
              record := next.1
              oldTime := watch.clock
              restartCount := watch.restartCount + 1 }, .silent)

/-- A thread of the child that is to write its entry finds room for it. -/
def Room (watch : Watch) : WatchLabel → Prop
  | .child label => Daemon.Room watch.record label
  | .tick | .look | .detect | .reap _ => True

instance (watch : Watch) : ∀ label, Decidable (watch.Room label)
  | .child label => inferInstanceAs (Decidable (Daemon.Room watch.record label))
  | .tick | .look | .detect | .reap _ => .isTrue trivial

/-- Nothing of the thread happens, the interval is not changed and the child is not replaced. -/
def Hangs (thread : Int) : WatchLabel → Prop
  | .child (.run other _) => other ≠ thread
  | .child (.call other _) => other ≠ thread
  | .child (.setDetectInterval _) | .child .fork | .reap _ => False
  | .tick | .look | .detect => True

/-- The thread has an entry, with a time below the difference of the clock and the interval as
`detect_thread_time` computes it: in 64 bits, so that an interval beyond the clock makes every time too
old. -/
def Overdue (watch : Watch) (thread : Int) : Prop :=
  watch.record.Recorded thread ∧ watch.record.read thread < sub64 watch.clock watch.interval

/-! ### One check -/

variable {process : Process} {watch : Watch} {label : WatchLabel} {next : Watch × WatchEvent}

/-- A check finds a thread that is overdue, or gives the time that it is. -/
theorem detectThreadTime_cases (inv : Inv watch.record) :
    ((∃ thread, watch.Overdue thread) ∧
      watch.record.child.info.detectThreadTime watch.interval watch.clock = 1) ∨
    ((¬ ∃ thread, watch.Overdue thread) ∧
      watch.record.child.info.detectThreadTime watch.interval watch.clock = watch.clock) := by
  unfold DetectInfo.detectThreadTime
  by_cases late : ((List.range watch.record.child.info.realSize).any fun i =>
      (watch.record.child.info.infos i).recordTime < sub64 watch.clock watch.interval) = true
  · rw [if_pos late]
    obtain ⟨i, member, old⟩ := List.any_eq_true.mp late
    have less := List.mem_range.mp member
    have time := inv.times i less
    refine Or.inl ⟨⟨_, ⟨i, less, rfl, time⟩, ?_⟩, rfl⟩
    rw [← time]
    exact of_decide_eq_true old
  · rw [if_neg late]
    refine Or.inr ⟨?_, rfl⟩
    rintro ⟨thread, ⟨i, less, _, time⟩, old⟩
    refine late (List.any_eq_true.mpr ⟨i, List.mem_range.mpr less, decide_eq_true ?_⟩)
    rw [time]
    exact old

/-- What a step does. -/
theorem step_cases (stepped : watch.step process label = some next) :
    match label with
    | .tick => next = ({ watch with clock := watch.clock + 1 }, .silent)
    | .child label => OnTime watch.clock label = true ∧ ∃ after,
        watch.record.step process label = some after ∧ next = ({ watch with record := after.1 }, .silent)
    | .look => watch.checking = false ∧ next = ({ watch with
        checking := decide ((watch.oldTime + watch.interval) % 2 ^ 64 < watch.clock) }, .silent)
    | .detect => watch.checking = true ∧
        let oldTime := watch.record.child.info.detectThreadTime watch.interval watch.clock
        next = ({ watch with oldTime := oldTime, checking := false },
          if oldTime = 1 then .killed else .silent)
    | .reap _ => watch.checking = false ∧
        ((∃ rt, next = ({ watch with returned := some rt }, .silent)) ∨
          ∃ after, watch.record.step process .fork = some after ∧ next = ({ watch with
            record := after.1
            oldTime := watch.clock
            restartCount := watch.restartCount + 1 }, .silent)) := by
  unfold step at stepped
  obtain ⟨_, stepped⟩ := Option.ite_none_left_eq_some.mp stepped
  cases label with
  | tick => exact (Option.some.inj stepped).symm
  | child label =>
      obtain ⟨onTime, rest⟩ := Option.ite_none_right_eq_some.mp stepped
      obtain ⟨after, moved, same⟩ := Option.map_eq_some_iff.mp rest
      exact ⟨onTime, after, moved, same.symm⟩
  | look =>
      obtain ⟨idle, same⟩ := Option.ite_none_left_eq_some.mp stepped
      exact ⟨Bool.not_eq_true _ ▸ idle, (Option.some.inj same).symm⟩
  | detect =>
      obtain ⟨checking, same⟩ := Option.ite_none_right_eq_some.mp stepped
      exact ⟨checking, (Option.some.inj same).symm⟩
  | reap wait =>
      obtain ⟨idle, rest⟩ := Option.ite_none_left_eq_some.mp stepped
      refine ⟨Bool.not_eq_true _ ▸ idle, ?_⟩
      dsimp only at rest
      split at rest
      · exact Or.inl ⟨_, (Option.some.inj rest).symm⟩
      · obtain ⟨after, moved, same⟩ := Option.map_eq_some_iff.mp rest
        exact Or.inr ⟨after, moved, same.symm⟩

/-- **A check kills** exactly when a thread is overdue. -/
theorem detect_killed_iff (inv : Inv watch.record) (later : 1 < watch.clock)
    (stepped : watch.step process .detect = some next) :
    next.2 = .killed ↔ ∃ thread, watch.Overdue thread := by
  obtain ⟨_, rfl⟩ := step_cases stepped
  dsimp only
  rcases detectThreadTime_cases inv with ⟨overdue, found⟩ | ⟨timely, found⟩
  · rw [found, if_pos rfl]
    exact iff_of_true rfl overdue
  · rw [found, if_neg (Nat.ne_of_gt later)]
    exact iff_of_false nofun timely

/-- Only a check kills. -/
theorem killed_of_step (stepped : watch.step process label = some next) (killed : next.2 = .killed) :
    label = .detect := by
  have does := step_cases stepped
  cases label with
  | detect => rfl
  | tick =>
      cases does
      exact nomatch killed
  | child label =>
      obtain ⟨_, _, _, rfl⟩ := does
      exact nomatch killed
  | look =>
      obtain ⟨_, rfl⟩ := does
      exact nomatch killed
  | reap wait =>
      obtain ⟨_, ⟨_, rfl⟩ | ⟨_, _, rfl⟩⟩ := does
      · exact nomatch killed
      · exact nomatch killed

/-! ### Runs -/

/-- Where there is room the child's entries stay in order, and time goes on. -/
theorem inv_step (inv : Inv watch.record) (room : watch.Room label)
    (stepped : watch.step process label = some next) :
    Inv next.1.record ∧ watch.clock ≤ next.1.clock := by
  have does := step_cases stepped
  cases label with
  | tick =>
      cases does
      exact ⟨inv, Nat.le_succ _⟩
  | child label =>
      obtain ⟨_, after, moved, rfl⟩ := does
      exact ⟨(kept_of_room inv room moved).inv, Nat.le_refl _⟩
  | look =>
      obtain ⟨_, rfl⟩ := does
      exact ⟨inv, Nat.le_refl _⟩
  | detect =>
      obtain ⟨_, rfl⟩ := does
      exact ⟨inv, Nat.le_refl _⟩
  | reap wait =>
      obtain ⟨_, ⟨_, rfl⟩ | ⟨after, moved, rfl⟩⟩ := does
      · exact ⟨inv, Nat.le_refl _⟩
      · exact ⟨(@kept_of_room process _ .fork after inv trivial moved).inv, Nat.le_refl _⟩

/-- A thread hangs: its entry stays as it is, and the last check was before the deadline. -/
structure Hung (thread : Int) (time interval old : Nat) (watch : Watch) : Prop where
  inv : Inv watch.record
  recorded : watch.record.Recorded thread
  read : watch.record.read thread = time
  same : watch.interval = interval
  checked : watch.clock < 2 ^ 64 → watch.oldTime ≤ max 1 (max old (time + interval))

/-- A step of the child that is not of the thread leaves it its entry. -/
theorem recorded_step {record : Record} {thread : Int} {label : Child.Label} {next : Record × Seen}
    (inv : Inv record) (room : Daemon.Room record label) (lives : label ≠ .fork)
    (other : label.thread ≠ some thread) (recorded : record.Recorded thread)
    (stepped : record.step process label = some next) :
    next.1.Recorded thread ∧ next.1.read thread = record.read thread := by
  have kept := kept_of_room inv room stepped
  obtain ⟨result, _, rfl⟩ := Option.map_eq_some_iff.mp stepped
  have frame := kept.frame lives
  obtain ⟨i, less, own, _⟩ := recorded
  have sameThread : (result.1.info.infos i).threadId = thread := (frame.kept i less).trans own
  have inside : i < result.1.info.realSize := Nat.lt_of_lt_of_le less frame.grows
  refine ⟨⟨i, inside, sameThread, ?_⟩, frame.read thread other⟩
  exact (kept.inv.times i inside).trans (congrArg _ sameThread)

/-- A step of a thread leaves the interval as it is. -/
theorem interval_step {record : Record} {thread : Int} {label : Child.Label} {next : Record × Seen}
    (mover : label.thread = some thread) (stepped : record.step process label = some next) :
    next.1.child.info.interval = record.child.info.interval := by
  obtain ⟨result, moved, rfl⟩ := Option.map_eq_some_iff.mp stepped
  have access (i : Nat) (after : Child) (effect : Effect)
      (same : after.info.interval = record.child.info.interval) :
      (record.child.access process i after effect).1.info.interval = record.child.info.interval := by
    unfold Child.access
    split
    · exact same
    · rfl
  show result.1.info.interval = _
  cases label with
  | call other desc =>
      obtain ⟨_, rest⟩ := Option.ite_none_right_eq_some.mp moved
      split at rest <;> cases rest <;> rfl
  | run other now =>
      obtain ⟨_, rest⟩ := Option.ite_none_right_eq_some.mp moved
      unfold Child.updateThreadTime at rest
      cases phase : record.child.phase other with
      | idle => simp [phase] at rest
      | looping i =>
          simp only [phase, Option.some.injEq] at rest
          exact rest ▸ rfl
      | testing =>
          simp only [phase] at rest
          split at rest <;> cases rest <;> rfl
      | locking =>
          simp only [phase] at rest
          split at rest <;> cases rest
          rfl
      | counting =>
          simp only [phase, Option.some.injEq] at rest
          exact rest ▸ rfl
      | comparing i | refreshing i | naming | describing | stamping =>
          simp only [phase, Option.some.injEq] at rest
          exact rest ▸ access _ _ _ rfl
  | setDetectInterval _ | fork => exact nomatch mover

theorem hung_step {thread : Int} {time interval old : Nat} (hung : Hung thread time interval old watch)
    (room : watch.Room label) (hangs : Hangs thread label)
    (stepped : watch.step process label = some next) : Hung thread time interval old next.1 := by
  have does := step_cases stepped
  cases label with
  | tick =>
      cases does
      refine ⟨hung.inv, hung.recorded, hung.read, hung.same, fun fits => hung.checked ?_⟩
      exact Nat.lt_of_le_of_lt (Nat.le_succ _) fits
  | child label =>
      obtain ⟨_, after, moved, rfl⟩ := does
      have moves : ∃ mover, label.thread = some mover ∧ mover ≠ thread := by
        cases label with
        | call mover desc => exact ⟨mover, rfl, hangs⟩
        | run mover now => exact ⟨mover, rfl, hangs⟩
        | setDetectInterval _ | fork => exact hangs.elim
      obtain ⟨mover, isMover, differs⟩ := moves
      have lives : label ≠ .fork := by
        rintro rfl
        exact nomatch isMover
      have other : label.thread ≠ some thread := fun same =>
        differs (Option.some.inj (isMover.symm.trans same))
      obtain ⟨recorded, read⟩ := recorded_step hung.inv room lives other hung.recorded moved
      exact ⟨(kept_of_room hung.inv room moved).inv, recorded, read.trans hung.read,
        (interval_step isMover moved).trans hung.same, hung.checked⟩
  | look =>
      obtain ⟨_, rfl⟩ := does
      exact ⟨hung.inv, hung.recorded, hung.read, hung.same, hung.checked⟩
  | detect =>
      obtain ⟨_, rfl⟩ := does
      refine ⟨hung.inv, hung.recorded, hung.read, hung.same, fun fits => ?_⟩
      rcases detectThreadTime_cases hung.inv with ⟨_, found⟩ | ⟨timely, found⟩
      · exact found ▸ le_max_left _ _
      · have inTime : ¬ watch.record.read thread < sub64 watch.clock watch.interval := fun old =>
          timely ⟨thread, hung.recorded, old⟩
        rw [hung.read, hung.same] at inTime
        have early : watch.clock ≤ time + interval := by
          by_cases within : interval ≤ watch.clock
          · rw [sub64_of_le within fits] at inTime
            omega
          · omega
        dsimp only
        rw [found]
        exact early.trans ((le_max_right _ _).trans (le_max_right _ _))
  | reap wait => exact hangs.elim

theorem inv_new (info : DetectInfo) (now : Nat) : Inv (new info now).record :=
  Inv.start info.initShm fun _ => 0

/-- **A child is killed** by a check exactly when one of its threads that have an entry is overdue, and by
nothing else. -/
theorem watch_kills (process : Process) (info : DetectInfo) {now : Nat} (later : 1 < now)
    {labels : List WatchLabel} {final : Watch} {events : List WatchEvent}
    (executed : trace (step process) (new info now) labels = some (final, events))
    (room : Meets (step process) Room (new info now) labels) (position : Nat) (label : WatchLabel)
    (placed : labels[position]? = some label) :
    ∃ reached front, trace (step process) (new info now) (labels.take position) =
        some (reached, front) ∧
      (events[position]? = some .killed ↔ label = .detect ∧ ∃ thread, reached.Overdue thread) := by
  obtain ⟨front, reached, next, taken, _, stepped, shown, _⟩ :=
    @holds_at _ _ _ (step process) (fun _ => True) (fun _ => True) (fun _ _ _ _ _ _ => trivial) labels
      _ _ _ position label trivial executed placed (fun _ _ _ _ => trivial)
  have split : Meets (step process) Room (new info now) (labels.take position) := by
    rw [← List.take_append_drop position labels] at room
    exact (meets_append.mp room).1
  obtain ⟨inv, passed⟩ : Inv reached.record ∧ now ≤ reached.clock :=
    @trace_invariant _ _ _ (step process) Room (fun watch => Inv watch.record ∧ now ≤ watch.clock)
      (fun watch label next both room stepped =>
        have ⟨inv, passes⟩ := inv_step both.1 room stepped
        ⟨inv, both.2.trans passes⟩)
      (labels.take position) _ _ _ ⟨inv_new info now, Nat.le_refl _⟩ split taken
  refine ⟨reached, front, taken, ?_⟩
  rw [shown, Option.some.injEq]
  constructor
  · intro killed
    have isDetect := killed_of_step stepped killed
    subst isDetect
    exact ⟨rfl, (detect_killed_iff inv (Nat.lt_of_lt_of_le later passed) stepped).mp killed⟩
  · rintro ⟨rfl, overdue⟩
    exact (detect_killed_iff inv (Nat.lt_of_lt_of_le later passed) stepped).mpr overdue

/-- **A thread that hangs is found.** Once twice the interval has passed since its last time, or once since
the last check before it hung if that was later, the next look of the parent leads to a check, and the check
kills. -/
theorem hung_deadline (process : Process) (info : DetectInfo) {now : Nat} {before hanging : List WatchLabel}
    {watch final : Watch} {front back : List WatchEvent} {thread : Int}
    (started : trace (step process) (new info now) before = some (watch, front))
    (went : trace (step process) watch hanging = some (final, back))
    (room : Meets (step process) Room (new info now) (before ++ hanging))
    (recorded : watch.record.Recorded thread) (hangs : ∀ label ∈ hanging, Hangs thread label)
    (fits : final.clock < 2 ^ 64)
    (late : max 1 (max watch.oldTime (watch.record.read thread + watch.interval)) + watch.interval <
      final.clock) :
    (∀ next, final.step process .look = some next → next.1.checking = true) ∧
      ∀ next, final.step process .detect = some next → next.2 = .killed := by
  obtain ⟨roomBefore, roomAfter⟩ := meets_append.mp room
  have inv : Inv watch.record := @trace_invariant _ _ _ (step process) Room
    (fun watch => Inv watch.record) (fun _ _ _ inv room stepped => (inv_step inv room stepped).1)
    before _ _ _ (inv_new info now) roomBefore started
  have start : Hung thread (watch.record.read thread) watch.interval watch.oldTime watch :=
    ⟨inv, recorded, rfl, rfl, fun _ => (le_max_left _ _).trans (le_max_right _ _)⟩
  have hung : Hung thread (watch.record.read thread) watch.interval watch.oldTime final := by
    refine @trace_invariant _ _ _ (step process) (fun watch label => watch.Room label ∧ Hangs thread label)
      _ (fun _ _ _ hung both stepped => hung_step hung both.1 both.2 stepped) hanging _ _ _ start ?_ went
    exact meets_and (roomAfter watch front started) (meets_of_mem hanging watch hangs)
  have checked := hung.checked fits
  have same := hung.same
  constructor
  · intro next stepped
    obtain ⟨_, rfl⟩ := step_cases stepped
    refine decide_eq_true ?_
    rw [same, Nat.mod_eq_of_lt (by omega)]
    omega
  · intro next stepped
    refine (detect_killed_iff hung.inv (by omega) stepped).mpr ⟨thread, hung.recorded, ?_⟩
    rw [hung.read, same, sub64_of_le (by omega) fits]
    omega

/-- The first call of thread 7, and an interval of no length. -/
def sampleCalls : List WatchLabel :=
  .child (.call 7 []) :: List.replicate 7 (.child (.run 7 100)) ++ [.child (.setDetectInterval 0)]

/-- A second later the parent checks. -/
def sampleLook : List WatchLabel := [.tick, .look, .detect]

theorem watch_kills_seven :
    ∃ reached front, trace (step ⟨true, fun _ => false⟩) (new zeroShm 100)
        ((sampleCalls ++ sampleLook).take 11) = some (reached, front) ∧
      ∃ thread, reached.Overdue thread := by
  have shown : ((trace (step ⟨true, fun _ => false⟩) (new zeroShm 100)
      (sampleCalls ++ sampleLook)).map fun result => result.2[11]?) = some (some .killed) := by
    decide +kernel
  obtain ⟨⟨final, events⟩, executed, killed⟩ := Option.map_eq_some_iff.mp shown
  obtain ⟨reached, front, taken, same⟩ := watch_kills ⟨true, fun _ => false⟩ zeroShm (by decide) executed
    (by decide +kernel) 11 .detect rfl
  exact ⟨reached, front, taken, (same.mp killed).2⟩

/-- It hangs, and the parent's look comes a second later. -/
theorem hung_deadline_seven :
    ∃ watch final front back, trace (step ⟨true, fun _ => false⟩) (new zeroShm 100) sampleCalls =
        some (watch, front) ∧
      trace (step ⟨true, fun _ => false⟩) watch [.tick] = some (final, back) ∧
      ∀ next, final.step ⟨true, fun _ => false⟩ .look = some next → next.1.checking = true := by
  have entry : ((trace (step ⟨true, fun _ => false⟩) (new zeroShm 100) sampleCalls).map fun result =>
      (result.1.record.child.info.realSize, (result.1.record.child.info.infos 0).threadId,
        (result.1.record.child.info.infos 0).recordTime, result.1.record.read 7)) =
      some (1, 7, 100, 100) := by
    decide +kernel
  have times : ((trace (step ⟨true, fun _ => false⟩) (new zeroShm 100) sampleCalls).map fun result =>
      (result.1.interval, result.1.oldTime, result.1.clock, result.1.returned.isSome)) =
      some (0, 100, 100, false) := by
    decide +kernel
  obtain ⟨⟨watch, front⟩, started, same⟩ := Option.map_eq_some_iff.mp entry
  obtain ⟨size, id, time, read⟩ : _ ∧ _ ∧ _ ∧ _ := by simpa only [Prod.mk.injEq] using same
  rw [started] at times
  obtain ⟨interval, old, clock, returned⟩ : _ ∧ _ ∧ _ ∧ _ := by
    simpa only [Option.map_some, Option.some.injEq, Prod.mk.injEq] using times
  have ticked : watch.step ⟨true, fun _ => false⟩ .tick =
      some ({ watch with clock := watch.clock + 1 }, .silent) := by
    unfold step
    rw [returned]
    rfl
  have went : trace (step ⟨true, fun _ => false⟩) watch [.tick] =
      some ({ watch with clock := watch.clock + 1 }, [.silent]) :=
    trace_cons_eq_some.mpr ⟨_, _, [], ticked, rfl, rfl⟩
  have room : Meets (step ⟨true, fun _ => false⟩) Room (new zeroShm 100) (sampleCalls ++ [.tick]) := by
    decide +kernel
  have found := hung_deadline ⟨true, fun _ => false⟩ zeroShm started went room
    ⟨0, size ▸ Nat.one_pos, id, time.trans read.symm⟩
    (fun label member => List.mem_singleton.mp member ▸ trivial)
    (by show watch.clock + 1 < 2 ^ 64; omega)
    (by show _ < watch.clock + 1; rw [old, read, interval, clock]; decide)
  exact ⟨watch, _, front, _, started, went, found.1⟩

end Watch

end Wyze.Daemon
