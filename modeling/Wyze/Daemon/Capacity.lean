/-
**How many calls may pass the test of the capacity.**

Between the test and `++real_size` a call counts for nobody. The entries and the calls that have passed
the test are together never fewer than the entries will be, and are exactly as many once these calls
have returned.

* `recording_of_reserves`: no call passes the test without room for those before it.
* `complete_iff`: in a run that ends with no call behind the test nothing less is enough.
* `recording_of_few`: at most `THREAD_INFO_ARRAY` threads call.
* `detect_iff`: whom the parent finds dead.
-/
import Wyze.Daemon.Recording

namespace Wyze.Daemon

open Labelled Child

/-- The call has passed the test and does not count yet. -/
def Phase.passed : Phase → Bool
  | .locking | .naming | .describing | .stamping | .counting => true
  | .idle | .looping _ | .comparing _ | .refreshing _ | .testing => false

/-- These threads have passed the test. -/
def Passed (record : Record) (threads : Finset Int) : Prop :=
  ∀ thread ∈ threads, (record.child.phase thread).passed = true

/-- **A call that passes the test finds room** for itself beside the entries and the calls that have
passed it before. -/
def Reserves (record : Record) : Label → Prop
  | .run thread _ => record.child.phase thread = .testing →
      record.child.info.realSize < THREAD_INFO_ARRAY →
        ∀ threads, Passed record threads →
          record.child.info.realSize + threads.card < THREAD_INFO_ARRAY
  | .call _ _ | .setDetectInterval _ | .fork => True

/-- There is room for all that have passed the test. -/
def Fits (record : Record) : Prop :=
  ∀ threads, Passed record threads → record.child.info.realSize + threads.card ≤ THREAD_INFO_ARRAY

variable {process : Process} {record : Record} {thread : Int} {now : Nat} {threads : Finset Int}

/-! ### What a step does to the calls behind the test -/

/-- No call passes the test or counts. -/
structure Stays (record next : Record) : Prop where
  size : next.child.info.realSize = record.child.info.realSize
  passed : ∀ other, (next.child.phase other).passed = (record.child.phase other).passed

/-- A call passes the test. -/
structure Passes (record next : Record) (thread : Int) : Prop where
  here : record.child.phase thread = .testing
  room : record.child.info.realSize < THREAD_INFO_ARRAY
  size : next.child.info.realSize = record.child.info.realSize
  phases : next.child.phase = Function.update record.child.phase thread .locking

/-- A call counts. -/
structure Counts (record next : Record) (thread : Int) : Prop where
  here : record.child.phase thread = .counting
  size : next.child.info.realSize = record.child.info.realSize + 1
  phases : next.child.phase = Function.update record.child.phase thread .idle

theorem passed_goTo {child next : Child} {phase phase' : Phase} (here : child.phase thread = phase)
    (phases : next.phase = Function.update child.phase thread phase')
    (same : phase'.passed = phase.passed) (other : Int) :
    (next.phase other).passed = (child.phase other).passed := by
  rw [phases]
  by_cases equal : other = thread
  · rw [equal, Function.update_self, here, same]
  · rw [Function.update_of_ne equal]

theorem passes_of_testing {next : Record × Seen} (here : record.child.phase thread = .testing)
    (room : record.child.info.realSize < THREAD_INFO_ARRAY)
    (stepped : record.step process (.run thread now) = some next) : Passes record next.1 thread := by
  obtain ⟨result, moved, rfl⟩ := Option.map_eq_some_iff.mp stepped
  simp only [move] at moved
  split at moved
  · simp only [updateThreadTime, here] at moved
    rw [if_neg (Nat.not_le_of_lt room)] at moved
    cases moved
    exact ⟨here, room, rfl, rfl⟩
  · cases moved

/-- **What a step of a thread does to the calls behind the test.** -/
theorem passed_run (inv : Inv record) {next : Record × Seen}
    (room : Room record (.run thread now))
    (stepped : record.step process (.run thread now) = some next) :
    Stays record next.1 ∨ Passes record next.1 thread ∨ Counts record next.1 thread := by
  obtain ⟨result, moved, rfl⟩ := Option.map_eq_some_iff.mp stepped
  simp only [move] at moved
  split at moved
  · cases here : record.child.phase thread with
    | idle => simp only [updateThreadTime, here, reduceCtorEq] at moved
    | looping i =>
        simp only [updateThreadTime, here] at moved
        cases moved
        refine Or.inl ⟨rfl, passed_goTo here rfl ?_⟩
        split <;> rfl
    | comparing i =>
        have low := (inv.standsAt here).1.trans_le inv.bounded
        simp only [updateThreadTime, here, access_of_lt _ _ _ _ low] at moved
        cases moved
        refine Or.inl ⟨rfl, passed_goTo here rfl ?_⟩
        split <;> rfl
    | refreshing i =>
        have low := (inv.standsAt here).1.trans_le inv.bounded
        simp only [updateThreadTime, here, access_of_lt _ _ _ _ low] at moved
        cases moved
        exact Or.inl ⟨rfl, passed_goTo here rfl rfl⟩
    | testing =>
        simp only [updateThreadTime, here] at moved
        split at moved
        · cases moved
          exact Or.inl ⟨rfl, passed_goTo here rfl rfl⟩
        · rename_i below
          cases moved
          exact Or.inr (Or.inl ⟨here, Nat.lt_of_not_le below, rfl, rfl⟩)
    | locking =>
        simp only [updateThreadTime, here] at moved
        split at moved
        · cases moved
          exact Or.inl ⟨rfl, passed_goTo here rfl rfl⟩
        · cases moved
    | naming =>
        simp only [updateThreadTime, here, access_of_lt _ _ _ _ (room here)] at moved
        cases moved
        exact Or.inl ⟨rfl, passed_goTo here rfl rfl⟩
    | describing =>
        have writes : Writes record thread := inv.standsAt here
        simp only [updateThreadTime, here, access_of_lt _ _ _ _ writes.room] at moved
        cases moved
        exact Or.inl ⟨rfl, passed_goTo here rfl rfl⟩
    | stamping =>
        have writes : Writes record thread := inv.standsAt here
        simp only [updateThreadTime, here, access_of_lt _ _ _ _ writes.room] at moved
        cases moved
        exact Or.inl ⟨rfl, passed_goTo here rfl rfl⟩
    | counting =>
        have writes : Writes record thread := (inv.standsAt here).1
        simp only [updateThreadTime, here, succ_mod writes.room] at moved
        cases moved
        exact Or.inr (Or.inr ⟨here, rfl, rfl⟩)
  · cases moved

/-- A new child. -/
theorem eq_start_of_fork {next : Record × Seen} (stepped : record.step process .fork = some next) :
    next.1 = { child := Child.start record.child.info, read := record.read } := by
  obtain ⟨result, moved, rfl⟩ := Option.map_eq_some_iff.mp stepped
  simp only [move] at moved
  split at moved
  · cases moved
    rfl
  · cases moved

/-- What every step but the forking of a new child does to them. -/
theorem passed_cases {label : Label} {next : Record × Seen} (inv : Inv record)
    (room : Room record label) (lives : label ≠ .fork)
    (stepped : record.step process label = some next) :
    Stays record next.1 ∨
      ∃ thread now, label = .run thread now ∧
        (Passes record next.1 thread ∨ Counts record next.1 thread) := by
  cases label with
  | call thread desc =>
      obtain ⟨result, moved, rfl⟩ := Option.map_eq_some_iff.mp stepped
      simp only [move] at moved
      split at moved
      · rename_i idle
        split at moved
        · cases moved
          exact Or.inl ⟨rfl, passed_goTo idle.2 rfl rfl⟩
        · cases moved
          exact Or.inl ⟨rfl, fun _ => rfl⟩
      · cases moved
  | run thread now =>
      exact (passed_run inv room stepped).imp_right fun either => ⟨thread, now, rfl, either⟩
  | setDetectInterval interval =>
      cases stepped
      cases process.attached with
      | false => exact Or.inl ⟨rfl, fun _ => rfl⟩
      | true => exact Or.inl ⟨rfl, fun _ => rfl⟩
  | fork => exact absurd rfl lives

theorem Passed.next {next : Record} (stays : Stays record next) :
    Passed next threads ↔ Passed record threads := by
  simp only [Passed, stays.passed]

/-- The other threads that have passed, behind a step of one thread. -/
theorem Passed.erase {next : Record} {phase : Phase}
    (phases : next.child.phase = Function.update record.child.phase thread phase) :
    Passed next (threads.erase thread) ↔ Passed record (threads.erase thread) := by
  refine forall₂_congr fun other among => ?_
  rw [phases, Function.update_of_ne (Finset.ne_of_mem_erase among)]

theorem Passed.mono {few : Finset Int} (passed : Passed record threads) (fewer : few ⊆ threads) :
    Passed record few := fun thread among => passed thread (fewer among)

theorem Passed.insert (passed : Passed record threads)
    (here : (record.child.phase thread).passed = true) : Passed record (insert thread threads) :=
  (Finset.forall_mem_insert _ _ _).mpr ⟨here, passed⟩

theorem Passed.not_mem (passed : Passed record threads)
    (here : (record.child.phase thread).passed = false) : thread ∉ threads := fun among =>
  Bool.false_ne_true (here.symm.trans (passed thread among))

/-! ### Room for the calls behind the test -/

theorem Fits.start (info : DetectInfo) (read : Int → Nat) :
    Fits { child := Child.start info, read := read } := by
  intro threads passed
  rw [Finset.eq_empty_iff_forall_notMem.mpr fun thread => passed.not_mem rfl]
  exact Nat.zero_le _

/-- **Room for all that have passed** is kept where a call that passes finds it. -/
theorem Fits.next {label : Label} {next : Record × Seen} (inv : Inv record) (room : Room record label)
    (fits : Fits record) (reserves : Reserves record label)
    (stepped : record.step process label = some next) : Fits next.1 := by
  by_cases lives : label = .fork
  · subst lives
    rw [eq_start_of_fork stepped]
    exact Fits.start _ _
  intro threads passed
  obtain stays | ⟨thread, now, rfl, passes | counts⟩ := passed_cases inv room lives stepped
  · rw [stays.size]
    exact fits threads ((Passed.next stays).mp passed)
  · have less := reserves passes.here passes.room _
      ((Passed.erase passes.phases).mp (passed.mono (Finset.erase_subset thread threads)))
    have most : threads.card - 1 ≤ (threads.erase thread).card := Finset.pred_card_le_card_erase
    rw [passes.size]
    omega
  · have outside : thread ∉ threads := passed.not_mem (by rw [counts.phases, Function.update_self]; rfl)
    have others : Passed record threads := by
      rw [← Finset.erase_eq_of_notMem outside] at passed ⊢
      exact (Passed.erase counts.phases).mp passed
    have all := fits _ (others.insert (by rw [counts.here]; rfl))
    rw [Finset.card_insert_of_notMem outside] at all
    rw [counts.size]
    omega

/-- A thread that has the lock has passed the test itself. -/
theorem Fits.room (fits : Fits record) (label : Label) : Room record label := by
  cases label with
  | run thread now =>
      intro here
      have passed : Passed record {thread} := fun other among => by
        rw [Finset.mem_singleton.mp among, here]
        rfl
      have all := fits _ passed
      rw [Finset.card_singleton] at all
      exact all
  | call | setDetectInterval | fork => trivial

/-- **Enough room at the test** makes every run as it should be. -/
theorem recording_of_reserves (process : Process) (info : DetectInfo) {labels : List Label}
    {final : Record} {seen : List Seen}
    (executed : trace (Record.step process) (Record.new info) labels = some (final, seen))
    (reserves : Meets (Record.step process) Reserves (Record.new info) labels) :
    ∀ one ∈ seen, one.Lawful := by
  have keeps (record : Record) (label : Label) (next : Record × Seen) (both : Inv record ∧ Fits record)
      (reserves : Reserves record label) (stepped : record.step process label = some next) :
      (Inv next.1 ∧ Fits next.1) ∧ next.2.Lawful := by
    have room := both.2.room label
    have kept := kept_of_room both.1 room stepped
    exact ⟨⟨kept.inv, both.2.next both.1 room reserves stepped⟩, kept.lawful⟩
  exact (trace_meets_shows Reserves keeps labels ⟨Inv.start _ _, Fits.start _ _⟩ reserves executed).2

/-! ### Runs in which all calls return -/

/-- Calls that have passed the test come to count. -/
theorem reserved_le {labels : List Label} {final : Record} {seen : List Seen} (inv : Inv record)
    (lives : .fork ∉ labels)
    (executed : trace (Record.step process) record labels = some (final, seen))
    (lawful : ∀ one ∈ seen, one.Lawful)
    (quiet : ∀ thread, (final.child.phase thread).passed = false) (passed : Passed record threads) :
    record.child.info.realSize + threads.card ≤ final.child.info.realSize := by
  induction labels generalizing record seen threads with
  | nil =>
      cases executed
      rw [Finset.eq_empty_iff_forall_notMem.mpr fun thread => passed.not_mem (quiet thread)]
      exact Nat.le_refl _
  | cons label labels ih =>
      obtain ⟨next, one, rest, stepped, tail, rfl⟩ := trace_cons_eq_some.mp executed
      obtain ⟨here, later⟩ := List.forall_mem_cons.mp lawful
      obtain ⟨notFork, noFork⟩ := List.ne_and_not_mem_of_not_mem_cons lives
      obtain ⟨agree, keeps⟩ := lawful_iff inv stepped
      have goesOn {threads : Finset Int} (passed : Passed next threads) :=
        ih (keeps here) noFork tail later passed
      obtain stays | ⟨thread, now, rfl, passes | counts⟩ :=
        passed_cases inv (agree.mp here) (Ne.symm notFork) stepped
      · have less := goesOn ((Passed.next stays).mpr passed)
        rwa [stays.size] at less
      · have outside : thread ∉ threads := passed.not_mem (by rw [passes.here]; rfl)
        rw [← Finset.erase_eq_of_notMem outside] at passed
        have less := goesOn ((Passed.erase passes.phases).mpr passed)
        rwa [passes.size, Finset.erase_eq_of_notMem outside] at less
      · have less := goesOn ((Passed.erase counts.phases).mpr
          (passed.mono (Finset.erase_subset thread threads)))
        have most : threads.card - 1 ≤ (threads.erase thread).card := Finset.pred_card_le_card_erase
        rw [counts.size] at less
        omega

theorem meets_reserves {labels : List Label} {final : Record} {seen : List Seen} (inv : Inv record)
    (lives : .fork ∉ labels)
    (executed : trace (Record.step process) record labels = some (final, seen))
    (lawful : ∀ one ∈ seen, one.Lawful)
    (quiet : ∀ thread, (final.child.phase thread).passed = false)
    (bounded : final.child.info.realSize ≤ THREAD_INFO_ARRAY) :
    Meets (Record.step process) Reserves record labels := by
  induction labels generalizing record seen with
  | nil => trivial
  | cons label labels ih =>
      obtain ⟨next, one, rest, stepped, tail, rfl⟩ := trace_cons_eq_some.mp executed
      obtain ⟨here, later⟩ := List.forall_mem_cons.mp lawful
      have noFork := List.not_mem_of_not_mem_cons lives
      have inv' := (lawful_iff inv stepped).2 here
      refine (meets_cons stepped).mpr ⟨?_, ih inv' noFork tail later⟩
      cases label with
      | run thread now =>
          intro testing room threads passed
          have passes := passes_of_testing testing room stepped
          have outside : thread ∉ threads := passed.not_mem (by rw [testing]; rfl)
          rw [← Finset.erase_eq_of_notMem outside] at passed
          have others := (Passed.erase passes.phases).mpr passed
          rw [Finset.erase_eq_of_notMem outside] at others
          have less := reserved_le inv' noFork tail later quiet
            (others.insert (by rw [passes.phases, Function.update_self]; rfl))
          rw [passes.size, Finset.card_insert_of_notMem outside] at less
          omega
      | call | setDetectInterval | fork => trivial

/-- **Runs in which all calls return.** In a run of one child that ends with no call between the test and
its return every step is as it should be if and only if each call that passes the test finds room. -/
theorem complete_iff (process : Process) (info : DetectInfo) {labels : List Label} {final : Record}
    {seen : List Seen} (lives : .fork ∉ labels)
    (executed : trace (Record.step process) (Record.new info) labels = some (final, seen))
    (quiet : ∀ thread, (final.child.phase thread).passed = false) :
    (∀ one ∈ seen, one.Lawful) ↔
      Meets (Record.step process) Reserves (Record.new info) labels := by
  refine ⟨fun lawful => ?_, recording_of_reserves process info executed⟩
  have inv := (Inv.start info.initShm fun _ => 0).trace executed lawful
  exact meets_reserves (Inv.start _ _) lives executed lawful quiet inv.bounded

/-! ### Few threads -/

/-- Each entry is of one of these threads. -/
def Among (ids : Finset Int) (record : Record) : Prop :=
  ∀ i < record.child.info.realSize, (record.child.info.infos i).threadId ∈ ids

/-- A thread of these that has no entry leaves room. -/
theorem Among.room {ids : Finset Int} (few : ids.card ≤ THREAD_INFO_ARRAY) (inv : Inv record)
    (among : Among ids record) {label : Label}
    (one : ∀ thread, label.thread = some thread → thread ∈ ids) : Room record label := by
  cases label with
  | run thread now =>
      intro here
      obtain ⟨_, absent⟩ : _ ∧ record.child.info.Absent thread := inv.standsAt here
      have distinct : Set.InjOn (fun i => (record.child.info.infos i).threadId)
          (Finset.range record.child.info.realSize) := by
        intro i less j less' equal
        exact inv.once i (Finset.mem_range.mp less) j (Finset.mem_range.mp less') equal
      have inside : (Finset.range record.child.info.realSize).image
          (fun i => (record.child.info.infos i).threadId) ⊆ ids.erase thread := by
        intro id mem
        obtain ⟨i, less, rfl⟩ := Finset.mem_image.mp mem
        have less' := Finset.mem_range.mp less
        exact Finset.mem_erase.mpr ⟨absent i less', among i less'⟩
      have fewer := Finset.card_le_card inside
      rw [Finset.card_image_of_injOn distinct, Finset.card_range] at fewer
      exact (fewer.trans_lt (Finset.card_erase_lt_of_mem (one thread rfl))).trans_le few
  | call | setDetectInterval | fork => trivial

theorem Among.next {ids : Finset Int} {label : Label} {next : Record × Seen} (among : Among ids record)
    (one : ∀ thread, label.thread = some thread → thread ∈ ids)
    (frame : Frame record next.1 label.thread) : Among ids next.1 := by
  intro i less
  by_cases old : i < record.child.info.realSize
  · rw [frame.kept i old]
    exact among i old
  · exact one _ (frame.fresh i less (Nat.le_of_not_lt old))

/-- A new child has no entry. -/
theorem Among.start {ids : Finset Int} (info : DetectInfo) (read : Int → Nat) :
    Among ids { child := Child.start info, read := read } :=
  fun _ less => absurd less (Nat.not_lt_zero _)

/-- **Few threads**: where no more than `THREAD_INFO_ARRAY` threads of all children call, every run is as
it should be, whatever passes the test at once. -/
theorem recording_of_few (process : Process) (info : DetectInfo) {ids : Finset Int}
    (few : ids.card ≤ THREAD_INFO_ARRAY) {labels : List Label} {final : Record} {seen : List Seen}
    (callers : ∀ label ∈ labels, ∀ thread, label.thread = some thread → thread ∈ ids)
    (executed : trace (Record.step process) (Record.new info) labels = some (final, seen)) :
    ∀ one ∈ seen, one.Lawful := by
  have keeps (record : Record) (label : Label) (next : Record × Seen)
      (both : Inv record ∧ Among ids record) (one : ∀ thread, label.thread = some thread → thread ∈ ids)
      (stepped : record.step process label = some next) : Inv next.1 ∧ Among ids next.1 := by
    have kept := kept_of_room both.1 (both.2.room few both.1 one) stepped
    refine ⟨kept.inv, ?_⟩
    by_cases lives : label = .fork
    · subst lives
      rw [eq_start_of_fork stepped]
      exact Among.start _ _
    · obtain ⟨result, _, rfl⟩ := Option.map_eq_some_iff.mp stepped
      exact both.2.next one (kept.frame lives)
  refine ((Inv.start _ _).trace_lawful_iff executed).mpr ?_
  have same : Meets (Record.step process) Room (Record.new info) labels ↔
      Meets (Record.step process) (fun _ _ => True) (Record.new info) labels :=
    meets_congr_allowed keeps
      (fun record label both one => ⟨fun _ => trivial, fun _ => both.2.room few both.1 one⟩) labels
      ⟨Inv.start _ _, Among.start _ _⟩ callers
  exact same.mpr (meets_of_forall (fun _ _ => trivial) labels _)

/-! ### What the parent finds -/

/-- **The parent's test**: in a run with room the child is to be killed exactly when a thread that has an
entry read its last time too long ago. -/
theorem detect_iff (process : Process) (info : DetectInfo) {labels : List Label} {final : Record}
    {seen : List Seen}
    (executed : trace (Record.step process) (Record.new info) labels = some (final, seen))
    (lawful : ∀ one ∈ seen, one.Lawful) (interval : Nat) {curTime : Nat} (later : 1 < curTime) :
    final.child.info.detectThreadTime interval curTime = 1 ↔
      ∃ thread, final.Recorded thread ∧ final.read thread < sub64 curTime interval := by
  have inv := (Inv.start info.initShm fun _ => 0).trace executed lawful
  have found : final.child.info.detectThreadTime interval curTime = 1 ↔
      ∃ i < final.child.info.realSize,
        (final.child.info.infos i).recordTime < sub64 curTime interval := by
    rw [DetectInfo.detectThreadTime]
    split
    · rename_i late
      simpa only [List.any_eq_true, List.mem_range, decide_eq_true_eq, true_iff] using late
    · rename_i timely
      refine iff_of_false later.ne' fun ⟨i, less, old⟩ => timely ?_
      exact List.any_eq_true.mpr ⟨i, List.mem_range.mpr less, decide_eq_true old⟩
  rw [found]
  constructor
  · rintro ⟨i, less, old⟩
    have time := inv.times i less
    exact ⟨_, ⟨i, less, rfl, time⟩, time ▸ old⟩
  · rintro ⟨thread, ⟨i, less, _, time⟩, old⟩
    exact ⟨i, less, time ▸ old⟩

end Wyze.Daemon
