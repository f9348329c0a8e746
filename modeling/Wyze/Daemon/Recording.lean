/-
**`update_thread_time` under any interleaving of its callers.**

The search for the thread's entry and the test of the capacity come before the lock and are not repeated
behind it. `read` is the time that each thread read last; no step looks at it.

* `Inv`: what holds while no call behind the lock has found the array full.
* `Stands.frame`: what a step of one thread leaves to the others.
* `lawful_iff`: one step, and `recording_iff`: the runs in which every step is as it should be.
-/
import Mathlib.Data.Finset.Card
import Wyze.Daemon.DetectInfo

namespace Wyze.Daemon

open Labelled Child

/-- The thread whose step it is. -/
def Child.Label.thread : Label → Option Int
  | .call thread _ => some thread
  | .run thread _ => some thread
  | .setDetectInterval _ | .fork => none

/-- The statement reads the time. -/
def Phase.readsTime : Phase → Bool
  | .refreshing _ | .stamping => true
  | _ => false

/-- A child beside the time that each thread read last. -/
structure Record where
  child : Child
  read : Int → Nat

/-- What is seen of a step. -/
structure Seen where
  before : Record
  label : Label
  effect : Effect
  after : Record

namespace Record

/-- The times behind a step. -/
def reads (record : Record) : Label → Int → Nat
  | .run thread now =>
    if (record.child.phase thread).readsTime then Function.update record.read thread now
    else record.read
  | .call _ _ | .setDetectInterval _ | .fork => record.read

/-- The record behind a step, and what is seen of it. -/
def seen (record : Record) (label : Label) (moved : Child × Effect) : Record × Seen :=
  let after := { child := moved.1, read := record.reads label }
  (after, { before := record, label := label, effect := moved.2, after := after })

def step (process : Process) (record : Record) (label : Label) : Option (Record × Seen) :=
  (move process record.child label).map (record.seen label)

/-- The first child, whose threads have read no time. -/
def new (info : DetectInfo) : Record := { child := Child.new info, read := fun _ => 0 }

/-- An entry of the thread holds the time that it read last. -/
def Recorded (record : Record) (thread : Int) : Prop :=
  ∃ i < record.child.info.realSize, (record.child.info.infos i).threadId = thread ∧
    (record.child.info.infos i).recordTime = record.read thread

end Record

namespace DetectInfo

/-- No two entries are of one thread. -/
def Once (info : DetectInfo) : Prop :=
  ∀ i < info.realSize, ∀ j < info.realSize, (info.infos i).threadId = (info.infos j).threadId → i = j

/-- No entry is of the thread. -/
def Absent (info : DetectInfo) (thread : Int) : Prop :=
  ∀ i < info.realSize, (info.infos i).threadId ≠ thread

/-- An entry that counts from now on is of a thread that had none. -/
theorem Once.count {info : DetectInfo} (once : info.Once)
    (absent : info.Absent (info.infos info.realSize).threadId) :
    Once { info with realSize := info.realSize + 1 } := by
  intro i less j less' equal
  by_cases old : i < info.realSize
  · by_cases old' : j < info.realSize
    · exact once i old j old' equal
    · cases Nat.eq_of_lt_succ_of_not_lt less' old'
      exact absurd equal (absent i old)
  · cases Nat.eq_of_lt_succ_of_not_lt less old
    by_cases old' : j < info.realSize
    · exact absurd equal.symm (absent j old')
    · exact (Nat.eq_of_lt_succ_of_not_lt less' old').symm

end DetectInfo

/-- **A step as it should be.** -/
structure Seen.Lawful (seen : Seen) : Prop where
  bounded : seen.after.child.info.realSize ≤ THREAD_INFO_ARRAY
  inside : ∀ i, seen.effect.wrote = some i → i < THREAD_INFO_ARRAY
  once : seen.after.child.info.Once
  recorded : ∀ thread, seen.label.thread = some thread → seen.effect.returned = some 0 →
    seen.after.Recorded thread

/-- **There is room**: a thread that has the lock and is to write its entry finds the array not full. -/
def Room (record : Record) : Label → Prop
  | .run thread _ =>
    record.child.phase thread = .naming → record.child.info.realSize < THREAD_INFO_ARRAY
  | .call _ _ | .setDetectInterval _ | .fork => True

instance (record : Record) : ∀ label, Decidable (Room record label)
  | .run thread _ => inferInstanceAs (Decidable
      (record.child.phase thread = .naming → record.child.info.realSize < THREAD_INFO_ARRAY))
  | .call _ _ | .setDetectInterval _ | .fork => .isTrue trivial

/-! ### Where the threads stand -/

/-- A thread behind the lock that has begun to write its entry. -/
structure Writes (record : Record) (thread : Int) : Prop where
  owner : record.child.owner = some thread
  absent : record.child.info.Absent thread
  room : record.child.info.realSize < THREAD_INFO_ARRAY
  named : (record.child.info.infos record.child.info.realSize).threadId = thread

/-- What a thread in a phase knows of the entries. -/
def Stands (record : Record) (thread : Int) : Phase → Prop
  | .idle => True
  | .looping i => i ≤ record.child.info.realSize ∧
      ∀ j < i, (record.child.info.infos j).threadId ≠ thread
  | .comparing i => i < record.child.info.realSize ∧
      ∀ j < i, (record.child.info.infos j).threadId ≠ thread
  | .refreshing i => i < record.child.info.realSize ∧
      (record.child.info.infos i).threadId = thread
  | .testing | .locking => record.child.info.Absent thread
  | .naming => record.child.owner = some thread ∧ record.child.info.Absent thread
  | .describing | .stamping => Writes record thread
  | .counting => Writes record thread ∧
      (record.child.info.infos record.child.info.realSize).recordTime = record.read thread

/-- **The invariant**: an entry holds the time that its thread read last. -/
structure Inv (record : Record) : Prop where
  running : record.child.running = true
  bounded : record.child.info.realSize ≤ THREAD_INFO_ARRAY
  once : record.child.info.Once
  times : ∀ i < record.child.info.realSize, (record.child.info.infos i).recordTime =
    record.read (record.child.info.infos i).threadId
  stands : ∀ thread, Stands record thread (record.child.phase thread)

variable {process : Process} {record after : Record} {thread other : Int} {now i : Nat} {phase : Phase}

theorem Inv.start (info : DetectInfo) (read : Int → Nat) :
    Inv { child := Child.start info, read := read } where
  running := rfl
  bounded := Nat.zero_le _
  once := fun _ less => absurd less (Nat.not_lt_zero _)
  times := fun _ less => absurd less (Nat.not_lt_zero _)
  stands := fun _ => trivial

/-! ### What a step of one thread leaves to the others -/

/-- Entries keep their threads, new ones are of the thread that makes the step, if one does, and another
thread that has the lock finds the entry behind the last one as it was. -/
structure Frame (before after : Record) (mover : Option Int) : Prop where
  grows : before.child.info.realSize ≤ after.child.info.realSize
  kept : ∀ i < before.child.info.realSize,
    (after.child.info.infos i).threadId = (before.child.info.infos i).threadId
  fresh : ∀ i < after.child.info.realSize, before.child.info.realSize ≤ i →
    mover = some (after.child.info.infos i).threadId
  owned : ∀ other, mover ≠ some other → before.child.owner = some other →
    after.child.owner = some other ∧ after.child.info.realSize = before.child.info.realSize ∧
      after.child.info.infos before.child.info.realSize =
        before.child.info.infos before.child.info.realSize
  read : ∀ other, mover ≠ some other → after.read other = before.read other

variable {mover : Option Int} {before : Record}

theorem Frame.absent (frame : Frame before after mover) (differs : mover ≠ some other)
    (absent : before.child.info.Absent other) : after.child.info.Absent other := by
  intro i less
  by_cases old : i < before.child.info.realSize
  · rw [frame.kept i old]
    exact absent i old
  · rintro rfl
    exact differs (frame.fresh i less (Nat.le_of_not_lt old))

theorem Frame.writes (frame : Frame before after mover) (differs : mover ≠ some other)
    (writes : Writes before other) : Writes after other := by
  obtain ⟨owner, sameSize, sameEntry⟩ := frame.owned other differs writes.owner
  refine ⟨owner, frame.absent differs writes.absent, ?_, ?_⟩
  · rw [sameSize]
    exact writes.room
  · rw [sameSize, sameEntry]
    exact writes.named

/-- **A step of one thread** leaves the others where they stand. -/
theorem Stands.frame (stands : Stands before other phase) (frame : Frame before after mover)
    (differs : mover ≠ some other) : Stands after other phase := by
  cases phase with
  | idle => trivial
  | looping i =>
      obtain ⟨upTo, others⟩ := stands
      refine ⟨upTo.trans frame.grows, fun j less => ?_⟩
      rw [frame.kept j (less.trans_le upTo)]
      exact others j less
  | comparing i =>
      obtain ⟨inside, others⟩ := stands
      refine ⟨inside.trans_le frame.grows, fun j less => ?_⟩
      rw [frame.kept j (less.trans inside)]
      exact others j less
  | refreshing i =>
      obtain ⟨inside, own⟩ := stands
      exact ⟨inside.trans_le frame.grows, (frame.kept i inside).trans own⟩
  | testing | locking => exact frame.absent differs stands
  | naming =>
      obtain ⟨owner, absent⟩ := stands
      exact ⟨(frame.owned other differs owner).1, frame.absent differs absent⟩
  | describing | stamping => exact frame.writes differs stands
  | counting =>
      obtain ⟨writes, stamped⟩ := stands
      obtain ⟨_, sameSize, sameEntry⟩ := frame.owned other differs writes.owner
      refine ⟨frame.writes differs writes, ?_⟩
      rw [sameSize, sameEntry, frame.read other differs]
      exact stamped

/-- The entries and the times stay as they are, and no other thread loses the lock. -/
theorem Frame.of_same (size : after.child.info.realSize = before.child.info.realSize)
    (infos : after.child.info.infos = before.child.info.infos) (read : after.read = before.read)
    (owner : ∀ other, mover ≠ some other → before.child.owner = some other →
      after.child.owner = some other) : Frame before after mover where
  grows := size.ge
  kept := fun i _ => by rw [infos]
  fresh := fun i less most => absurd (less.trans_eq size) (Nat.not_lt_of_le most)
  owned := fun other differs owns => ⟨owner other differs owns, size, by rw [infos]⟩
  read := fun other _ => by rw [read]

/-- The thread that has the lock writes the entry behind the last one. -/
theorem Frame.of_set (owner : before.child.owner = some thread) {entry : ThreadInfo}
    (info : after.child.info = before.child.info.set before.child.info.realSize entry)
    (read : ∀ other, other ≠ thread → after.read other = before.read other) :
    Frame before after (some thread) where
  grows := by rw [info, DetectInfo.set_realSize]
  kept := fun i less => by rw [info, DetectInfo.set_of_ne less.ne]
  fresh := fun i less most => by
    rw [info, DetectInfo.set_realSize] at less
    exact absurd less (Nat.not_lt_of_le most)
  owned := fun other differs owns => absurd (owner.symm.trans owns) differs
  read := fun other differs => read other fun same => differs (congrArg some same.symm)

/-- An entry that is there is written for the same thread. -/
theorem Frame.of_refresh (inside : i < before.child.info.realSize) {entry : ThreadInfo}
    (info : after.child.info = before.child.info.set i entry)
    (same : entry.threadId = (before.child.info.infos i).threadId)
    (owner : after.child.owner = before.child.owner)
    (read : ∀ other, other ≠ thread → after.read other = before.read other) :
    Frame before after (some thread) where
  grows := by rw [info, DetectInfo.set_realSize]
  kept := fun j _ => by rw [info, DetectInfo.set_threadId same]
  fresh := fun j less most => by
    rw [info, DetectInfo.set_realSize] at less
    exact absurd less (Nat.not_lt_of_le most)
  owned := fun other _ owns => by
    rw [owner, info]
    exact ⟨owns, rfl, DetectInfo.set_of_ne inside.ne'⟩
  read := fun other differs => read other fun same => differs (congrArg some same.symm)

/-- The entry behind the last one counts. -/
theorem Frame.of_count (writes : Writes before thread)
    (info : after.child.info = { before.child.info with realSize := before.child.info.realSize + 1 })
    (read : after.read = before.read) : Frame before after (some thread) where
  grows := by
    rw [info]
    exact Nat.le_succ _
  kept := fun i _ => by rw [info]
  fresh := fun i less most => by
    rw [info] at less ⊢
    cases Nat.le_antisymm (Nat.le_of_lt_succ less) most
    exact congrArg some writes.named.symm
  owned := fun other differs owns => absurd (writes.owner.symm.trans owns) differs
  read := fun other _ => by rw [read]

/-! ### What a step keeps -/

/-- The invariant behind a step that leaves the other threads alone. -/
structure Keeps (before after : Record) (mover : Option Int) : Prop where
  inv : Inv after
  frame : Frame before after mover

/-- **One step** of a thread keeps the invariant if it leaves the others alone and stands well itself. -/
theorem Inv.next (inv : Inv before) (frame : Frame before after (some thread))
    (phases : after.child.phase = Function.update before.child.phase thread phase)
    (running : after.child.running = true) (bounded : after.child.info.realSize ≤ THREAD_INFO_ARRAY)
    (once : after.child.info.Once)
    (times : ∀ i < after.child.info.realSize, (after.child.info.infos i).recordTime =
      after.read (after.child.info.infos i).threadId)
    (stands : Stands after thread phase) : Keeps before after (some thread) := by
  refine ⟨⟨running, bounded, once, times, fun other => ?_⟩, frame⟩
  rw [phases]
  by_cases same : other = thread
  · subst same
    rw [Function.update_self]
    exact stands
  · rw [Function.update_of_ne same]
    exact (inv.stands other).frame frame fun equal => same (Option.some.inj equal).symm

/-- A step that leaves all threads where they are, the entries, the times and the lock. -/
theorem Inv.same (inv : Inv before) (size : after.child.info.realSize = before.child.info.realSize)
    (infos : after.child.info.infos = before.child.info.infos) (read : after.read = before.read)
    (owner : after.child.owner = before.child.owner) (phases : after.child.phase = before.child.phase)
    (running : after.child.running = before.child.running) : Keeps before after mover := by
  have frame (mover : Option Int) : Frame before after mover :=
    Frame.of_same size infos read fun _ _ owns => owner.trans owns
  refine ⟨⟨running.trans inv.running, ?_, ?_, ?_, fun thread => ?_⟩, frame mover⟩
  · rw [size]
    exact inv.bounded
  · intro i less j less' equal
    rw [infos] at equal
    exact inv.once i (less.trans_eq size) j (less'.trans_eq size) equal
  · intro i less
    rw [infos, read]
    exact inv.times i (less.trans_eq size)
  · rw [phases]
    exact (inv.stands thread).frame (frame none) (Option.some_ne_none thread).symm

/-- A step that changes nothing but where its thread is and who has the lock. -/
theorem Inv.goTo (inv : Inv before) (info : after.child.info = before.child.info)
    (read : after.read = before.read)
    (owner : ∀ other, some thread ≠ some other → before.child.owner = some other →
      after.child.owner = some other)
    (phases : after.child.phase = Function.update before.child.phase thread phase)
    (running : after.child.running = before.child.running)
    (stands : Stands after thread phase) : Keeps before after (some thread) := by
  refine inv.next (Frame.of_same (by rw [info]) (by rw [info]) read owner) phases
    (running.trans inv.running) ?_ ?_ ?_ stands
  · rw [info]
    exact inv.bounded
  · rw [info]
    exact inv.once
  · rw [info, read]
    exact inv.times

/-- The thread that has the lock writes the entry behind the last one. -/
theorem Inv.write (inv : Inv before) (owner : before.child.owner = some thread)
    (absent : before.child.info.Absent thread) {entry : ThreadInfo}
    (info : after.child.info = before.child.info.set before.child.info.realSize entry)
    (read : ∀ other, other ≠ thread → after.read other = before.read other)
    (phases : after.child.phase = Function.update before.child.phase thread phase)
    (running : after.child.running = before.child.running)
    (stands : Stands after thread phase) : Keeps before after (some thread) := by
  have same (j : Nat) (less : j < before.child.info.realSize) :
      after.child.info.infos j = before.child.info.infos j := by
    rw [info, DetectInfo.set_of_ne less.ne]
  have size : after.child.info.realSize = before.child.info.realSize := by
    rw [info, DetectInfo.set_realSize]
  refine inv.next (Frame.of_set owner info read) phases (running.trans inv.running) ?_ ?_ ?_ stands
  · rw [size]
    exact inv.bounded
  · intro j less k less' equal
    rw [size] at less less'
    rw [same j less, same k less'] at equal
    exact inv.once j less k less' equal
  · intro j less
    rw [size] at less
    rw [same j less, read _ (absent j less)]
    exact inv.times j less

/-- The entry is the thread's. -/
theorem Writes.of_set (owner : after.child.owner = some thread)
    (absent : before.child.info.Absent thread)
    (room : before.child.info.realSize < THREAD_INFO_ARRAY) {entry : ThreadInfo}
    (info : after.child.info = before.child.info.set before.child.info.realSize entry)
    (named : entry.threadId = thread) :
    Writes after thread where
  owner := owner
  absent := by
    intro j less
    rw [info, DetectInfo.set_realSize] at less
    rw [info, DetectInfo.set_of_ne less.ne]
    exact absent j less
  room := by
    rw [info]
    exact room
  named := by
    rw [info, DetectInfo.set_realSize, DetectInfo.set_self]
    exact named

/-- A step keeps the invariant, is as it should be and, if the child lives on, leaves the other threads
alone. -/
structure Kept (result : Record × Seen) : Prop where
  inv : Inv result.1
  lawful : result.2.Lawful
  frame : result.2.label ≠ .fork → Frame result.2.before result.1 result.2.label.thread

section Results

variable {label : Label} {next : Child} {effect : Effect}

theorem Keeps.kept (keeps : Keeps record (record.seen label (next, effect)).1 label.thread)
    (inside : ∀ i, effect.wrote = some i → i < THREAD_INFO_ARRAY)
    (recorded : ∀ thread, label.thread = some thread → effect.returned = some 0 →
      (record.seen label (next, effect)).1.Recorded thread) :
    Kept (record.seen label (next, effect)) :=
  ⟨keeps.inv, ⟨keeps.inv.bounded, inside, keeps.inv.once, recorded⟩, fun _ => keeps.frame⟩

/-- A step that returns nothing, or not 0, and writes no entry. -/
theorem Keeps.quiet (keeps : Keeps record (record.seen label (next, effect)).1 label.thread)
    (wrote : effect.wrote = none) (returned : effect.returned ≠ some 0) :
    Kept (record.seen label (next, effect)) := by
  refine keeps.kept (fun i written => ?_) fun _ _ zero => absurd zero returned
  cases wrote.symm.trans written

/-- A step that writes an entry and does not return. -/
theorem Keeps.writes (keeps : Keeps record (record.seen label (next, effect)).1 label.thread)
    (wrote : effect.wrote = some i) (inside : i < THREAD_INFO_ARRAY)
    (returned : effect.returned = none) : Kept (record.seen label (next, effect)) := by
  refine keeps.kept (fun j written => ?_) fun _ _ zero => ?_
  · cases wrote.symm.trans written
    exact inside
  · cases returned.symm.trans zero

end Results

theorem reads_quiet (here : record.child.phase thread = phase) (quiet : phase.readsTime = false) :
    record.reads (.run thread now) = record.read := by
  rw [Record.reads, here, quiet, if_neg Bool.false_ne_true]

theorem reads_self (here : record.child.phase thread = phase) (timed : phase.readsTime = true) :
    record.reads (.run thread now) thread = now := by
  rw [Record.reads, here, timed, if_pos rfl, Function.update_self]

theorem reads_other (now : Nat) (differs : other ≠ thread) :
    record.reads (.run thread now) other = record.read other := by
  rw [Record.reads]
  split
  · rw [Function.update_of_ne differs]
  · rfl

/-- A `uint32_t` that is an index does not wrap. -/
theorem succ_mod (inside : i < THREAD_INFO_ARRAY) : (i + 1) % 2 ^ 32 = i + 1 :=
  Nat.mod_eq_of_lt ((Nat.succ_le_of_lt inside).trans_lt (by decide))

theorem access_of_lt (process : Process) (child next : Child) (effect : Effect)
    (inside : i < THREAD_INFO_ARRAY) : child.access process i next effect = (next, effect) :=
  if_pos (Or.inl inside)

theorem Inv.standsAt (inv : Inv record) (here : record.child.phase thread = phase) :
    Stands record thread phase := here ▸ inv.stands thread

variable {result : Child × Effect}

/-- The thread only goes on, or returns something else than 0. -/
theorem Inv.moves (inv : Inv record) (here : record.child.phase thread = phase)
    (quiet : phase.readsTime = false) {phase' : Phase} {returned : Option Int}
    (failed : returned ≠ some 0)
    (stands : Stands (record.seen (.run thread now)
      (record.child.goTo thread phase', ⟨none, returned⟩)).1 thread phase') :
    Kept (record.seen (.run thread now) (record.child.goTo thread phase', ⟨none, returned⟩)) := by
  refine Keeps.quiet ?_ rfl failed
  exact inv.goTo rfl (reads_quiet here quiet) (fun _ _ owns => owns) rfl rfl stands

/-- The thread that has the lock writes a part of its entry. -/
theorem Inv.writes (inv : Inv record) (owner : record.child.owner = some thread)
    (absent : record.child.info.Absent thread)
    (room : record.child.info.realSize < THREAD_INFO_ARRAY) {entry : ThreadInfo} {phase' : Phase}
    (stands : Stands (record.seen (.run thread now) ({ record.child with
      info := record.child.info.set record.child.info.realSize entry }.goTo thread phase',
        ⟨some record.child.info.realSize, none⟩)).1 thread phase') :
    Kept (record.seen (.run thread now) ({ record.child with
      info := record.child.info.set record.child.info.realSize entry }.goTo thread phase',
        ⟨some record.child.info.realSize, none⟩)) := by
  refine Keeps.writes ?_ rfl room rfl
  exact inv.write owner absent rfl (fun _ => reads_other now) rfl rfl stands

/-- The test of the loop. -/
theorem Inv.looping (inv : Inv record) (here : record.child.phase thread = .looping i)
    (moved : record.child.updateThreadTime process thread now = some result) :
    Kept (record.seen (.run thread now) result) := by
  obtain ⟨upTo, others⟩ := inv.standsAt here
  simp only [updateThreadTime, here] at moved
  cases moved
  refine inv.moves here rfl (by rintro ⟨⟩) ?_
  by_cases more : i < record.child.info.realSize
  · rw [if_pos more]
    exact ⟨more, others⟩
  · rw [if_neg more]
    exact fun j less => others j (less.trans_le (Nat.le_of_not_lt more))

/-- The comparison in the loop. -/
theorem Inv.comparing (inv : Inv record) (here : record.child.phase thread = .comparing i)
    (moved : record.child.updateThreadTime process thread now = some result) :
    Kept (record.seen (.run thread now) result) := by
  obtain ⟨inside, others⟩ := inv.standsAt here
  have low : i < THREAD_INFO_ARRAY := inside.trans_le inv.bounded
  simp only [updateThreadTime, here, access_of_lt _ _ _ _ low] at moved
  cases moved
  refine inv.moves here rfl (by rintro ⟨⟩) ?_
  by_cases own : (record.child.info.infos i).threadId = thread
  · rw [if_pos own]
    exact ⟨inside, own⟩
  · rw [if_neg own, succ_mod low]
    refine ⟨inside, fun j less => ?_⟩
    rcases Nat.lt_succ_iff_lt_or_eq.mp less with earlier | rfl
    · exact others j earlier
    · exact own

/-- The thread writes the time into its entry and returns. -/
theorem Inv.refreshing (inv : Inv record) (here : record.child.phase thread = .refreshing i)
    (moved : record.child.updateThreadTime process thread now = some result) :
    Kept (record.seen (.run thread now) result) := by
  obtain ⟨inside, own⟩ := inv.standsAt here
  have low : i < THREAD_INFO_ARRAY := inside.trans_le inv.bounded
  simp only [updateThreadTime, here, access_of_lt _ _ _ _ low] at moved
  cases moved
  have sameId := @DetectInfo.set_threadId record.child.info i
    { record.child.info.infos i with recordTime := now } rfl
  have read := @reads_self record thread now _ here rfl
  have times (j : Nat) (less : j < record.child.info.realSize) :
      ((record.child.info.set i { record.child.info.infos i with recordTime := now }).infos
        j).recordTime = record.reads (.run thread now) (record.child.info.infos j).threadId := by
    by_cases same : j = i
    · rw [same, DetectInfo.set_self, own, read]
    · have differs : (record.child.info.infos j).threadId ≠ thread := fun equal =>
        same (inv.once j less i inside (equal.trans own.symm))
      rw [DetectInfo.set_of_ne same, reads_other now differs]
      exact inv.times j less
  refine Keeps.kept ?_ ?_ ?_
  · refine inv.next (Frame.of_refresh inside rfl rfl rfl fun _ => reads_other now) rfl inv.running
      inv.bounded ?_ ?_ trivial
    · intro j less k less' equal
      exact inv.once j less k less' ((sameId j).symm.trans (equal.trans (sameId k)))
    · intro j less
      exact (times j less).trans (congrArg _ (sameId j).symm)
  · rintro _ ⟨⟩
    exact low
  · rintro _ ⟨⟩ _
    exact ⟨i, inside, (sameId i).trans own, (times i inside).trans (congrArg _ own)⟩

/-- The test of the capacity. -/
theorem Inv.testing (inv : Inv record) (here : record.child.phase thread = .testing)
    (moved : record.child.updateThreadTime process thread now = some result) :
    Kept (record.seen (.run thread now) result) := by
  have absent := inv.standsAt here
  simp only [updateThreadTime, here] at moved
  split at moved
  · cases moved
    exact inv.moves here rfl (by rintro ⟨⟩) trivial
  · cases moved
    exact inv.moves here rfl (by rintro ⟨⟩) absent

/-- The thread takes the lock. -/
theorem Inv.locking (inv : Inv record) (here : record.child.phase thread = .locking)
    (moved : record.child.updateThreadTime process thread now = some result) :
    Kept (record.seen (.run thread now) result) := by
  have absent := inv.standsAt here
  simp only [updateThreadTime, here] at moved
  split at moved
  · rename_i free
    cases moved
    refine Keeps.quiet ?_ rfl (by rintro ⟨⟩)
    refine inv.goTo rfl (reads_quiet here rfl) (fun other _ owns => ?_) rfl rfl ⟨rfl, absent⟩
    rw [free] at owns
    cases owns
  · cases moved

/-- The writes behind the lock. -/
theorem Inv.naming (inv : Inv record) (here : record.child.phase thread = .naming)
    (room : record.child.info.realSize < THREAD_INFO_ARRAY)
    (moved : record.child.updateThreadTime process thread now = some result) :
    Kept (record.seen (.run thread now) result) := by
  obtain ⟨owner, absent⟩ := inv.standsAt here
  simp only [updateThreadTime, here, access_of_lt _ _ _ _ room] at moved
  cases moved
  refine inv.writes owner absent room ?_
  exact Writes.of_set owner absent room rfl rfl

theorem Inv.describing (inv : Inv record) (here : record.child.phase thread = .describing)
    (moved : record.child.updateThreadTime process thread now = some result) :
    Kept (record.seen (.run thread now) result) := by
  have writes : Writes record thread := inv.standsAt here
  simp only [updateThreadTime, here, access_of_lt _ _ _ _ writes.room] at moved
  cases moved
  refine inv.writes writes.owner writes.absent writes.room ?_
  exact Writes.of_set writes.owner writes.absent writes.room rfl writes.named

theorem Inv.stamping (inv : Inv record) (here : record.child.phase thread = .stamping)
    (moved : record.child.updateThreadTime process thread now = some result) :
    Kept (record.seen (.run thread now) result) := by
  have writes : Writes record thread := inv.standsAt here
  simp only [updateThreadTime, here, access_of_lt _ _ _ _ writes.room] at moved
  cases moved
  refine inv.writes writes.owner writes.absent writes.room ⟨?_, ?_⟩
  · exact Writes.of_set writes.owner writes.absent writes.room rfl writes.named
  · exact (congrArg ThreadInfo.recordTime DetectInfo.set_self).trans (reads_self here rfl).symm

/-- The entry counts, and the call returns. -/
theorem Inv.counting (inv : Inv record) (here : record.child.phase thread = .counting)
    (moved : record.child.updateThreadTime process thread now = some result) :
    Kept (record.seen (.run thread now) result) := by
  obtain ⟨writes, stamped⟩ := inv.standsAt here
  simp only [updateThreadTime, here, succ_mod writes.room] at moved
  cases moved
  have read := @reads_quiet record thread now _ here rfl
  have once : DetectInfo.Once { record.child.info with realSize := record.child.info.realSize + 1 } :=
    inv.once.count fun i less equal => writes.absent i less (equal.trans writes.named)
  refine Keeps.kept (inv.next (Frame.of_count writes rfl read) rfl inv.running
    (Nat.succ_le_of_lt writes.room) once ?_ trivial) (by rintro _ ⟨⟩) ?_
  · intro j less
    show _ = record.reads (.run thread now) _
    rw [read]
    by_cases old : j < record.child.info.realSize
    · exact inv.times j old
    · cases Nat.eq_of_lt_succ_of_not_lt less old
      exact stamped.trans (congrArg _ writes.named.symm)
  · rintro _ ⟨⟩ _
    refine ⟨record.child.info.realSize, Nat.lt_succ_self _, writes.named, ?_⟩
    exact stamped.trans (congrFun read.symm thread)

/-- **A step of a thread in its call.** -/
theorem Inv.run (inv : Inv record) (room : Room record (.run thread now))
    (moved : record.child.updateThreadTime process thread now = some result) :
    Kept (record.seen (.run thread now) result) := by
  cases here : record.child.phase thread with
  | idle => simp only [updateThreadTime, here, reduceCtorEq] at moved
  | looping i => exact inv.looping here moved
  | comparing i => exact inv.comparing here moved
  | refreshing i => exact inv.refreshing here moved
  | testing => exact inv.testing here moved
  | locking => exact inv.locking here moved
  | naming => exact inv.naming here (room here) moved
  | describing => exact inv.describing here moved
  | stamping => exact inv.stamping here moved
  | counting => exact inv.counting here moved

/-- **Where there is room** a step keeps the invariant and is as it should be. -/
theorem kept_of_room {label : Label} {next : Record × Seen} (inv : Inv record) (room : Room record label)
    (stepped : record.step process label = some next) : Kept next := by
  obtain ⟨result, moved, rfl⟩ := Option.map_eq_some_iff.mp stepped
  cases label with
  | call thread desc =>
      simp only [move] at moved
      split at moved
      · split at moved
        · cases moved
          refine Keeps.quiet ?_ rfl (by rintro ⟨⟩)
          exact inv.goTo rfl rfl (fun _ _ owns => owns) rfl rfl
            ⟨Nat.zero_le _, fun _ less => absurd less (Nat.not_lt_zero _)⟩
        · cases moved
          exact Keeps.quiet (inv.same rfl rfl rfl rfl rfl rfl) rfl (by rintro ⟨⟩)
      · cases moved
  | run thread now =>
      simp only [move] at moved
      split at moved
      · exact inv.run room moved
      · cases moved
  | setDetectInterval interval =>
      cases moved
      refine Keeps.quiet ?_ rfl (by rintro ⟨⟩)
      cases process.attached with
      | false => exact inv.same rfl rfl rfl rfl rfl rfl
      | true => exact inv.same rfl rfl rfl rfl rfl rfl
  | fork =>
      simp only [move] at moved
      split at moved
      · cases moved
        have inv' := Inv.start record.child.info record.read
        exact ⟨inv', ⟨inv'.bounded, by rintro _ ⟨⟩, inv'.once, by rintro _ _ ⟨⟩⟩,
          fun same => absurd rfl same⟩
      · cases moved

/-- A thread that has the lock writes its entry behind the last one, also where the array ends. -/
theorem wrote_of_naming (here : record.child.phase thread = .naming)
    (moved : record.child.updateThreadTime process thread now = some result) :
    result.2.wrote = some record.child.info.realSize := by
  simp only [updateThreadTime, here, access] at moved
  split at moved <;> cases moved <;> rfl

/-- **One step** is as it should be exactly when there is room. -/
theorem lawful_iff {label : Label} {next : Record × Seen} (inv : Inv record)
    (stepped : record.step process label = some next) :
    (next.2.Lawful ↔ Room record label) ∧ (next.2.Lawful → Inv next.1) := by
  have agree : next.2.Lawful ↔ Room record label := by
    refine ⟨fun lawful => ?_, fun room => (kept_of_room inv room stepped).lawful⟩
    cases label with
    | run thread now =>
        intro here
        obtain ⟨result, moved, rfl⟩ := Option.map_eq_some_iff.mp stepped
        simp only [move] at moved
        split at moved
        · exact lawful.inside _ (wrote_of_naming here moved)
        · cases moved
    | call | setDetectInterval | fork => trivial
  exact ⟨agree, fun lawful => (kept_of_room inv (agree.mp lawful) stepped).inv⟩

/-- **A run** is as it should be exactly when there is room in all its steps. -/
theorem Inv.trace_lawful_iff (inv : Inv record) {labels : List Label} {final : Record} {seen : List Seen}
    (executed : trace (Record.step process) record labels = some (final, seen)) :
    (∀ one ∈ seen, one.Lawful) ↔ Meets (Record.step process) Room record labels :=
  trace_shown_iff (fun _ _ _ inv stepped => lawful_iff inv stepped) labels inv executed

/-- Such a run keeps the invariant. -/
theorem Inv.trace (inv : Inv record) {labels : List Label} {final : Record} {seen : List Seen}
    (executed : trace (Record.step process) record labels = some (final, seen))
    (lawful : ∀ one ∈ seen, one.Lawful) : Inv final :=
  trace_invariant Room (fun _ _ _ inv room stepped => (kept_of_room inv room stepped).inv) labels inv
    ((inv.trace_lawful_iff executed).mp lawful) executed

/-- **Recording times.** In every run of a daemon's children, from whatever the shared memory holds, no
more than `THREAD_INFO_ARRAY` entries count, no entry behind the array is written, no thread has two
entries and every call that returns 0 has recorded the time that its thread read, if and only if each
thread that has taken the lock finds the array not full when it begins to write its entry. -/
theorem recording_iff (process : Process) (info : DetectInfo) {labels : List Label} {final : Record}
    {seen : List Seen}
    (executed : trace (Record.step process) (Record.new info) labels = some (final, seen)) :
    (∀ one ∈ seen, one.Lawful) ↔ Meets (Record.step process) Room (Record.new info) labels :=
  (Inv.start _ _).trace_lawful_iff executed

/-- A segment as the kernel hands it out. -/
def zeroShm : DetectInfo :=
  { realSize := 0, interval := 0
    infos := fun _ => { recordTime := 0, threadId := 0, threadDesc := Vector.replicate 120 0 } }

/-- Threads that pass the search and the test while no entry counts, and then write theirs. -/
def firstCalls (threads : List Int) (now : Nat) : List Label :=
  (threads.flatMap fun thread => [.call thread [], .run thread now, .run thread now]) ++
    threads.flatMap fun thread => List.replicate 5 (.run thread now)

/-- Two threads pass the test at once, and the second of them calls again. -/
theorem recording_two :
    ∃ final seen, trace (Record.step ⟨true, fun _ => false⟩) (Record.new zeroShm)
        (firstCalls [7, 8] 100 ++ .call 8 [] :: List.replicate 5 (.run 8 105)) = some (final, seen) ∧
      (∀ one ∈ seen, one.Lawful) ∧ final.child.info.realSize = 2 ∧ final.Recorded 8 := by
  have shown : (trace (Record.step ⟨true, fun _ => false⟩) (Record.new zeroShm)
      (firstCalls [7, 8] 100 ++ .call 8 [] :: List.replicate 5 (.run 8 105))).map (fun result =>
        (result.1.child.info.realSize, (result.1.child.info.infos 1).threadId,
          (result.1.child.info.infos 1).recordTime, result.1.read 8)) = some (2, 8, 105, 105) := by
    decide +kernel
  obtain ⟨⟨final, seen⟩, executed, same⟩ := Option.map_eq_some_iff.mp shown
  obtain ⟨size, id, time, read⟩ : _ ∧ _ ∧ _ ∧ _ := by simpa only [Prod.mk.injEq] using same
  refine ⟨final, seen, executed, ?_, size, 1, size ▸ Nat.one_lt_two, id, time.trans read.symm⟩
  exact (recording_iff ⟨true, fun _ => false⟩ zeroShm executed).mpr (by decide +kernel)

/-- **The thirty-first entry**: 31 threads pass the test before one of them writes. Where there is memory
behind the array, 31 entries count; where there is none, the child is killed. -/
theorem thirty_first_written :
    (∃ final seen, trace (Record.step ⟨true, fun _ => true⟩) (Record.new zeroShm)
        (firstCalls ((List.range 31).map fun k => (k + 1 : Int)) 100) = some (final, seen) ∧
      final.child.info.realSize = 31 ∧ ¬ ∀ one ∈ seen, one.Lawful) ∧
    ∃ final seen, trace (Record.step ⟨true, fun _ => false⟩) (Record.new zeroShm)
        ((firstCalls ((List.range 31).map fun k => (k + 1 : Int)) 100).take 245) =
          some (final, seen) ∧
      final.child.running = false ∧ ¬ ∀ one ∈ seen, one.Lawful := by
  have unlawful {seen : List Seen} (wrote : (seen.any fun one => one.effect.wrote == some 30) = true) :
      ¬ ∀ one ∈ seen, one.Lawful := by
    intro all
    obtain ⟨one, among, outside⟩ := List.any_eq_true.mp wrote
    exact absurd ((all one among).inside 30 (beq_iff_eq.mp outside)) (Nat.lt_irrefl 30)
  have shown : (trace (Record.step ⟨true, fun _ => true⟩) (Record.new zeroShm)
      (firstCalls ((List.range 31).map fun k => (k + 1 : Int)) 100)).map (fun result =>
        (result.1.child.info.realSize, result.2.any fun one => one.effect.wrote == some 30)) =
      some (31, true) := by decide +kernel
  have shown' : (trace (Record.step ⟨true, fun _ => false⟩) (Record.new zeroShm)
      ((firstCalls ((List.range 31).map fun k => (k + 1 : Int)) 100).take 245)).map
        (fun result =>
          (result.1.child.running, result.2.any fun one => one.effect.wrote == some 30)) =
      some (false, true) := by decide +kernel
  obtain ⟨⟨final, seen⟩, executed, same⟩ := Option.map_eq_some_iff.mp shown
  obtain ⟨⟨final', seen'⟩, executed', same'⟩ := Option.map_eq_some_iff.mp shown'
  rw [Prod.mk.injEq] at same same'
  exact ⟨⟨final, seen, executed, same.1, unlawful same.2⟩,
    ⟨final', seen', executed', same'.1, unlawful same'.2⟩⟩

end Wyze.Daemon
