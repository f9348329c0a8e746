/-
**A file appender comes back to its file.**

A file is rotated, or could not be opened, and the appender notices it with the next event that is three
seconds younger than the one it last opened its file for.

* `ready_effect`: an appender that is at the file, or will open it again in time, goes on to be so, and
  then writes to the file that has the name.
* `log_recovers`: **three seconds after the last event before a rotation, an appender writes to the file
  that has its name**.
-/
import Wyze.Log.Appending

namespace Wyze.Log

open Labelled

namespace Logs

/-! ### An appender that is ready -/

/-- The appender is of the file, which can be opened; it will open it again for an event of the time, or is
at it. -/
def Ready (logs : Logs) (i : Nat) (filename : String) (time : Nat) : Prop :=
  logs.disk.opening filename = .opens ∧ ∃ appender, logs.appenders[i]? = some appender ∧
    appender.kind = .file filename ∧
    (appender.lastTime.toNat + 3 ≤ time ∨ logs.Current i filename)

/-- What the appender has written of this time has gone to the file that has the name. -/
def Right (logs : Logs) (i : Nat) (filename : String) (time : Nat) (shown : List Entry) : Prop :=
  ∀ record, .wrote record ∈ shown → record.appender = i → record.event.time.toNat = time →
    ∃ file, record.target = .file file ∧ logs.disk.named filename = some file

variable {logs next : Logs} {i : Nat} {filename : String} {time : Nat} {shown : List Entry}

theorem Current.mono (current : logs.Current i filename) (kept : logs.Keeps next)
    (same : next.appenders[i]? = logs.appenders[i]?) : next.Current i filename := by
  obtain ⟨appender, file, placed, stream, named⟩ := current
  exact ⟨appender, file, same.trans placed, stream, kept.named filename file named⟩

theorem Ready.mono (ready : logs.Ready i filename time) (kept : logs.Keeps next)
    (same : next.appenders[i]? = logs.appenders[i]?) : next.Ready i filename time := by
  obtain ⟨opens, appender, placed, kind, ready⟩ := ready
  refine ⟨?_, appender, same.trans placed, kind, ready.imp_right fun current => current.mono kept same⟩
  rw [kept.opening]
  exact opens

theorem Ready.of_current (ready : logs.Ready i filename time) (kept : logs.Keeps next)
    (current : next.Current i filename) : next.Ready i filename time := by
  obtain ⟨opens, appender, placed, kind, _⟩ := ready
  obtain ⟨appender', placed', kind', _⟩ := kept.placed placed
  refine ⟨?_, appender', placed', kind'.trans kind, Or.inr current⟩
  rw [kept.opening]
  exact opens

/-- An appender that need not open its file for an event is at it. -/
theorem Ready.current {appender : Appender} {now : UInt64} (ready : logs.Ready i filename time)
    (placed : logs.appenders[i]? = some appender) (early : appender.due now = false)
    (same : now.toNat = time) : logs.Current i filename := by
  obtain ⟨_, appender', placed', _, ready⟩ := ready
  cases placed.symm.trans placed'
  refine ready.resolve_left fun late => ?_
  have due : now ≥ appender.lastTime + 3 := by
    rw [ge_iff_le, UInt64.le_iff_toNat_le, UInt64.toNat_add, same]
    exact Nat.le_trans (Nat.mod_le _ _) late
  unfold Appender.due at early
  rw [decide_eq_true due] at early
  cases early

theorem Current.target (current : logs.Current i filename) :
    ∃ file, logs.target i = .file file ∧ logs.disk.named filename = some file := by
  obtain ⟨appender, file, placed, stream, named⟩ := current
  refine ⟨file, ?_, named⟩
  unfold Logs.target
  rw [placed, Option.bind_some, stream]

theorem Current.modifyAppender (current : logs.Current i filename) {change : Appender → Appender}
    (stream : ∀ appender, (change appender).stream = appender.stream) :
    (logs.modifyAppender i change).Current i filename := by
  obtain ⟨appender, file, placed, isStream, named⟩ := current
  refine ⟨change appender, file, ?_, (stream appender).trans isStream, named⟩
  rw [getElem?_modifyAppender, placed, Option.map_some, if_pos rfl]

/-- The text that goes to a stream. -/
theorem right_writeStream (reported : Bool) (event : LogEvent) (j : Nat)
    (current : j = i → event.time.toNat = time → logs.Current i filename) :
    Right (logs.writeStream reported event j).1 i filename time
      (logs.writeStream reported event j).2 := by
  obtain ⟨shows, kept, _⟩ := writeStream_eq reported event j logs
  rw [shows]
  intro record member same now
  cases List.mem_singleton.mp member
  obtain ⟨file, isFile, named⟩ := (current same now).target
  have isFile' : logs.target j = .file file := by
    rw [show j = i from same]
    exact isFile
  exact ⟨file, isFile', kept.named filename file named⟩

/-- **What one effect does to an appender that is ready.** -/
theorem ready_effect (ready : logs.Ready i filename time) (effect : Effect logs next shown) :
    next.Ready i filename time ∧ Right next i filename time shown := by
  have kept := effect.keeps
  obtain ⟨opens, own, ownPlaced, ownKind, _⟩ := id ready
  cases effect with
  | @opened j appender other placed kind _ =>
      refine ⟨?_, nofun⟩
      by_cases same : j = i
      · subst same
        cases placed.symm.trans ownPlaced
        cases kind.symm.trans ownKind
        exact ready.of_current kept (current_openStream filename placed)
      · exact ready.mono kept (getElem?_modifyAppender_of_ne _ same _)
  | @closed j appender other placed kind shut =>
      refine ⟨?_, nofun⟩
      by_cases same : j = i
      · subst same
        cases placed.symm.trans ownPlaced
        cases kind.symm.trans ownKind
        exact absurd opens shut
      · exact ready.mono kept (getElem?_modifyAppender_of_ne _ same _)
  | notOpen shut =>
      refine ⟨ready.mono kept rfl, ?_⟩
      intro record member
      cases List.mem_singleton.mp member
  | printed placed kind event reported =>
      refine ⟨ready.mono kept rfl, ?_⟩
      rintro record member rfl
      cases List.mem_singleton.mp member
      cases placed.symm.trans ownPlaced
      exact nomatch kind.symm.trans ownKind
  | @wrote j appender other event placed kind early reported =>
      obtain ⟨_, _, untouched⟩ := writeStream_eq reported event j logs
      refine ⟨ready.mono kept (by rw [untouched]), right_writeStream reported event j ?_⟩
      rintro rfl now
      exact ready.current placed early now
  | @timed j appender other event placed kind current reported =>
      obtain ⟨_, _, untouched⟩ := writeStream_eq reported event j
        (logs.modifyAppender j fun appender => { appender with lastTime := event.time })
      by_cases same : j = i
      · subst same
        cases placed.symm.trans ownPlaced
        cases kind.symm.trans ownKind
        have current' : (logs.modifyAppender j fun appender =>
            { appender with lastTime := event.time }).Current j filename :=
          (current opens).modifyAppender fun _ => rfl
        refine ⟨ready.of_current kept ?_, right_writeStream reported event j fun _ _ => current'⟩
        exact current'.mono (writeStream_eq ..).2.1 (by rw [untouched])
      · refine ⟨ready.mono kept ?_, right_writeStream reported event j fun here => absurd here same⟩
        rw [untouched]
        exact getElem?_modifyAppender_of_ne _ same _
  | waits => exact ⟨ready.mono kept rfl, nofun⟩

/-- **What a call does to an appender that is ready.** -/
theorem ready_effects (ready : logs.Ready i filename time) (effects : Effects logs next shown) :
    next.Ready i filename time ∧ Right next i filename time shown := by
  refine @Chain.invariant _ _ Effect _ _ _
    (fun logs shown => logs.Ready i filename time ∧ Right logs i filename time shown) ?_ effects []
    ⟨ready, nofun⟩
  rintro logs next before shown ⟨ready, right⟩ effect
  obtain ⟨ready', right'⟩ := ready_effect ready effect
  refine ⟨ready', fun record member same now => ?_⟩
  rcases List.mem_append.mp member with old | added
  · obtain ⟨file, target, named⟩ := right record old same now
    exact ⟨file, target, effect.keeps.named filename file named⟩
  · exact right' record added same now

/-- **What a step does to an appender that is ready**, when nothing happens to its file. -/
theorem ready_step (ready : logs.Ready i filename time) {label : LogLabel} (calm : Calm filename label)
    {next : Logs × List Entry} (stepped : step logs label = some next) :
    next.1.Ready i filename time := by
  rcases step_cases stepped with ⟨kind, rfl, rfl⟩ | ⟨name, event, rfl, rfl⟩ | ⟨_, still⟩
  · obtain ⟨opens, appender, placed, kind', ready⟩ := ready
    have early : i < logs.appenders.length := (List.getElem?_eq_some_iff.mp placed).1
    have placed' : (logs.appenders ++ [.begin kind])[i]? = some appender :=
      (List.getElem?_append_left early).trans placed
    have begun : (logs.begun kind).Ready i filename time := by
      refine ⟨opens, appender, placed', kind', ready.imp_right ?_⟩
      rintro ⟨found, file, isFound, stream, named⟩
      cases placed.symm.trans isFound
      exact ⟨appender, file, placed', stream, named⟩
    exact (ready_effects begun (new_chain logs kind)).1
  · exact (ready_effects ready (log_chain logs name event)).1
  · obtain ⟨opens, appender, placed, kind, ready⟩ := ready
    obtain ⟨opening, named⟩ := still.calm filename calm
    have same := congrArg (fun entries => entries[i]?) still.appenders
    simp only [List.getElem?_map, placed, Option.map_some] at same
    obtain ⟨appender', placed', triple⟩ := Option.map_eq_some_iff.mp same
    simp only [Prod.mk.injEq] at triple
    obtain ⟨kind', time', stream'⟩ := triple
    refine ⟨opening.trans opens, appender', placed', kind'.trans kind, ?_⟩
    rw [time']
    refine ready.imp_right ?_
    rintro ⟨found, file, isFound, stream, isNamed⟩
    cases placed.symm.trans isFound
    exact ⟨appender', file, placed', stream'.trans stream, named.trans isNamed⟩

/-! ### The times of the appenders -/

/-- The time of an appender is that of an event that it has written. -/
def Timed (logs : Logs) (shown : List Entry) : Prop :=
  ∀ (i : Nat) appender, logs.appenders[i]? = some appender → appender.lastTime = 0 ∨
    ∃ record, .wrote record ∈ shown ∧ record.appender = i ∧ record.event.time = appender.lastTime

theorem Timed.mono (timed : logs.Timed shown) {added : List Entry}
    (times : next.appenders.map Appender.lastTime = logs.appenders.map Appender.lastTime) :
    next.Timed (shown ++ added) := by
  intro i appender placed
  have same := congrArg (fun entries => entries[i]?) times
  simp only [List.getElem?_map, placed, Option.map_some] at same
  obtain ⟨appender', placed', time⟩ := Option.map_eq_some_iff.mp same.symm
  rw [← time]
  refine (timed i appender' placed').imp_right ?_
  rintro ⟨record, member, rest⟩
  exact ⟨record, List.mem_append_left _ member, rest⟩

theorem times_modifyAppender (logs : Logs) (i : Nat) {change : Appender → Appender}
    (same : ∀ appender, (change appender).lastTime = appender.lastTime) :
    (logs.modifyAppender i change).appenders.map Appender.lastTime =
      logs.appenders.map Appender.lastTime := by
  apply List.ext_getElem?
  intro j
  rw [List.getElem?_map, List.getElem?_map, getElem?_modifyAppender]
  cases logs.appenders[j]? with
  | none => rfl
  | some appender =>
      rw [Option.map_some, Option.map_some, Option.map_some]
      split
      · rw [same]
      · rfl

theorem timed_effect (timed : logs.Timed shown) {added : List Entry} (effect : Effect logs next added) :
    next.Timed (shown ++ added) := by
  cases effect with
  | opened => exact timed.mono (times_modifyAppender _ _ fun _ => rfl)
  | closed => exact timed.mono (times_modifyAppender _ _ fun _ => rfl)
  | notOpen => exact timed.mono rfl
  | printed => exact timed.mono rfl
  | wrote => exact timed.mono (by rw [(writeStream_eq ..).2.2])
  | @timed j appender _ event placed _ _ reported =>
      obtain ⟨shows, _, untouched⟩ := writeStream_eq reported event j
        (logs.modifyAppender j fun appender => { appender with lastTime := event.time })
      intro i other placed'
      rw [untouched, getElem?_modifyAppender] at placed'
      obtain ⟨before, isBefore, rfl⟩ := Option.map_eq_some_iff.mp placed'
      by_cases same : j = i
      · rw [if_pos same, shows]
        exact Or.inr ⟨_, List.mem_append_right _ List.mem_cons_self, same, rfl⟩
      · rw [if_neg same]
        refine (timed i before isBefore).imp_right ?_
        rintro ⟨record, member, rest⟩
        exact ⟨record, List.mem_append_left _ member, rest⟩
  | waits => exact timed.mono rfl

theorem timed_step {before : List (List Entry)} (timed : logs.Timed before.flatten) {label : LogLabel}
    {next : Logs × List Entry} (stepped : step logs label = some next) :
    next.1.Timed (before ++ [next.2]).flatten := by
  have run {first : Logs} (timed : first.Timed before.flatten) (effects : Effects first next.1 next.2) :
      next.1.Timed (before.flatten ++ next.2) :=
    @Chain.invariant _ _ Effect _ _ _ (fun logs shown => logs.Timed shown)
      (fun _ _ _ _ timed effect => timed_effect timed effect) effects _ timed
  rw [List.flatten_append, List.flatten_singleton]
  rcases step_cases stepped with ⟨kind, rfl, rfl⟩ | ⟨name, event, rfl, rfl⟩ | ⟨nothing, still⟩
  · refine run (fun i appender placed => ?_) (new_chain logs kind)
    by_cases early : i < logs.appenders.length
    · exact timed i appender ((List.getElem?_append_left early).symm.trans placed)
    · have last := (List.getElem?_append_right (Nat.le_of_not_lt early)).symm.trans placed
      obtain ⟨_, same⟩ := Option.ite_none_right_eq_some.mp (List.getElem?_singleton.symm.trans last)
      exact Or.inl (Option.some.inj same ▸ rfl)
  · exact run timed (log_chain logs name event)
  · refine timed.mono ?_
    have times := congrArg (List.map fun entry => entry.2.1) still.appenders
    rwa [List.map_map, List.map_map] at times

/-! ### Runs -/

/-- **An appender comes back to its file.** Let a file have been rotated, or made possible to open again,
and be left alone since: an event that is at least three seconds younger than all that the appender wrote
before then goes to the file that has the name. -/
theorem log_recovers {disk : Disk} {before calm : List LogLabel} {middle here final : Logs}
    {front back : List (List Entry)} {i : Nat} {appender : Appender} {filename name : String}
    {event : LogEvent} {shown : List Entry}
    (started : trace step (start disk) before = some (middle, front))
    (went : trace step middle calm = some (here, back))
    (logged : step here (.log name event) = some (final, shown))
    (isCalm : ∀ label ∈ calm, Calm filename label)
    (placed : middle.appenders[i]? = some appender) (kind : appender.kind = .file filename)
    (opens : middle.disk.opening filename = .opens)
    (since : ∀ record, .wrote record ∈ front.flatten → record.appender = i →
      record.event.time.toNat + 3 ≤ event.time.toNat)
    (late : 3 ≤ event.time.toNat) :
    ∀ record, .wrote record ∈ shown → record.appender = i → record.event = event →
      ∃ file, record.target = .file file ∧ final.disk.named filename = some file := by
  have timed : middle.Timed front.flatten := by
    have empty : (start disk).Timed ([] : List (List Entry)).flatten := by
      intro i appender placed
      unfold start at placed
      rw [List.getElem?_nil] at placed
      cases placed
    refine @trace_history _ _ _ step (fun logs outputs => logs.Timed outputs.flatten) ?_ before _ _ []
      front empty started
    exact fun logs outputs label next timed stepped => timed_step timed stepped
  have ready : middle.Ready i filename event.time.toNat := by
    refine ⟨opens, appender, placed, kind, Or.inl ?_⟩
    rcases timed i appender placed with zero | ⟨record, member, same, time⟩
    · rw [zero]
      exact late
    · exact time ▸ since record member same
  have ready' : here.Ready i filename event.time.toNat := by
    refine @trace_invariant _ _ _ step (fun _ label => Calm filename label)
      (fun logs => logs.Ready i filename event.time.toNat) ?_ calm _ _ _ ready
      (meets_of_mem calm middle isCalm) went
    exact fun logs label next ready calm stepped => ready_step ready calm stepped
  intro record member same own
  have called : here.log name event = (final, shown) := by
    rcases step_cases logged with ⟨kind, isMake, _⟩ | ⟨_, _, isLog, result⟩ | ⟨nothing, _⟩
    · cases isMake
    · cases isLog
      exact result.symm
    · cases nothing
      cases member
  have right := (ready_effects ready' (log_chain here name event)).2
  rw [called] at right
  exact right record member same (congrArg (fun event => event.time.toNat) own)

/-- The file of an appender is renamed, and an event comes too early to see it. -/
theorem log_recovers_rotated :
    ∃ middle here final : Logs, ∃ front back shown,
      trace step (start blankDisk)
        [.make (.file "log"), .addAppender "root" 0, .log "root" ⟨.info, 10, "first"⟩,
          .rotate "log"] = some (middle, front) ∧
      trace step middle [.log "root" ⟨.info, 12, "early"⟩] = some (here, back) ∧
      step here (.log "root" ⟨.info, 13, "late"⟩) = some (final, shown) ∧
      ∀ record, .wrote record ∈ shown → record.appender = 0 → record.event = ⟨.info, 13, "late"⟩ →
        ∃ file, record.target = .file file ∧ final.disk.named "log" = some file := by
  refine ⟨_, _, _, _, _, _, rfl, rfl, rfl, ?_⟩
  refine @log_recovers blankDisk
    [.make (.file "log"), .addAppender "root" 0, .log "root" ⟨.info, 10, "first"⟩, .rotate "log"]
    [.log "root" ⟨.info, 12, "early"⟩] _ _ _ _ _ 0 ⟨.file "log", .debug, 10, some 0⟩ "log" "root"
    ⟨.info, 13, "late"⟩ _ rfl rfl rfl ?_ rfl rfl rfl ?_ (by decide)
  · exact fun label member => List.mem_singleton.mp member ▸ trivial
  · intro record member _
    cases List.mem_singleton.mp
      (show Entry.wrote record ∈ [.wrote ⟨0, ⟨.info, 10, "first"⟩, .file 0, false⟩] from member)
    decide

end Logs

end Wyze.Log
