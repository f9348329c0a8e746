/-
**Every event is written, once.**

A call of `log` has its event written by the appenders that it goes through, and an error that it reports by
those of `system` or of the root, unless it waits for a lock that it holds itself.

* `written_effect`: what an effect puts on the disk is what it shows.
* `logHolding_accounts`: what a call shows, at either of the two levels of calls.
* `log_accounts`: **the files and the console hold what has been written, in order, and each call has its
  event, and each error that it reports, written once by every appender that is to have it**.
-/
import Wyze.Log.Appending

namespace Wyze.Log

open Labelled

/-- The events that have been written to a file. -/
def eventsFor (file : Nat) (shown : List Entry) : List LogEvent :=
  shown.filterMap fun
    | .wrote record => if record.target = .file file then some record.event else none
    | .notOpen _ _ => none

/-- The lines that have been printed. -/
def linesOf (shown : List Entry) : List Line :=
  shown.filterMap fun
    | .wrote record => if record.target = .console then some (.event record.event) else none
    | .notOpen filename _ => some (.notOpen filename)

/-- Which appenders have written what, of the events of the calls or of the errors reported in them. -/
def wroteAs (reported : Bool) (shown : List Entry) : List (Nat × LogEvent) :=
  shown.filterMap fun
    | .wrote record =>
      if record.reported = reported then some (record.appender, record.event) else none
    | .notOpen _ _ => none

/-- What is shown for an error that is reported. -/
def Entry.isReported : Entry → Bool
  | .wrote record => record.reported
  | .notOpen _ reported => reported

theorem eventsFor_append (file : Nat) (first second : List Entry) :
    eventsFor file (first ++ second) = eventsFor file first ++ eventsFor file second :=
  List.filterMap_append

theorem linesOf_append (first second : List Entry) :
    linesOf (first ++ second) = linesOf first ++ linesOf second :=
  List.filterMap_append

theorem wroteAs_append (reported : Bool) (first second : List Entry) :
    wroteAs reported (first ++ second) = wroteAs reported first ++ wroteAs reported second :=
  List.filterMap_append

theorem eventsFor_wrote (file : Nat) (record : Record) :
    eventsFor file [.wrote record] = if record.target = .file file then [record.event] else [] := by
  unfold eventsFor
  by_cases same : record.target = .file file
  · rw [if_pos same]
    exact List.filterMap_cons_some (if_pos same)
  · rw [if_neg same]
    exact List.filterMap_cons_none (if_neg same)

theorem wroteAs_wrote (record : Record) :
    wroteAs record.reported [.wrote record] = [(record.appender, record.event)] :=
  List.filterMap_cons_some (if_pos rfl)

namespace Logs

/-! ### What is on the disk -/

/-- The disk holds what has been written to it, behind what has been there. -/
structure Written (disk : Disk) (logs : Logs) (shown : List Entry) : Prop where
  files : ∀ file, logs.disk.written file = disk.written file ++ eventsFor file shown
  console : logs.disk.console = disk.console ++ linesOf shown

variable {disk : Disk} {logs next : Logs} {shown added : List Entry}

/-- Something is added to the files and to the console, and shown. -/
theorem Written.add (written : Written disk logs shown)
    (files : ∀ file, next.disk.written file = logs.disk.written file ++ eventsFor file added)
    (console : next.disk.console = logs.disk.console ++ linesOf added) :
    Written disk next (shown ++ added) := by
  refine ⟨fun file => ?_, ?_⟩
  · rw [files, written.files, eventsFor_append, List.append_assoc]
  · rw [console, written.console, linesOf_append, List.append_assoc]

theorem Written.same (written : Written disk logs shown) (files : next.disk.written = logs.disk.written)
    (console : next.disk.console = logs.disk.console) : Written disk next (shown ++ []) :=
  written.add (fun file => (congrFun files file).trans (List.append_nil _).symm)
    (console.trans (List.append_nil _).symm)

theorem written_writeStream (reported : Bool) (event : LogEvent) (i : Nat)
    (written : Written disk logs shown) :
    Written disk (logs.writeStream reported event i).1
      (shown ++ (logs.writeStream reported event i).2) := by
  unfold writeStream
  cases logs.appenders[i]?.bind Appender.stream with
  | none => exact written.add (fun file => (List.append_nil _).symm) (List.append_nil _).symm
  | some number =>
      refine written.add (fun file => ?_) (List.append_nil _).symm
      show Function.update logs.disk.written number (logs.disk.written number ++ [event]) file =
        logs.disk.written file ++ eventsFor file [.wrote ⟨i, event, .file number, reported⟩]
      rw [eventsFor_wrote]
      by_cases here : number = file
      · subst here
        rw [Function.update_self, if_pos rfl]
      · rw [Function.update_of_ne (Ne.symm here), if_neg fun same => here (Target.file.inj same),
          List.append_nil]

/-- **What an effect puts on the disk** is what it shows. -/
theorem written_effect (written : Written disk logs shown) (effect : Effect logs next added) :
    Written disk next (shown ++ added) := by
  cases effect with
  | @opened i _ filename =>
      have same : (logs.disk.openFile filename).2.written = logs.disk.written ∧
          (logs.disk.openFile filename).2.console = logs.disk.console := by
        unfold Disk.openFile
        cases logs.disk.named filename <;> exact ⟨rfl, rfl⟩
      exact written.same same.1 same.2
  | closed => exact written.same rfl rfl
  | notOpen => exact written.add (fun file => (List.append_nil _).symm) rfl
  | printed => exact written.add (fun file => (List.append_nil _).symm) rfl
  | wrote => exact written_writeStream _ _ _ written
  | timed => exact written_writeStream _ _ _ ⟨written.files, written.console⟩
  | waits => exact written.same rfl rfl

theorem written_step {before : List (List Entry)} (written : Written disk logs before.flatten)
    {label : LogLabel} {next : Logs × List Entry} (stepped : step logs label = some next) :
    Written disk next.1 (before ++ [next.2]).flatten := by
  have run {first : Logs} (written : Written disk first before.flatten)
      (effects : Effects first next.1 next.2) : Written disk next.1 (before.flatten ++ next.2) :=
    @Chain.invariant _ _ Effect _ _ _ (Written disk)
      (fun _ _ _ _ written effect => written_effect written effect) effects _ written
  rw [List.flatten_append, List.flatten_singleton]
  rcases step_cases stepped with ⟨kind, rfl, rfl⟩ | ⟨name, event, rfl, rfl⟩ | ⟨nothing, still⟩
  · have begun : Written disk (logs.begun kind) before.flatten := ⟨written.files, written.console⟩
    exact run begun (new_chain logs kind)
  · exact run written (log_chain logs name event)
  · rw [nothing]
    exact written.same still.written still.console

/-! ### What a call is to have written -/

/-- The appenders that a call of `log` goes through. -/
def targets (logs : Logs) (name : String) (event : LogEvent) : List Nat :=
  match logs.through name event with
  | none => []
  | some logger => (logs.loggers logger).appenders

/-- The appenders that let the event pass. -/
def passing (logs : Logs) (event : LogEvent) (i : Nat) : Bool :=
  logs.appenders[i]?.any fun appender => !decide (event.level.value < appender.level.value)

/-- Which appenders are to write the event of a call. -/
def wanted (logs : Logs) (name : String) (event : LogEvent) : List (Nat × LogEvent) :=
  ((logs.targets name event).filter (logs.passing event)).map (·, event)

/-- The errors that a call has reported: one for each file whose directory it could not make. -/
def failures (logs : Logs) (shown : List Entry) : List LogEvent :=
  shown.filterMap fun
    | .wrote _ => none
    | .notOpen filename reported =>
      if reported then none
      else
        match logs.disk.opening filename with
        | .noDirectory errno errstr => some (mkdirError filename errno errstr logs.disk.now)
        | _ => none

theorem failures_append (logs : Logs) (first second : List Entry) :
    logs.failures (first ++ second) = logs.failures first ++ logs.failures second :=
  List.filterMap_append

theorem passing_of_keeps (kept : logs.Keeps next) (event : LogEvent) :
    next.passing event = logs.passing event := by
  funext i
  unfold passing
  have same := congrArg (fun entries => entries[i]?) kept.appenders
  simp only [List.getElem?_map] at same
  cases placed : logs.appenders[i]? with
  | none =>
      rw [placed, Option.map_none, Option.map_eq_none_iff] at same
      rw [same]
  | some appender =>
      obtain ⟨appender', placed', _, level⟩ := kept.placed placed
      rw [placed', Option.any_some, Option.any_some, level]

/-- **What a call has shown** of what it is to have written: it has written the first part of it, or all
of it when it returns; and then every error it has reported has been written too. -/
structure Accounts (logs : Logs) (reported : Bool) (wanted : List (Nat × LogEvent)) (next : Logs)
    (shown : List Entry) : Prop where
  wrote : wroteAs reported shown <+: wanted
  all : next.waiting = false → wroteAs reported shown = wanted
  reports : reported = false → next.waiting = false →
    wroteAs true shown = (logs.failures shown).flatMap (logs.wanted "system")

/-- A report shows nothing for the event of the call in which it is made, and if it returns it has been
written. -/
structure Reports (logs : Logs) (reported : Bool) (locked : List String)
    (report : Held → LogEvent → Logs → Logs × List Entry) : Prop where
  silent : ∀ held event reached, logs.Keeps reached → held.loggers = locked → event.level = .error →
    wroteAs reported (report held event reached).2 = []
  fails : reported = false → ∀ held event reached, logs.failures (report held event reached).2 = []
  returns : reported = false → ∀ held event reached, logs.Keeps reached → held.loggers = locked →
    event.level = .error → (report held event reached).1.waiting = false →
    wroteAs true (report held event reached).2 = logs.wanted "system" event

theorem accounts_nil (logs : Logs) (reported : Bool) (next : Logs) :
    Accounts logs reported [] next [] :=
  ⟨List.prefix_rfl, fun _ => rfl, fun _ _ => rfl⟩

/-- A call that waits before it has written anything. -/
theorem accounts_waits (logs : Logs) (reported : Bool) (wanted : List (Nat × LogEvent)) (next : Logs) :
    Accounts logs reported wanted next.wait [] :=
  ⟨List.nil_prefix, fun goes => Bool.noConfusion goes, fun _ goes => Bool.noConfusion goes⟩

theorem andThen_accounts {reported : Bool} {first second : List (Nat × LogEvent)}
    {done : Logs × List Entry} {next : Logs → Logs × List Entry}
    (front : Accounts logs reported first done.1 done.2)
    (back : Accounts logs reported second (next done.1).1 (next done.1).2) :
    Accounts logs reported (first ++ second) (andThen done next).1 (andThen done next).2 := by
  unfold andThen
  by_cases waits : done.1.waiting = true
  · rw [if_pos waits]
    exact ⟨front.wrote.trans (List.prefix_append _ _), fun goes => absurd (goes.symm.trans waits) nofun,
      fun _ goes => absurd (goes.symm.trans waits) nofun⟩
  · have goes : done.1.waiting = false := Bool.eq_false_iff.mpr waits
    rw [if_neg waits]
    refine ⟨?_, fun returns => ?_, fun own returns => ?_⟩
    · rw [wroteAs_append, front.all goes]
      exact (List.prefix_append_right_inj _).mpr back.wrote
    · rw [wroteAs_append, front.all goes, back.all returns]
    · rw [wroteAs_append, failures_append, List.flatMap_append, front.reports own goes,
        back.reports own returns]

section Calls

variable {report : Held → LogEvent → Logs → Logs × List Entry} {held : Held} {reported : Bool}
  (reports : Reports logs reported held.loggers report)
  (chains : ∀ held event logs, Effects logs (report held event logs).1 (report held event logs).2)
  {reached : Logs} (kept : logs.Keeps reached)

include reports kept

/-- An attempt that does not open the file shows the error that it reports, if it does. -/
theorem reopen_reports (i : Nat) {filename : String} (shut : reached.disk.opening filename ≠ .opens) :
    wroteAs reported (reached.reopen report held i filename).2 = [] ∧ (reported = false →
      logs.failures (reached.reopen report held i filename).2 = [] ∧
      ((reached.reopen report held i filename).1.waiting = false →
        wroteAs true (reached.reopen report held i filename).2 =
          (logs.failures [.notOpen filename false]).flatMap (logs.wanted "system"))) := by
  have failure : logs.failures [.notOpen filename false] =
      match reached.disk.opening filename with
      | .noDirectory errno errstr => [mkdirError filename errno errstr reached.disk.now]
      | _ => [] := by
    unfold failures
    rw [kept.opening, kept.now]
    cases opening : logs.disk.opening filename with
    | opens => exact List.filterMap_cons_none (by simp only [opening]; rfl)
    | refused => exact List.filterMap_cons_none (by simp only [opening]; rfl)
    | noDirectory errno errstr => exact List.filterMap_cons_some (by simp only [opening]; rfl)
  rw [failure]
  unfold reopen
  cases opening : reached.disk.opening filename with
  | opens => exact absurd opening shut
  | refused => exact ⟨rfl, fun _ => ⟨rfl, fun _ => rfl⟩⟩
  | noDirectory errno errstr =>
      have closed : logs.Keeps (reached.closeStream i) :=
        kept.trans (keeps_modifyAppender _ _ (fun _ => rfl) fun _ => rfl)
      refine ⟨reports.silent _ _ _ closed rfl rfl, fun own => ⟨reports.fails own _ _ _, fun goes => ?_⟩⟩
      have written := reports.returns own { held with appenders := i :: held.appenders }
        (mkdirError filename errno errstr reached.disk.now) _ closed rfl rfl goes
      exact written.trans (List.append_nil _).symm

theorem tryReopen_accounts (i : Nat) (filename : String) :
    Accounts logs reported [] (reached.tryReopen report held reported i filename).1
      (reached.tryReopen report held reported i filename).2 := by
  by_cases shut : reached.disk.opening filename = .opens
  · rw [tryReopen_of_opens _ _ _ _ shut]
    exact accounts_nil ..
  · obtain ⟨silent, errors⟩ := reopen_reports reports kept i shut
    rw [tryReopen_of_shut _ _ _ _ shut]
    unfold andThen
    by_cases waits : (reached.reopen report held i filename).1.waiting = true
    · rw [if_pos waits]
      exact ⟨silent ▸ List.nil_prefix, fun _ => silent,
        fun _ goes => absurd (goes.symm.trans waits) nofun⟩
    · rw [if_neg waits]
      have own : wroteAs reported ((reached.reopen report held i filename).2 ++
          [.notOpen filename reported]) = [] := by
        rw [wroteAs_append, silent]
        rfl
      refine ⟨own ▸ List.nil_prefix, fun _ => own, ?_⟩
      rintro rfl _
      obtain ⟨none, written⟩ := errors rfl
      show wroteAs true (_ ++ [.notOpen filename false]) =
        (logs.failures (_ ++ [.notOpen filename false])).flatMap _
      rw [wroteAs_append, failures_append, none, List.nil_append,
        written (Bool.eq_false_iff.mpr waits)]
      exact List.append_nil _

theorem logFile_accounts (event : LogEvent) (i : Nat) (appender : Appender) (filename : String) :
    Accounts logs reported [(i, event)]
      (reached.logFile report held reported event i appender filename).1
      (reached.logFile report held reported event i appender filename).2 := by
  have writes (next : Logs) : Accounts logs reported [(i, event)]
      (next.writeStream reported event i).1 (next.writeStream reported event i).2 := by
    rw [(writeStream_eq ..).1]
    have own : wroteAs reported [.wrote ⟨i, event, next.target i, reported⟩] = [(i, event)] :=
      wroteAs_wrote ⟨i, event, next.target i, reported⟩
    refine ⟨own ▸ List.prefix_rfl, fun _ => own, ?_⟩
    rintro rfl _
    rfl
  unfold logFile
  split_ifs
  · exact andThen_accounts (tryReopen_accounts reports kept i filename) (writes _)
  · exact writes _

theorem logOne_accounts (event : LogEvent) (i : Nat) :
    Accounts logs reported (if logs.passing event i then [(i, event)] else [])
      (reached.logOne report held reported event i).1
      (reached.logOne report held reported event i).2 := by
  rw [← passing_of_keeps kept]
  unfold logOne passing
  cases reached.appenders[i]? with
  | none => exact accounts_nil ..
  | some appender =>
      dsimp only
      rw [Option.any_some]
      by_cases low : event.level.value < appender.level.value
      · rw [if_pos low, decide_eq_true low]
        exact accounts_nil ..
      · rw [if_neg low, decide_eq_false low, Bool.not_false, if_pos rfl]
        split_ifs
        · exact accounts_waits ..
        · cases appender.kind with
          | file filename => exact logFile_accounts reports kept event i appender filename
          | stdout =>
              have own : wroteAs reported [.wrote ⟨i, event, .console, reported⟩] = [(i, event)] :=
                wroteAs_wrote ⟨i, event, .console, reported⟩
              refine ⟨own ▸ List.prefix_rfl, fun _ => own, ?_⟩
              rintro rfl _
              rfl

omit kept

include chains

theorem logAll_accounts (event : LogEvent) (ids : List Nat) : ∀ {reached : Logs},
    logs.Keeps reached → Accounts logs reported ((ids.filter (logs.passing event)).map (·, event))
      (logAll report held reported event ids reached).1
      (logAll report held reported event ids reached).2 := by
  induction ids with
  | nil => exact fun _ => accounts_nil ..
  | cons i ids ih =>
      intro reached kept
      have split : ((i :: ids).filter (logs.passing event)).map (·, event) =
          (if logs.passing event i then [(i, event)] else []) ++
            (ids.filter (logs.passing event)).map (·, event) := by
        rw [List.filter_cons]
        split <;> rfl
      rw [split]
      have later := kept.trans (logOne_chain chains held reported event i).keeps
      exact andThen_accounts (logOne_accounts reports kept event i) (ih later)

end Calls

/-- **What a call of `log` shows**, when the reports in it are as they should be. -/
theorem logHolding_accounts {report : Held → LogEvent → Logs → Logs × List Entry} {held : Held}
    {reported : Bool} {name : String} {event : LogEvent} {reached : Logs}
    (reports : ∀ logger, logs.through name event = some logger →
      Reports logs reported (logger :: held.loggers) report)
    (chains : ∀ held event logs, Effects logs (report held event logs).1 (report held event logs).2)
    (kept : logs.Keeps reached) :
    Accounts logs reported (logs.wanted name event)
      (reached.logHolding report held reported event name).1
      (reached.logHolding report held reported event name).2 := by
  unfold logHolding wanted targets
  rw [through_congr name kept.loggers rfl]
  cases through : logs.through name event with
  | none => exact accounts_nil ..
  | some logger =>
      dsimp only
      rw [kept.loggers]
      split_ifs
      · exact accounts_waits ..
      · exact logAll_accounts
          (show Reports logs reported (Held.mk (logger :: held.loggers) held.appenders).loggers report from
            reports logger through) chains event _ kept

/-! ### Reports -/

theorem forall_andThen {holds : Entry → Prop} {done : Logs × List Entry}
    {next : Logs → Logs × List Entry} (front : ∀ entry ∈ done.2, holds entry)
    (back : ∀ entry ∈ (next done.1).2, holds entry) : ∀ entry ∈ (andThen done next).2, holds entry := by
  unfold andThen
  split_ifs
  · exact front
  · exact List.forall_mem_append.mpr ⟨front, back⟩

section Reported

variable {report : Held → LogEvent → Logs → Logs × List Entry}
  (reports : ∀ held event logs, ∀ entry ∈ (report held event logs).2, entry.isReported = true)
  (held : Held) (event : LogEvent)

include reports

theorem reported_tryReopen (i : Nat) (filename : String) (logs : Logs) :
    ∀ entry ∈ (logs.tryReopen report held true i filename).2, entry.isReported = true := by
  refine forall_andThen ?_ ?_
  · unfold reopen
    split
    · exact List.forall_mem_nil _
    · exact List.forall_mem_nil _
    · exact reports _ _ _
  · split_ifs
    · exact List.forall_mem_nil _
    · exact List.forall_mem_singleton.mpr rfl

theorem reported_logOne (i : Nat) (logs : Logs) :
    ∀ entry ∈ (logs.logOne report held true event i).2, entry.isReported = true := by
  have writes (next : Logs) : ∀ entry ∈ (next.writeStream true event i).2,
      entry.isReported = true := by
    rw [(writeStream_eq ..).1]
    exact List.forall_mem_singleton.mpr rfl
  unfold logOne
  cases logs.appenders[i]? with
  | none => exact List.forall_mem_nil _
  | some appender =>
      dsimp only
      split_ifs
      · exact List.forall_mem_nil _
      · exact List.forall_mem_nil _
      · cases appender.kind with
        | stdout => exact List.forall_mem_singleton.mpr rfl
        | file filename =>
            dsimp only
            unfold logFile
            split_ifs
            · exact forall_andThen (reported_tryReopen reports held i filename logs) (writes _)
            · exact writes logs

theorem reported_logAll (ids : List Nat) : ∀ logs : Logs,
    ∀ entry ∈ (logAll report held true event ids logs).2, entry.isReported = true := by
  induction ids with
  | nil => exact fun _ => List.forall_mem_nil _
  | cons i ids ih =>
      exact fun logs => forall_andThen (reported_logOne reports held event i logs) (ih _)

theorem reported_logHolding (name : String) (logs : Logs) :
    ∀ entry ∈ (logs.logHolding report held true event name).2, entry.isReported = true := by
  unfold logHolding
  cases logs.through name event with
  | none => exact List.forall_mem_nil _
  | some logger =>
      dsimp only
      split_ifs
      · exact List.forall_mem_nil _
      · exact reported_logAll reports _ event _ logs

end Reported

theorem reported_report (depth : Nat) : ∀ held event logs,
    ∀ entry ∈ (report depth held event logs).2, entry.isReported = true := by
  induction depth with
  | zero => exact fun _ _ _ => List.forall_mem_nil _
  | succ depth ih =>
      exact fun held event logs => reported_logHolding ih held event "system" logs

/-- A report shows nothing for the event of the call in which it is made. -/
theorem wroteAs_of_reported (reported : ∀ entry ∈ shown, entry.isReported = true) :
    wroteAs false shown = [] := by
  refine List.filterMap_eq_nil_iff.mpr fun entry member => ?_
  have here := reported entry member
  cases entry with
  | notOpen => rfl
  | wrote record => exact if_neg fun own => nomatch own.symm.trans here

theorem failures_of_reported (logs : Logs) (reported : ∀ entry ∈ shown, entry.isReported = true) :
    logs.failures shown = [] := by
  refine List.filterMap_eq_nil_iff.mpr fun entry member => ?_
  have here := reported entry member
  cases entry with
  | wrote => rfl
  | notOpen => exact if_pos here

/-- **What a report shows**: an error that would be reported in it waits. -/
theorem report_accounts {held : Held} {event : LogEvent} {reached : Logs} (level : event.level = .error)
    (kept : logs.Keeps reached) :
    Accounts logs true (logs.wanted "system" event) (report 2 held event reached).1
      (report 2 held event reached).2 := by
  refine logHolding_accounts (fun logger through => ?_) (report_chain 1) kept
  refine ⟨fun held' error reached kept locked isError => ?_, nofun, nofun⟩
  have through' : reached.through "system" error = some logger :=
    (through_congr "system" kept.loggers (isError.trans level.symm)).trans through
  rw [report_locked 0 through' (by rw [locked]; exact List.mem_cons_self)]
  rfl

/-- The reports that a call of the program makes. -/
theorem report_reports (logs : Logs) (locked : List String) : Reports logs false locked (report 2) where
  silent held event reached _ _ _ := wroteAs_of_reported (reported_report 2 held event reached)
  fails _ held event reached := failures_of_reported logs (reported_report 2 held event reached)
  returns _ _ _ _ kept _ level goes := (report_accounts level kept).all goes

/-! ### Runs -/

/-- What a step has shown: a call of `log` its event, and both this and a constructor the errors that it
reports. -/
def Accounted (logs : Logs) (label : LogLabel) (next : Logs) (shown : List Entry) : Prop :=
  match label with
  | .log name event => Accounts logs false (logs.wanted name event) next shown
  | .make kind => Accounts (logs.begun kind) false [] next shown
  | _ => shown = []

/-- **What a step has shown.** -/
theorem accounted_step {label : LogLabel} {next : Logs × List Entry}
    (stepped : step logs label = some next) : Accounted logs label next.1 next.2 := by
  obtain ⟨_, called⟩ := Option.ite_none_left_eq_some.mp stepped
  cases label with
  | make kind =>
      cases called
      cases kind with
      | stdout => exact accounts_nil ..
      | file filename => exact tryReopen_accounts (report_reports _ noLocks.loggers) (.refl _) _ filename
  | log name event =>
      cases called
      exact logHolding_accounts (fun logger _ => report_reports logs _) (report_chain 2) (.refl logs)
  | _ =>
      rcases step_cases stepped with ⟨_, isMake, _⟩ | ⟨_, _, isLog, _⟩ | ⟨nothing, _⟩
      · cases isMake
      · cases isLog
      · exact nothing

/-- **Every event is where it was written, once for each appender.** A file and the console hold what has
been written and printed to them, in order. A call has its event written by the appenders that it goes
through and that let it pass, and for every file whose directory it cannot make it has the error written
by those of `system` or of the root; a call that waits has written the first part of this. -/
theorem log_accounts {disk : Disk} {labels : List LogLabel} {final : Logs} {outputs : List (List Entry)}
    (executed : trace step (start disk) labels = some (final, outputs)) :
    Written disk final outputs.flatten ∧
      ∀ position label, labels[position]? = some label →
        ∃ reached front next shown,
          trace step (start disk) (labels.take position) = some (reached, front) ∧
          step reached label = some (next, shown) ∧ outputs[position]? = some shown ∧
          Accounted reached label next shown := by
  constructor
  · have empty : Written disk (start disk) ([] : List (List Entry)).flatten := by
      refine ⟨fun file => ?_, ?_⟩ <;> exact (List.append_nil _).symm
    refine @trace_history _ _ _ step (fun logs outputs => Written disk logs outputs.flatten) ?_ labels
      _ _ [] outputs empty executed
    exact fun logs before label next written stepped => written_step written stepped
  · intro position label placed
    obtain ⟨front, reached, next, taken, _, stepped, shown, _⟩ := @holds_at _ _ _ step (fun _ => True)
      (fun _ => True) (fun _ _ _ _ _ _ => trivial) labels _ _ _ position _ trivial executed placed
      (fun _ _ _ _ => trivial)
    exact ⟨reached, front, next.1, next.2, taken, stepped, shown, accounted_step stepped⟩

/-- A disk on which no directory can be made for one name. -/
def diskWithout (filename : String) : Disk :=
  { blankDisk with
    opening := fun other => if other = filename then .noDirectory 13 "Permission denied" else .opens }

/-- Two loggers: one has an appender of its own, whose directory cannot be made; the other leaves its
events to the root. -/
theorem log_accounts_root :
    ∃ final outputs,
      trace step (start (diskWithout "no/log"))
        [.make .stdout, .addAppender "root" 0, .make (.file "no/log"), .addAppender "own" 1,
          .log "own" ⟨.info, 10, "here"⟩, .log "other" ⟨.info, 11, "there"⟩] =
          some (final, outputs) ∧
      Written (diskWithout "no/log") final outputs.flatten :=
  ⟨_, _, rfl, (@log_accounts (diskWithout "no/log") [.make .stdout, .addAppender "root" 0,
    .make (.file "no/log"), .addAppender "own" 1, .log "own" ⟨.info, 10, "here"⟩,
    .log "other" ⟨.info, 11, "there"⟩] _ _ rfl).1⟩

/-- An appender of the root whose directory cannot be made: the report goes to the root, which is locked. -/
example : (trace step (start (diskWithout "no/log"))
    [.make (.file "no/log"), .addAppender "root" 0, .log "root" ⟨.info, 10, "here"⟩]).map
      (fun result => result.1.waiting) = some true := rfl

end Logs

end Wyze.Log
