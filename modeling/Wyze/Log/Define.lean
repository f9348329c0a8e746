/-
**The listener of `g_log_defines`.**

The configuration of the loggers is a set of definitions, ordered by name. When it changes, `LogIniter`
goes over the new set and configures the loggers that are new or have changed, and then over the old
one and clears those that are gone. For an entry that is in both sets it has no logger and uses the null
pointer all the same.

`changes_complete_iff`: over any sequence of values, every change leaves the loggers as the new set says
exactly when no change keeps an entry as it was and every appender has a type that is known.
-/
import Mathlib.Data.List.Forall2
import Mathlib.Data.String.Basic
import Wyze.Lib.KeyedFold
import Wyze.Lib.OrderedSet
import Wyze.Lib.Run
import Wyze.Log.Logger

namespace Wyze.Log

open Labelled OrderedSet

structure LogAppenderDefine where
  /-- 1 is a file, 2 is stdout. -/
  type : Int
  level : LogLevel
  formatter : String
  file : String
  deriving DecidableEq, Repr

structure LogDefine where
  name : String
  level : LogLevel
  formatter : String
  appenders : List LogAppenderDefine
  deriving DecidableEq, Repr

/-- `std::set<LogDefine>`, in the order of `operator<`. -/
structure DefineSet where
  entries : List LogDefine
  ordered : Ordered LogDefine.name entries
  deriving DecidableEq

namespace DefineSet

def empty : DefineSet := ⟨[], List.Pairwise.nil⟩

/-- `find(i)`: the entry with the name of `i`. -/
def find (defines : DefineSet) (i : LogDefine) : Option LogDefine :=
  OrderedSet.find LogDefine.name i.name defines.entries

theorem find_eq_some {defines : DefineSet} {i found : LogDefine} :
    defines.find i = some found ↔ found ∈ defines.entries ∧ found.name = i.name :=
  OrderedSet.find_eq_some defines.ordered

theorem find_eq_none {defines : DefineSet} {i : LogDefine} :
    defines.find i = none ↔ i.name ∉ defines.entries.map LogDefine.name := by
  rw [Option.eq_none_iff_forall_ne_some, List.mem_map]
  constructor
  · rintro absent ⟨found, mem, same⟩
    exact absent found (find_eq_some.mpr ⟨mem, same⟩)
  · intro absent found hit
    exact absent ⟨found, find_eq_some.mp hit⟩

theorem names_nodup (defines : DefineSet) : (defines.entries.map LogDefine.name).Nodup := by
  rw [List.Nodup, List.pairwise_map]
  exact defines.ordered.imp fun smaller => ne_of_lt smaller

end DefineSet

/-! ### The listener -/

/-- `ap.reset(new …)`: a type that is neither leaves the pointer null. -/
def newAppender (a : LogAppenderDefine) : Option LogAppender :=
  if a.type = 1 then some (LogAppender.new (.file a.file))
  else if a.type = 2 then some (LogAppender.new .stdout)
  else none

/-- The body of the loop over `i.appenders` up to `addAppender`; `none` where it uses a null pointer. -/
def appenderOf (a : LogAppenderDefine) : Option LogAppender :=
  (newAppender a).map fun ap =>
    let ap := ap.setLevel a.level
    if a.formatter ≠ "" then
      let fmt := LogFormatter.new a.formatter
      if !fmt.isError then ap.setFormatter (some fmt) else ap
    else ap

/-- What the listener does with the logger of a new or changed definition. -/
def configure (i : LogDefine) (logger : Logger) : Option Logger :=
  let logger := logger.setLevel i.level
  let logger := if i.formatter ≠ "" then logger.setPattern i.formatter else logger
  let logger := logger.clearAppenders
  i.appenders.foldlM (fun logger a => (appenderOf a).map logger.addAppender) logger

/-- One turn of the loop over `new_value`; `none` where it uses a null pointer. -/
def applyDefine (oldValue : DefineSet) (manager : LoggerManager) (i : LogDefine) :
    Option LoggerManager :=
  -- `logger` names the entry of `m_loggers` it points to
  let logger : Option String :=
    match oldValue.find i with
    | none => some i.name
    | some it => if i ≠ it then some i.name else none
  logger.bind fun name =>
    let manager := manager.getLogger name
    ((manager.find name).bind (configure i)).map fun logger => manager.modify name fun _ => logger

/-- One turn of the loop over `old_value`. -/
def removeDefine (newValue : DefineSet) (manager : LoggerManager) (i : LogDefine) :
    Option LoggerManager :=
  match newValue.find i with
  | none =>
    some ((manager.getLogger i.name).modify i.name fun logger =>
      (logger.setLevel .unknow).clearAppenders)
  | some _ => some manager

/-- The listener: the manager it leaves, `none` where it uses a null pointer. -/
def onChange (oldValue newValue : DefineSet) (manager : LoggerManager) : Option LoggerManager :=
  (newValue.entries.foldlM (applyDefine oldValue) manager).bind fun manager =>
    oldValue.entries.foldlM (removeDefine newValue) manager

/-! ### What a definition asks for -/

/-- The formatter of its own that an appender is given: none when its pattern has an error. -/
def ownFormatter (a : LogAppenderDefine) : Option LogFormatter :=
  if a.formatter ≠ "" ∧ (LogFormatter.new a.formatter).isError = false then
    some (LogFormatter.new a.formatter)
  else none

/-- **An appender is as its definition says**, in a logger with this formatter. -/
structure Describes (format : LogFormatter) (a : LogAppenderDefine) (ap : LogAppender) : Prop where
  kind : ap.kind = if a.type = 1 then .file a.file else .stdout
  level : ap.level = a.level
  formatter : ap.formatter = some ((ownFormatter a).getD format)

/-- **A logger is as its definition says**: its level, its formatter when a valid one is given, and one
appender for each entry, in order. -/
structure Configured (i : LogDefine) (logger : Logger) : Prop where
  level : logger.level = i.level
  formatter : i.formatter ≠ "" → (LogFormatter.new i.formatter).isError = false →
    logger.format = LogFormatter.new i.formatter
  appenders : List.Forall₂ (Describes logger.format) i.appenders logger.appenders

/-- The type of the appender is known. -/
def Typed (a : LogAppenderDefine) : Prop := a.type = 1 ∨ a.type = 2

/-- The listener can apply a definition: it is not one of the old ones, and its appenders have types. -/
def Applicable (oldValue : DefineSet) (i : LogDefine) : Prop :=
  i ∉ oldValue.entries ∧ ∀ a ∈ i.appenders, Typed a

instance (a : LogAppenderDefine) : Decidable (Typed a) :=
  inferInstanceAs (Decidable (a.type = 1 ∨ a.type = 2))

instance (oldValue : DefineSet) (i : LogDefine) : Decidable (Applicable oldValue i) :=
  inferInstanceAs (Decidable (i ∉ oldValue.entries ∧ ∀ a ∈ i.appenders, Typed a))

theorem appenderOf_none {a : LogAppenderDefine} (untyped : ¬ Typed a) : appenderOf a = none := by
  unfold Typed at untyped
  rw [not_or] at untyped
  rw [appenderOf, newAppender, if_neg untyped.1, if_neg untyped.2]
  rfl

theorem appenderOf_some {a : LogAppenderDefine} (typed : Typed a) :
    ∃ ap, appenderOf a = some ap ∧ ap.kind = (if a.type = 1 then .file a.file else .stdout) ∧
      ap.level = a.level ∧ ap.formatter = ownFormatter a := by
  have made : newAppender a = some (LogAppender.new (if a.type = 1 then .file a.file else .stdout)) := by
    unfold newAppender
    by_cases file : a.type = 1
    · rw [if_pos file, if_pos file]
    · rw [if_neg file, if_neg file, if_pos (typed.resolve_left file)]
  rw [appenderOf, made]
  refine ⟨_, rfl, ?_⟩
  unfold ownFormatter
  by_cases given : a.formatter ≠ ""
  · cases error : (LogFormatter.new a.formatter).isError with
    | false =>
      simp only [if_pos given, error, Bool.not_false, if_true, and_true]
      exact ⟨rfl, rfl, rfl⟩
    | true =>
      simp only [if_pos given, error, Bool.not_true, Bool.false_eq_true, if_false, Bool.true_eq_false,
        and_false]
      exact ⟨rfl, rfl, rfl⟩
  · simp only [given, false_and, if_false]
    exact ⟨rfl, rfl, rfl⟩

theorem addAppender_describes {format : LogFormatter} {a : LogAppenderDefine} {ap : LogAppender}
    {logger : Logger} (same : logger.format = format)
    (kind : ap.kind = if a.type = 1 then .file a.file else .stdout) (level : ap.level = a.level)
    (formatter : ap.formatter = ownFormatter a) :
    ∃ added, logger.addAppender ap = { logger with appenders := logger.appenders ++ [added] } ∧
      Describes format a added := by
  refine ⟨_, rfl, ?_⟩
  cases own : ownFormatter a with
  | none =>
    rw [own] at formatter
    rw [formatter]
    refine ⟨kind, level, ?_⟩
    rw [own, ← same]
    rfl
  | some val =>
    rw [own] at formatter
    rw [formatter]
    refine ⟨kind, level, ?_⟩
    rw [own]
    exact formatter

/-- The loop over the appenders of a definition. -/
theorem addAppenders_spec (format : LogFormatter) {appenders : List LogAppenderDefine}
    (typed : ∀ a ∈ appenders, Typed a) {logger : Logger} (same : logger.format = format) :
    ∃ added, appenders.foldlM (fun logger a => (appenderOf a).map logger.addAppender) logger =
        some { logger with appenders := logger.appenders ++ added } ∧
      List.Forall₂ (Describes format) appenders added := by
  induction appenders generalizing logger with
  | nil =>
    refine ⟨[], ?_, List.Forall₂.nil⟩
    rw [List.append_nil]
    rfl
  | cons a appenders ih =>
    obtain ⟨ap, made, kind, level, formatter⟩ := appenderOf_some (typed a List.mem_cons_self)
    obtain ⟨first, added, described⟩ := addAppender_describes same kind level formatter
    obtain ⟨others, run, rest⟩ := @ih (fun other mem => typed other (List.mem_cons_of_mem _ mem))
      { logger with appenders := logger.appenders ++ [first] } same
    refine ⟨first :: others, ?_, List.Forall₂.cons described rest⟩
    rw [List.foldlM_cons, made, Option.map_some, added]
    show List.foldlM _ _ appenders = _
    rw [run, List.append_assoc]
    rfl

theorem configure_spec {i : LogDefine} (typed : ∀ a ∈ i.appenders, Typed a) (logger : Logger) :
    ∃ next, configure i logger = some next ∧ Configured i next := by
  obtain ⟨base, baseEq⟩ : ∃ base, (if i.formatter ≠ "" then
      (logger.setLevel i.level).setPattern i.formatter else logger.setLevel i.level) = base :=
    ⟨_, rfl⟩
  have level : base.level = i.level := by
    rw [← baseEq]
    split
    · rw [Logger.setPattern_level]
      rfl
    · rfl
  obtain ⟨added, run, described⟩ := @addAppenders_spec base.format _ typed base.clearAppenders rfl
  refine ⟨{ base with appenders := added }, ?_, ⟨level, ?_, described⟩⟩
  · unfold configure
    dsimp only
    rw [baseEq, run]
    rfl
  · intro given valid
    show base.format = _
    rw [← baseEq, if_pos given, Logger.setPattern_format _ valid]

theorem configure_none {i : LogDefine} (untyped : ¬ ∀ a ∈ i.appenders, Typed a) (logger : Logger) :
    configure i logger = none := by
  rw [not_forall] at untyped
  obtain ⟨a, bad⟩ := untyped
  rw [Classical.not_imp] at bad
  refine KeyedFold.foldlM_eq_none (fun state item bad => ?_) bad.1 bad.2 _
  rw [appenderOf_none bad]
  rfl

/-! ### The two loops -/

/-- **One turn of the first loop**: an applicable definition configures its logger and no other one. -/
theorem applyDefine_spec {oldValue : DefineSet} {i : LogDefine} (applicable : Applicable oldValue i)
    (manager : LoggerManager) :
    ∃ next, applyDefine oldValue manager i = some next ∧
      (∃ logger, next.find i.name = some logger ∧ Configured i logger) ∧
      ∀ other, other ≠ i.name → next.find other = manager.find other := by
  have pointer : (match oldValue.find i with
      | none => some i.name
      | some it => if i ≠ it then some i.name else none) = some i.name := by
    cases found : oldValue.find i with
    | none => rfl
    | some it =>
      have mem := (DefineSet.find_eq_some.mp found).1
      refine if_pos fun same => applicable.1 ?_
      rw [same]
      exact mem
  obtain ⟨logger, run, configured⟩ :=
    configure_spec applicable.2 ((manager.find i.name).getD (Logger.new i.name))
  refine ⟨(manager.getLogger i.name).modify i.name fun _ => logger, ?_, ⟨logger, ?_, configured⟩, ?_⟩
  · unfold applyDefine
    dsimp only
    rw [pointer, Option.bind_some, LoggerManager.find_getLogger, Option.bind_some, run]
    rfl
  · rw [LoggerManager.find_modify, if_pos rfl, LoggerManager.find_getLogger]
    rfl
  · intro other different
    rw [LoggerManager.find_modify, if_neg different.symm,
      LoggerManager.find_getLogger_other _ different.symm]

/-- The definition that is not applicable ends in a null pointer. -/
theorem applyDefine_none {oldValue : DefineSet} {i : LogDefine}
    (inapplicable : ¬ Applicable oldValue i) (manager : LoggerManager) :
    applyDefine oldValue manager i = none := by
  unfold applyDefine
  by_cases old : i ∈ oldValue.entries
  · rw [DefineSet.find_eq_some.mpr ⟨old, rfl⟩]
    simp only [ne_eq, not_true_eq_false, if_false, Option.bind_none]
  · have untyped : ¬ ∀ a ∈ i.appenders, Typed a := fun typed => inapplicable ⟨old, typed⟩
    refine Option.bind_eq_none_iff.mpr fun name _ => ?_
    dsimp only
    rw [Option.map_eq_none_iff, Option.bind_eq_none_iff]
    intro logger _
    exact configure_none untyped logger

/-- A logger that is gone: no appenders and level 0. -/
def Cleared (logger : Logger) : Prop := logger.level = .unknow ∧ logger.appenders = []

/-- **One turn of the second loop** clears a logger that is not in the new set. -/
theorem removeDefine_spec (newValue : DefineSet) (i : LogDefine) (manager : LoggerManager) :
    ∃ next, removeDefine newValue manager i = some next ∧
      (newValue.find i = none → ∃ logger, next.find i.name = some logger ∧ Cleared logger) ∧
      (newValue.find i ≠ none → next.find i.name = manager.find i.name) ∧
      ∀ other, other ≠ i.name → next.find other = manager.find other := by
  unfold removeDefine
  cases newValue.find i with
  | none =>
    refine ⟨_, rfl, fun _ => ?_, fun absurd => (absurd rfl).elim, ?_⟩
    · rw [LoggerManager.find_modify, if_pos rfl, LoggerManager.find_getLogger]
      exact ⟨_, rfl, rfl, rfl⟩
    · intro other different
      rw [LoggerManager.find_modify, if_neg different.symm,
        LoggerManager.find_getLogger_other _ different.symm]
  | some it => exact ⟨manager, rfl, nofun, fun _ => rfl, fun _ _ => rfl⟩

/-- The second loop leaves the loggers of the new set alone. -/
theorem removeDefines_keep (newValue : DefineSet) (items : List LogDefine)
    {manager final : LoggerManager}
    (run : items.foldlM (removeDefine newValue) manager = some final) {name : String}
    (named : name ∈ newValue.entries.map LogDefine.name) : final.find name = manager.find name := by
  induction items generalizing manager with
  | nil =>
    cases run
    rfl
  | cons i items ih =>
    obtain ⟨next, stepped, -, kept, frame⟩ := removeDefine_spec newValue i manager
    rw [List.foldlM_cons, stepped] at run
    rw [ih run]
    by_cases same : name = i.name
    · rw [same]
      refine kept fun absent => ?_
      rw [DefineSet.find_eq_none, ← same] at absent
      exact absent named
    · exact frame name same

/-- **The listener, when every new definition is applicable**: it completes, the loggers of the new set
are as their definitions say, and those that are gone are cleared. -/
theorem onChange_spec {oldValue newValue : DefineSet}
    (applicable : ∀ i ∈ newValue.entries, Applicable oldValue i) (manager : LoggerManager) :
    ∃ next, onChange oldValue newValue manager = some next ∧
      (∀ i ∈ newValue.entries, ∃ logger, next.find i.name = some logger ∧ Configured i logger) ∧
      ∀ i ∈ oldValue.entries, newValue.find i = none →
        ∃ logger, next.find i.name = some logger ∧ Cleared logger := by
  obtain ⟨applied, first, configured, -⟩ := @KeyedFold.foldlM_spec _ _ _ _
    (applyDefine oldValue) LoggerManager.find LogDefine.name (Applicable oldValue)
    (fun i held => ∃ logger, held = some logger ∧ Configured i logger)
    (fun manager i allowed => applyDefine_spec allowed manager) newValue.entries
    newValue.names_nodup applicable manager
  obtain ⟨next, second, cleared, -⟩ := @KeyedFold.foldlM_spec _ _ _ _
    (removeDefine newValue) LoggerManager.find LogDefine.name (fun _ => True)
    (fun i held => newValue.find i = none → ∃ logger, held = some logger ∧ Cleared logger)
    (fun manager i _ => by
      obtain ⟨next, stepped, gone, -, frame⟩ := removeDefine_spec newValue i manager
      exact ⟨next, stepped, gone, frame⟩)
    oldValue.entries oldValue.names_nodup (fun _ _ => trivial) applied
  refine ⟨next, ?_, ?_, cleared⟩
  · rw [onChange, first]
    exact second
  · intro i mem
    rw [removeDefines_keep newValue _ second (List.mem_map_of_mem mem)]
    exact configured i mem

theorem onChange_none {oldValue newValue : DefineSet}
    (inapplicable : ¬ ∀ i ∈ newValue.entries, Applicable oldValue i) (manager : LoggerManager) :
    onChange oldValue newValue manager = none := by
  rw [not_forall] at inapplicable
  obtain ⟨i, bad⟩ := inapplicable
  rw [Classical.not_imp] at bad
  have first := @KeyedFold.foldlM_eq_none _ _ (applyDefine oldValue) (Applicable oldValue)
    (fun manager i => (applyDefine_none · manager)) newValue.entries i bad.1 bad.2 manager
  rw [onChange, first]
  rfl

/-! ### Sequences of values -/

/-- `g_log_defines` and the loggers, and whether a change has used a null pointer. -/
structure Process where
  manager : LoggerManager
  value : DefineSet
  crashed : Bool
  deriving DecidableEq

/-- What `setVal` does: nothing, or a run of the listener. -/
inductive Change where
  | same
  | changed (oldValue newValue : DefineSet) (before : LoggerManager) (after : Option LoggerManager)
  deriving DecidableEq

/-- `ConfigVar::setVal` with the listener of `LogIniter`. -/
def setVal (process : Process) (v : DefineSet) : Option (Process × Change) :=
  if process.crashed then none
  else if v = process.value then some (process, .same)
  else
    match onChange process.value v process.manager with
    | some next =>
      some (⟨next, v, false⟩, .changed process.value v process.manager (some next))
    | none => some ({ process with crashed := true },
        .changed process.value v process.manager none)

/-- **A change that completes** and leaves the loggers as the two sets say. -/
def Completed : Change → Prop
  | .same => True
  | .changed oldValue newValue before after =>
    ∃ next, after = some next ∧
      (∀ i ∈ newValue.entries, ∃ logger, next.find i.name = some logger ∧ Configured i logger) ∧
      (∀ i ∈ oldValue.entries, newValue.find i = none →
        ∃ logger, next.find i.name = some logger ∧ Cleared logger) ∧
      ∀ i ∈ newValue.entries, i ∈ oldValue.entries → next.find i.name = before.find i.name

/-- The new value is the old one, or it keeps no definition as it was and knows all its appenders. -/
def Fresh (process : Process) (v : DefineSet) : Prop :=
  v = process.value ∨ ∀ i ∈ v.entries, Applicable process.value i

instance (process : Process) (v : DefineSet) : Decidable (Fresh process v) :=
  inferInstanceAs (Decidable (v = process.value ∨ ∀ i ∈ v.entries, Applicable process.value i))

theorem setVal_completed {process : Process} {v : DefineSet} {next : Process × Change}
    (stepped : setVal process v = some next) : Completed next.2 ↔ Fresh process v := by
  unfold setVal at stepped
  split at stepped
  · cases stepped
  split at stepped
  · rename_i same
    cases stepped
    exact iff_of_true trivial (Or.inl same)
  · rename_i different
    by_cases applicable : ∀ i ∈ v.entries, Applicable process.value i
    · obtain ⟨after, run, configured, cleared⟩ := onChange_spec applicable process.manager
      rw [run] at stepped
      cases stepped
      refine iff_of_true ⟨after, rfl, configured, cleared, ?_⟩ (Or.inr applicable)
      intro i mem old
      exact absurd old (applicable i mem).1
    · rw [onChange_none applicable] at stepped
      cases stepped
      refine iff_of_false ?_ fun fresh => fresh.elim different applicable
      rintro ⟨_, crash, _⟩
      cases crash

/-- **Every change of a run completes** and leaves the loggers as the two sets say, exactly when no
change keeps a definition as it was and every appender has a known type. -/
theorem changes_complete_iff (manager : LoggerManager) {values : List DefineSet} {final : Process}
    {changes : List Change}
    (executed : trace setVal ⟨manager, DefineSet.empty, false⟩ values = some (final, changes)) :
    (∀ change ∈ changes, Completed change) ↔
      Meets setVal Fresh ⟨manager, DefineSet.empty, false⟩ values :=
  @trace_outputs_iff _ _ _ setVal (fun _ => True) Completed Fresh
    (fun _ _ _ _ stepped => ⟨trivial, setVal_completed stepped⟩) values _ _ _ trivial executed

/-- A definition of a logger with one appender. -/
def toStdout (name : String) (level : LogLevel) : LogDefine :=
  ⟨name, level, "", [⟨2, .unknow, "", ""⟩]⟩

/-- One definition, and two in order. -/
def single (i : LogDefine) : DefineSet := ⟨[i], List.pairwise_singleton _ _⟩

def pair (first second : LogDefine) (smaller : first.name < second.name) : DefineSet :=
  ⟨[first, second], List.pairwise_pair.mpr smaller⟩

/-- A change of every definition, and one that takes a definition away. -/
theorem changes_complete_all :
    ∃ final changes, trace setVal ⟨LoggerManager.new, DefineSet.empty, false⟩
        [single (toStdout "a" .info), pair (toStdout "a" .error) (toStdout "b" .info) (by decide),
          single (toStdout "b" .error)] = some (final, changes) ∧
      ∀ change ∈ changes, Completed change := by
  have runs : (trace setVal ⟨LoggerManager.new, DefineSet.empty, false⟩
      [single (toStdout "a" .info), pair (toStdout "a" .error) (toStdout "b" .info) (by decide),
        single (toStdout "b" .error)]).isSome := by
    decide +kernel
  obtain ⟨⟨final, changes⟩, executed⟩ := Option.isSome_iff_exists.mp runs
  have fresh : Meets setVal Fresh ⟨LoggerManager.new, DefineSet.empty, false⟩
      [single (toStdout "a" .info), pair (toStdout "a" .error) (toStdout "b" .info) (by decide),
        single (toStdout "b" .error)] := by
    decide +kernel
  exact ⟨final, changes, executed, (changes_complete_iff _ executed).mpr fresh⟩

/-- The listener used a null pointer. -/
def Change.crashed : Change → Bool
  | .same => false
  | .changed _ _ _ after => after.isNone

theorem not_crashed {change : Change} (completed : Completed change) : change.crashed = false := by
  cases change with
  | same => rfl
  | changed oldValue newValue before after =>
    obtain ⟨next, rfl, _⟩ := completed
    rfl

/-- **A definition is added beside one that stays**: the listener uses the null pointer. -/
theorem kept_definition_crashes :
    ∃ final changes, trace setVal ⟨LoggerManager.new, DefineSet.empty, false⟩
        [single (toStdout "a" .info), pair (toStdout "a" .info) (toStdout "b" .info) (by decide)] =
          some (final, changes) ∧
      ¬ ∀ change ∈ changes, Completed change := by
  have crashes : (trace setVal ⟨LoggerManager.new, DefineSet.empty, false⟩
      [single (toStdout "a" .info), pair (toStdout "a" .info) (toStdout "b" .info) (by decide)]).map
        (fun result => result.2.any Change.crashed) = some true := by
    decide +kernel
  obtain ⟨⟨final, changes⟩, executed, crashed⟩ := Option.map_eq_some_iff.mp crashes
  refine ⟨final, changes, executed, fun all => ?_⟩
  obtain ⟨change, mem, crash⟩ := List.any_eq_true.mp crashed
  rw [not_crashed (all change mem)] at crash
  cases crash

end Wyze.Log
