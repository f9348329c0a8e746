/-
**Formatters of a logger's appenders.**

Appenders are shared objects: `heap` is what they hold, the logger's list names them. An appender that
has none of its own is to format with its logger's formatter, and `toYamlString` prints one for the
others. `addAppender` hands the logger's formatter on with `LogAppender::setFormatter`, the call that
also says that an appender has its own.

* `prints_iff`: when `toYamlString` prints a formatter.
* `toLogger_addAppender`, `toLogger_setFormatter`: the calls on what the appenders hold.
* `Inv.next`: an appender's own formatter is never replaced.
* `lawful_iff`: the calls that keep a lawful state lawful.
* `formats_iff`: the runs in which every state is lawful.
-/
import Wyze.Lib.Run
import Wyze.Log.DefineCast

namespace Wyze.Log

/-! ### `toYamlString` of an appender -/

namespace LogAppender

/-- The node that `toYamlString` writes. -/
def toYamlNode (appender : LogAppender) : Option Yaml.Node := do
  let mut node := Yaml.Node.null
  match appender.kind with
  | .file filename =>
    node ← node.set "type" (.scalar "FileLogAppender")
    node ← node.set "file" (.scalar filename)
  | .stdout =>
    node ← node.set "type" (.scalar "StdoutLogAppender")
  if appender.level ≠ .unknow then
    node ← node.set "level" (.scalar appender.level.toString)
  if appender.hasFormatter then
    if let some formatter := appender.formatter then
      node ← node.set "formatter" (.scalar formatter.pattern)
  return node

/-- `toYamlString` prints a formatter. -/
def PrintsFormatter (appender : LogAppender) : Prop :=
  ∃ node pattern, appender.toYamlNode = some node ∧ node.find "formatter" = some (.scalar pattern)

/-- **A formatter is printed** when the appender has one and says that it is its own. -/
theorem prints_iff (appender : LogAppender) :
    appender.PrintsFormatter ↔ appender.hasFormatter = true ∧ appender.formatter.isSome := by
  obtain ⟨kind, level, formatter, hasFormatter⟩ := appender
  cases kind <;> cases hasFormatter <;> cases formatter <;> by_cases unknown : level = .unknow <;>
    simp [PrintsFormatter, toYamlNode, Yaml.Node.set, Yaml.Node.assign, Yaml.Node.find,
      Yaml.Node.lookup, unknown]

end LogAppender

/-! ### A logger and its appenders -/

namespace Inherit

/-- `m_format` and `m_appenders` of a logger, and the appenders. -/
structure State where
  format : Option LogFormatter
  appenders : List Nat
  heap : Nat → LogAppender

/-- The calls; `setPattern` is `Logger::setFormatter(const std::string&)`. -/
inductive Call where
  | addAppender (appender : Nat)
  | delAppender (appender : Nat)
  | clearAppenders
  | setFormatter (val : Option LogFormatter)
  | setPattern (val : String)
  | appenderSetFormatter (appender : Nat) (val : Option LogFormatter)

namespace State

/-- A call on an appender. -/
def modify (state : State) (appender : Nat) (change : LogAppender → LogAppender) : State :=
  { state with
    heap := fun other => if other = appender then change (state.heap other) else state.heap other }

def addAppender (state : State) (appender : Nat) : State :=
  let state :=
    if (state.heap appender).formatter.isNone then
      state.modify appender fun held => held.setFormatter state.format
    else state
  { state with appenders := state.appenders ++ [appender] }

def delAppender (state : State) (appender : Nat) : State :=
  { state with appenders := state.appenders.erase appender }

def clearAppenders (state : State) : State := { state with appenders := [] }

/-- The body of the loop of `Logger::setFormatter`. -/
def inherit (state : State) (i : Nat) : State :=
  if !(state.heap i).hasFormatter then
    state.modify i fun held => { held with formatter := state.format }
  else state

/-- `Logger::setFormatter(LogFormatter::ptr)`. -/
def setFormatter (state : State) (val : Option LogFormatter) : State :=
  state.appenders.foldl inherit { state with format := val }

/-- `Logger::setFormatter(const std::string&)`: a pattern with an error is not taken. -/
def setPattern (state : State) (val : String) : State :=
  let newVal := LogFormatter.new val
  if newVal.isError then state else state.setFormatter (some newVal)

def perform (state : State) : Call → State
  | .addAppender appender => state.addAppender appender
  | .delAppender appender => state.delAppender appender
  | .clearAppenders => state.clearAppenders
  | .setFormatter val => state.setFormatter val
  | .setPattern val => state.setPattern val
  | .appenderSetFormatter appender val =>
    state.modify appender fun held => held.setFormatter val

/-- A logger with no appenders, and appenders that have just been made. -/
def new (kinds : Nat → AppenderKind) : State where
  format := some defaultFormatter
  appenders := []
  heap appender := LogAppender.new (kinds appender)

end State

/-- A state beside what the user has done: the formatter an appender was last given, unless it was null,
and whether it was ever given one. -/
structure Recorded where
  state : State
  own : Nat → Option LogFormatter
  given : Nat → Bool

/-- A call with its record. -/
def call (record : Recorded) (next : Call) : Option (Recorded × Recorded) :=
  let state := record.state.perform next
  let after : Recorded :=
    match next with
    | .appenderSetFormatter appender val =>
      { state := state
        own := fun other => if other = appender then val else record.own other
        given := fun other => if other = appender then record.given other || val.isSome
          else record.given other }
    | _ => { record with state := state }
  some (after, after)

def Recorded.new (kinds : Nat → AppenderKind) : Recorded :=
  { state := State.new kinds, own := fun _ => none, given := fun _ => false }

/-- An appender of the logger that was never given a formatter has the logger's, one with its own has
that, and only the latter print theirs. -/
structure Lawful (record : Recorded) : Prop where
  inherited : ∀ appender ∈ record.state.appenders, record.given appender = false →
    (record.state.heap appender).formatter = record.state.format
  own : ∀ appender formatter, record.own appender = some formatter →
    (record.state.heap appender).formatter = some formatter
  printed : ∀ appender, (record.state.heap appender).PrintsFormatter → (record.own appender).isSome

/-- An appender that is added without a formatter finds none at the logger, one that was never given a
formatter holds the logger's; the null pointer is not given to an appender of the logger that was never
given a formatter, unless the logger has none. -/
def Keeps (record : Recorded) : Call → Prop
  | .addAppender appender =>
    ((record.state.heap appender).formatter = none → record.state.format = none) ∧
      (record.given appender = false →
        (record.state.heap appender).formatter = record.state.format)
  | .appenderSetFormatter appender none =>
    appender ∈ record.state.appenders → record.given appender = false → record.state.format = none
  | _ => True

/-! ### What a call changes -/

variable {record : Recorded}

@[simp]
theorem modify_heap_self (state : State) (appender : Nat) (change : LogAppender → LogAppender) :
    (state.modify appender change).heap appender = change (state.heap appender) := if_pos rfl

theorem modify_heap_other (state : State) {appender other : Nat} (different : other ≠ appender)
    (change : LogAppender → LogAppender) :
    (state.modify appender change).heap other = state.heap other := if_neg different

/-- The loop of `Logger::setFormatter` gives the formatter to the appenders without their own. -/
theorem foldl_inherit (appenders : List Nat) (state : State) :
    appenders.foldl State.inherit state =
      { state with
        heap := fun appender =>
          if appender ∈ appenders ∧ (state.heap appender).hasFormatter = false then
            { state.heap appender with formatter := state.format }
          else state.heap appender } := by
  induction appenders generalizing state with
  | nil => simp
  | cons i appenders ih =>
      rw [List.foldl_cons, ih]
      by_cases has : (state.heap i).hasFormatter
      · rw [State.inherit, has, Bool.not_true, if_neg Bool.false_ne_true]
        congr 1
        funext appender
        by_cases same : appender = i
        · simp [same, has]
        · simp [same]
      · rw [State.inherit, if_pos (by simp [has])]
        simp only [State.modify, State.mk.injEq, true_and]
        funext appender
        by_cases same : appender = i
        · simp [same, has]
        · simp [same]

theorem setFormatter_heap (state : State) (val : Option LogFormatter) (appender : Nat) :
    (state.setFormatter val).heap appender =
      if appender ∈ state.appenders ∧ (state.heap appender).hasFormatter = false then
        { state.heap appender with formatter := val }
      else state.heap appender := by
  rw [State.setFormatter, foldl_inherit]

@[simp]
theorem setFormatter_appenders (state : State) (val : Option LogFormatter) :
    (state.setFormatter val).appenders = state.appenders := by
  rw [State.setFormatter, foldl_inherit]

@[simp]
theorem setFormatter_format (state : State) (val : Option LogFormatter) :
    (state.setFormatter val).format = val := by
  rw [State.setFormatter, foldl_inherit]

/-- What `addAppender` leaves of an appender. -/
theorem addAppender_heap (state : State) (appender other : Nat) :
    (state.addAppender appender).heap other =
      if other = appender ∧ (state.heap other).formatter = none then
        (state.heap other).setFormatter state.format
      else state.heap other := by
  unfold State.addAppender
  by_cases none : (state.heap appender).formatter = none
  · by_cases same : other = appender
    · simp [same, none]
    · simp [same, none, modify_heap_other]
  · by_cases same : other = appender
    · simp [same, none, Option.isNone_iff_eq_none]
    · simp [same, none, Option.isNone_iff_eq_none]

@[simp]
theorem addAppender_format (state : State) (appender : Nat) :
    (state.addAppender appender).format = state.format := by
  unfold State.addAppender
  split <;> rfl

@[simp]
theorem addAppender_appenders (state : State) (appender : Nat) :
    (state.addAppender appender).appenders = state.appenders ++ [appender] := by
  unfold State.addAppender
  split <;> rfl

/-! ### Appenders by value -/

/-- The logger with what its appenders hold. -/
def State.toLogger (state : State) (name : String) (level : LogLevel) (format : LogFormatter) : Logger :=
  { name := name, level := level, format := format, appenders := state.appenders.map state.heap }

/-- `setFormatter` on the objects is `setFormatter` on what they hold. -/
theorem toLogger_setFormatter (state : State) (name : String) (level : LogLevel)
    (format val : LogFormatter) :
    (state.setFormatter (some val)).toLogger name level val =
      (state.toLogger name level format).setFormatter val := by
  simp only [State.toLogger, Logger.setFormatter, setFormatter_appenders, List.map_map]
  congr 1
  refine List.map_congr_left fun appender attached => ?_
  rw [setFormatter_heap, Function.comp_apply]
  by_cases has : (state.heap appender).hasFormatter <;> simp [has, attached]

/-- An appender that the logger does not have yet is added. -/
theorem toLogger_addAppender (state : State) (name : String) (level : LogLevel) {format : LogFormatter}
    (current : state.format = some format) {appender : Nat} (absent : appender ∉ state.appenders) :
    (state.addAppender appender).toLogger name level format =
      (state.toLogger name level format).addAppender (state.heap appender) := by
  simp only [State.toLogger, Logger.addAppender, addAppender_appenders, List.map_append, List.map_cons,
    List.map_nil]
  congr 2
  · refine List.map_congr_left fun other attached => ?_
    rw [addAppender_heap, if_neg]
    rintro ⟨rfl, _⟩
    exact absent attached
  · rw [addAppender_heap, current]
    simp [Option.isNone_iff_eq_none]

/-! ### An appender's own formatter -/

/-- The flag is set for an appender with its own formatter, and only for one that holds a formatter. -/
structure Inv (record : Recorded) : Prop where
  own : ∀ appender formatter, record.own appender = some formatter →
    (record.state.heap appender).formatter = some formatter ∧
      (record.state.heap appender).hasFormatter = true ∧ record.given appender = true
  flag : ∀ appender, (record.state.heap appender).hasFormatter = true →
    (record.state.heap appender).formatter.isSome

theorem Inv.new (kinds : Nat → AppenderKind) : Inv (Recorded.new kinds) where
  own := by rintro _ _ ⟨⟩
  flag := by rintro _ ⟨⟩

/-- `setFormatter` of the logger keeps the record. -/
theorem Inv.setFormatter (inv : Inv record) (val : Option LogFormatter) :
    Inv { record with state := record.state.setFormatter val } where
  own := by
    intro appender formatter own
    obtain ⟨holds, has, given⟩ := inv.own appender formatter own
    rw [setFormatter_heap, if_neg (by simp [has])]
    exact ⟨holds, has, given⟩
  flag := by
    intro appender has
    rw [setFormatter_heap] at has ⊢
    split at has
    · rename_i without
      exact absurd (has.symm.trans without.2) (by decide)
    · rename_i with_
      rw [if_neg with_]
      exact inv.flag appender has

theorem Inv.addAppender (inv : Inv record) (appender : Nat) :
    Inv { record with state := record.state.addAppender appender } where
  own := by
    intro other formatter own
    obtain ⟨holds, has, given⟩ := inv.own other formatter own
    rw [addAppender_heap, if_neg (by simp [holds])]
    exact ⟨holds, has, given⟩
  flag := by
    intro other has
    rw [addAppender_heap] at has ⊢
    split at has
    · rename_i added
      rw [if_pos added]
      exact has
    · rename_i kept
      rw [if_neg kept]
      exact inv.flag other has

/-- `setFormatter` of an appender. -/
theorem Inv.modify (inv : Inv record) (appender : Nat) (val : Option LogFormatter) :
    Inv
      { state := record.state.modify appender fun held => held.setFormatter val
        own := fun other => if other = appender then val else record.own other
        given := fun other => if other = appender then record.given other || val.isSome
          else record.given other } where
  own := by
    intro other formatter own
    dsimp only at own ⊢
    by_cases same : other = appender
    · subst same
      rw [if_pos rfl] at own
      rw [modify_heap_self, own, if_pos rfl]
      exact ⟨rfl, rfl, Bool.or_true _⟩
    · rw [if_neg same] at own
      rw [modify_heap_other _ same, if_neg same]
      exact inv.own other formatter own
  flag := by
    intro other has
    dsimp only at has ⊢
    by_cases same : other = appender
    · subst same
      rw [modify_heap_self] at has ⊢
      exact has
    · rw [modify_heap_other _ same] at has ⊢
      exact inv.flag other has

/-- **An appender's own formatter stays.** -/
theorem Inv.next {label : Call} {next : Recorded × Recorded} (inv : Inv record)
    (stepped : call record label = some next) : Inv next.1 := by
  cases label <;> cases stepped
  · exact inv.addAppender _
  · exact ⟨inv.own, inv.flag⟩
  · exact ⟨inv.own, inv.flag⟩
  · exact inv.setFormatter _
  · rename_i val
    show Inv { record with state := record.state.setPattern val }
    unfold State.setPattern
    dsimp only
    split
    · exact inv
    · exact inv.setFormatter _
  · exact inv.modify _ _

/-! ### Lawful states -/

/-- In a lawful state only an appender with its own formatter says that it has one. -/
theorem Lawful.flag (inv : Inv record) (lawful : Lawful record) (appender : Nat)
    (never : record.given appender = false) :
    (record.state.heap appender).hasFormatter = false := by
  refine Bool.eq_false_iff.mpr fun has => ?_
  have printed := lawful.printed appender ((LogAppender.prints_iff _).mpr ⟨has, inv.flag appender has⟩)
  obtain ⟨formatter, own⟩ := Option.isSome_iff_exists.mp printed
  exact absurd ((inv.own appender formatter own).2.2.symm.trans never) (by decide)

/-- The logger's new formatter reaches the appenders that were never given one. -/
theorem Lawful.setFormatter (inv : Inv record) (lawful : Lawful record) (val : Option LogFormatter) :
    Lawful { record with state := record.state.setFormatter val } where
  inherited := by
    intro appender attached never
    rw [setFormatter_appenders] at attached
    rw [setFormatter_heap, if_pos ⟨attached, lawful.flag inv appender never⟩, setFormatter_format]
  own appender formatter own := ((inv.setFormatter val).own appender formatter own).1
  printed := by
    intro appender printed
    rw [LogAppender.prints_iff, setFormatter_heap] at printed
    split at printed
    · rename_i without
      exact absurd (printed.1.symm.trans without.2) (by decide)
    · exact lawful.printed appender ((LogAppender.prints_iff _).mpr printed)

/-- **`addAppender`** keeps a lawful state when it hands nothing on and the formatter that it finds is
the right one. -/
theorem Lawful.addAppender_iff (inv : Inv record) (lawful : Lawful record) (appender : Nat) :
    Lawful { record with state := record.state.addAppender appender } ↔
      Keeps record (.addAppender appender) := by
  constructor
  · intro after
    have nothing : (record.state.heap appender).formatter = none → record.state.format = none := by
      intro without
      by_contra handed
      have printed : ((record.state.addAppender appender).heap appender).PrintsFormatter := by
        rw [LogAppender.prints_iff, addAppender_heap, if_pos ⟨rfl, without⟩]
        exact ⟨Option.isSome_iff_ne_none.mpr handed, Option.isSome_iff_ne_none.mpr handed⟩
      obtain ⟨formatter, own⟩ := Option.isSome_iff_exists.mp (after.printed appender printed)
      exact absurd ((inv.own appender formatter own).1.symm.trans without) (Option.some_ne_none _)
    refine ⟨nothing, fun never => ?_⟩
    have same := after.inherited appender (by simp) never
    rw [addAppender_heap, addAppender_format] at same
    split at same
    · rename_i without
      rw [without.2, nothing without.2]
    · exact same
  · rintro ⟨nothing, right⟩
    refine ⟨?_, fun other formatter own => ((inv.addAppender appender).own other formatter own).1, ?_⟩
    · intro other attached never
      rw [addAppender_heap, addAppender_format]
      rw [addAppender_appenders, List.mem_append, List.mem_singleton] at attached
      split
      · rfl
      · rcases attached with before | rfl
        · exact lawful.inherited other before never
        · exact right never
    · intro other printed
      rw [LogAppender.prints_iff, addAppender_heap] at printed
      split at printed
      · rename_i added
        obtain ⟨rfl, without⟩ := added
        rw [nothing without] at printed
        exact absurd printed.1 Bool.false_ne_true
      · exact lawful.printed other ((LogAppender.prints_iff _).mpr printed)

/-- **`setFormatter` of an appender** keeps a lawful state unless it takes a formatter from one that is to
have the logger's. -/
theorem Lawful.modify_iff (inv : Inv record) (lawful : Lawful record) (appender : Nat)
    (val : Option LogFormatter) :
    Lawful
        { state := record.state.modify appender fun held => held.setFormatter val
          own := fun other => if other = appender then val else record.own other
          given := fun other => if other = appender then record.given other || val.isSome
            else record.given other } ↔
      Keeps record (.appenderSetFormatter appender val) := by
  have kept := inv.modify appender val
  have printed : ∀ other,
      ((record.state.modify appender fun held => held.setFormatter val).heap other).PrintsFormatter →
        (if other = appender then val else record.own other).isSome := by
    intro other printed
    by_cases same : other = appender
    · subst same
      rw [LogAppender.prints_iff, modify_heap_self] at printed
      rw [if_pos rfl]
      exact printed.1
    · rw [modify_heap_other _ same] at printed
      rw [if_neg same]
      exact lawful.printed other printed
  constructor
  · intro after
    cases val with
    | some formatter => trivial
    | none =>
        intro attached never
        have same := after.inherited appender attached (by simp [never])
        rw [modify_heap_self] at same
        exact same.symm
  · intro keeps
    refine ⟨?_, fun other formatter own => (kept.own other formatter own).1, printed⟩
    intro other attached never
    dsimp only at never
    by_cases same : other = appender
    · subst same
      rw [if_pos rfl, Bool.or_eq_false_iff] at never
      cases val with
      | some formatter => exact absurd never.2 (by simp)
      | none =>
          rw [modify_heap_self]
          exact (keeps attached never.1).symm
    · rw [if_neg same] at never
      rw [modify_heap_other _ same]
      exact lawful.inherited other attached never

/-- **The calls that keep a lawful state lawful.** -/
theorem lawful_iff {label : Call} {next : Recorded × Recorded} (inv : Inv record)
    (lawful : Lawful record) (stepped : call record label = some next) :
    Lawful next.2 ↔ Keeps record label := by
  cases label <;> cases stepped
  · exact lawful.addAppender_iff inv _
  · refine iff_of_true ⟨fun appender attached => ?_, lawful.own, lawful.printed⟩ trivial
    exact lawful.inherited appender (List.mem_of_mem_erase attached)
  · exact iff_of_true ⟨by rintro _ ⟨⟩, lawful.own, lawful.printed⟩ trivial
  · exact iff_of_true (lawful.setFormatter inv _) trivial
  · rename_i val
    refine iff_of_true ?_ trivial
    show Lawful { record with state := record.state.setPattern val }
    unfold State.setPattern
    dsimp only
    split
    · exact lawful
    · exact lawful.setFormatter inv _
  · exact lawful.modify_iff inv _ _

theorem Lawful.new (kinds : Nat → AppenderKind) : Lawful (Recorded.new kinds) where
  inherited := by rintro _ ⟨⟩
  own := by rintro _ _ ⟨⟩
  printed := by
    intro appender printed
    exact absurd ((LogAppender.prints_iff _).mp printed).1 Bool.false_ne_true

/-- **Inherited formatters.** In every state of a run each attached appender that was never given a
formatter has the logger's, each one with its own has that, and only the latter print theirs, exactly
when no call hands the logger's formatter on to an appender that has none, adds one that was never
given a formatter but holds another than the logger's, or takes a formatter from one that was never
given any. -/
theorem formats_iff (kinds : Nat → AppenderKind) (calls : List Call) :
    ∃ final states, Labelled.trace call (Recorded.new kinds) calls = some (final, states) ∧
      ((∀ state ∈ states, Lawful state) ↔
        Labelled.Meets call Keeps (Recorded.new kinds) calls) := by
  have enabled (record : Recorded) (label : Call) : ∃ next, call record label = some next := ⟨_, rfl⟩
  obtain ⟨⟨final, states⟩, executed⟩ := Labelled.exists_trace enabled calls (Recorded.new kinds)
  have step_keeps (record : Recorded) (label : Call) (next : Recorded × Recorded)
      (before : Inv record ∧ Lawful record) (stepped : call record label = some next) :
      (Lawful next.2 ↔ Keeps record label) ∧ (Lawful next.2 → Inv next.1 ∧ Lawful next.1) := by
    obtain ⟨inv, lawful⟩ := before
    have same : next.2 = next.1 := by
      simp only [call, Option.some.injEq] at stepped
      rw [← stepped]
    exact ⟨lawful_iff inv lawful stepped, fun after => ⟨inv.next stepped, same ▸ after⟩⟩
  exact ⟨final, states, executed, Labelled.trace_shown_iff step_keeps calls
    ⟨Inv.new kinds, Lawful.new kinds⟩ executed⟩

/-- **A new appender is added and keeps the formatter it found**, the logger's later one does not reach
it, and it prints a formatter. -/
theorem first_formatter_stays :
    ∃ final states, Labelled.trace call (Recorded.new fun _ => .stdout)
        [.addAppender 0, .setPattern "%d - %m%n"] = some (final, states) ∧
      final.given 0 = false ∧ 0 ∈ final.state.appenders ∧
      (final.state.heap 0).formatter = some defaultFormatter ∧
      final.state.format = some (LogFormatter.new "%d - %m%n") ∧
      defaultFormatter ≠ LogFormatter.new "%d - %m%n" ∧
      final.own 0 = none ∧ (final.state.heap 0).PrintsFormatter := by
  refine ⟨_, _, rfl, rfl, ?_, ?_, ?_, ?_, rfl, ?_⟩
  · decide +kernel
  · decide +kernel
  · decide +kernel
  · decide +kernel
  · rw [LogAppender.prints_iff]
    decide +kernel

end Inherit

end Wyze.Log
