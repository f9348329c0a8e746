/-
**`LogDefine` as text.**

`LogDefine` is written as a map with its optional fields left out, and read field by field. The level of
an appender is written but not read.

`define_cast_iff`: a definition whose appenders are of type 1 or 2 comes back exactly when none of them
has a level of its own and those of type 2 name no file.
-/
import Wyze.Lib.YamlNode
import Wyze.Log.Define

namespace Wyze.Log

open Yaml

/-! ### Levels -/

/-- `LogLevel::ToString`. -/
def LogLevel.toString : LogLevel → String
  | .debug => "DEBUG"
  | .info => "INFO"
  | .waring => "WARING"
  | .error => "ERROR"
  | .fatal => "FATAL"
  | .unknow => "UNKNOW"

/-- `LogLevel::FromString`. -/
def LogLevel.fromString (str : String) : LogLevel :=
  if str = "debug" then .debug
  else if str = "info" then .info
  else if str = "warn" then .waring
  else if str = "error" then .error
  else if str = "fatal" then .fatal
  else if str = "DEBUG" then .debug
  else if str = "INFO" then .info
  else if str = "WARING" then .waring
  else if str = "ERROR" then .error
  else if str = "FATAL" then .fatal
  else .unknow

/-- A level is read back from its name. -/
theorem LogLevel.fromString_toString (level : LogLevel) : fromString level.toString = level := by
  cases level <;> rfl

/-! ### The casts -/

/-- The node of an appender. -/
def appenderNode (a : LogAppenderDefine) : Option Yaml.Node := do
  let mut na := Node.null
  if a.type = 1 then
    na ← na.set "type" (.scalar "FileLogAppender")
    na ← na.set "file" (.scalar a.file)
  else if a.type = 2 then
    na ← na.set "type" (.scalar "StdoutLogAppender")
  if a.level ≠ .unknow then
    na ← na.set "level" (.scalar a.level.toString)
  if a.formatter ≠ "" then
    na ← na.set "formatter" (.scalar a.formatter)
  return na

/-- `n["appenders"].push_back(na)`. -/
def pushAppender (n : Yaml.Node) (a : LogAppenderDefine) : Option Yaml.Node := do
  let na ← appenderNode a
  let appenders ← n.find "appenders"
  let appenders ← appenders.pushBack na
  n.set "appenders" appenders

/-- The node that `LexicalCast<LogDefine, std::string>` writes. -/
def defineNode (i : LogDefine) : Option Yaml.Node := do
  let mut n := Node.null
  n ← n.set "name" (.scalar i.name)
  if i.level ≠ .unknow then
    n ← n.set "level" (.scalar i.level.toString)
  if i.formatter ≠ "" then
    n ← n.set "formatter" (.scalar i.formatter)
  i.appenders.foldlM pushAppender n

/-- `LexicalCast<LogDefine, std::string>`. -/
def defineToString (codec : Codec) (i : LogDefine) : Option String := (defineNode i).map codec.emit

/-- An optional field: the empty string without it. -/
def optionalField (key : String) (node : Yaml.Node) : Option String := do
  let field ← node.find key
  if field.isDefined then field.asString else return ""

/-- The body of the loop over the appenders; inside, `none` is a `continue`. -/
def readAppender (node : Yaml.Node) : Option (Option LogAppenderDefine) := do
  let type ← node.find "type"
  if !type.isDefined then return none
  let type ← type.asString
  if type = "FileLogAppender" then
    let file ← node.find "file"
    if !file.isDefined then return none
    let file ← file.asString
    let formatter ← optionalField "formatter" node
    return some { type := 1, level := .unknow, formatter := formatter, file := file }
  else if type = "StdoutLogAppender" then
    let formatter ← optionalField "formatter" node
    return some { type := 2, level := .unknow, formatter := formatter, file := "" }
  else return none

/-- `LexicalCast<std::string, LogDefine>`. -/
def defineFromString (codec : Codec) (v : String) : Option LogDefine := do
  let root ← codec.load v
  let name ← (← root.find "name").asString
  let level ← optionalField "level" root
  let formatter ← optionalField "formatter" root
  let nodes ← root.find "appenders"
  let appenders ← (List.range nodes.size).foldlM (fun appenders i =>
    (readAppender (nodes.index codec i)).map fun a => appenders ++ a.toList) []
  return { name := name, level := .fromString level, formatter := formatter, appenders := appenders }

/-! ### What is written -/

/-- A field that is written when it is given. -/
def given (key : String) (isGiven : Prop) [Decidable isGiven] (value : String) :
    List (String × Yaml.Node) :=
  if isGiven then [(key, .scalar value)] else []

/-- The fields of an appender. -/
def appenderEntries (a : LogAppenderDefine) : List (String × Yaml.Node) :=
  (if a.type = 1 then [("type", .scalar "FileLogAppender"), ("file", .scalar a.file)]
    else [("type", .scalar "StdoutLogAppender")]) ++
  given "level" (a.level ≠ .unknow) a.level.toString ++ given "formatter" (a.formatter ≠ "") a.formatter

/-- The fields of a definition but for its appenders. -/
def headEntries (i : LogDefine) : List (String × Yaml.Node) :=
  [("name", .scalar i.name)] ++ given "level" (i.level ≠ .unknow) i.level.toString ++
    given "formatter" (i.formatter ≠ "") i.formatter

/-- The appenders' field. -/
def appendersEntry (appenders : List LogAppenderDefine) : List (String × Yaml.Node) :=
  match appenders with
  | [] => []
  | appenders => [("appenders", .sequence (appenders.map fun a => .ofEntries (appenderEntries a)))]

theorem appenderNode_eq {a : LogAppenderDefine} (typed : Typed a) :
    appenderNode a = some (.ofEntries (appenderEntries a)) := by
  rcases typed with file | stdout
  · by_cases level : a.level = .unknow <;> by_cases formatter : a.formatter = "" <;>
      simp [appenderNode, appenderEntries, given, file, level, formatter, Node.set, Node.assign,
        Node.ofEntries]
  · by_cases level : a.level = .unknow <;> by_cases formatter : a.formatter = "" <;>
      simp [appenderNode, appenderEntries, given, stdout, level, formatter, Node.set, Node.assign,
        Node.ofEntries]

theorem pushAppender_eq {i : LogDefine} {before : List LogAppenderDefine} {a : LogAppenderDefine}
    (typed : Typed a) :
    pushAppender (.ofEntries (headEntries i ++ appendersEntry before)) a =
      some (.ofEntries (headEntries i ++ appendersEntry (before ++ [a]))) := by
  cases before <;> by_cases level : i.level = .unknow <;> by_cases formatter : i.formatter = "" <;>
    simp [pushAppender, appenderNode_eq typed, headEntries, appendersEntry, given, level, formatter,
      Node.set, Node.assign, Node.ofEntries, Node.find, Node.lookup, Node.pushBack]

/-- **The node of a definition** whose appenders have types. -/
theorem defineNode_eq {i : LogDefine} (typed : ∀ a ∈ i.appenders, Typed a) :
    defineNode i = some (.ofEntries (headEntries i ++ appendersEntry i.appenders)) := by
  have pushed : ∀ {appenders : List LogAppenderDefine} (before : List LogAppenderDefine),
      (∀ a ∈ appenders, Typed a) →
      appenders.foldlM pushAppender (.ofEntries (headEntries i ++ appendersEntry before)) =
        some (.ofEntries (headEntries i ++ appendersEntry (before ++ appenders))) := by
    intro appenders
    induction appenders with
    | nil => exact fun before _ => by rw [List.append_nil]; rfl
    | cons a appenders ih =>
        intro before typed
        obtain ⟨first, rest⟩ := List.forall_mem_cons.mp typed
        rw [List.foldlM_cons, pushAppender_eq first, Option.bind_eq_bind, Option.bind_some,
          ih _ rest, ← List.append_cons]
  have head : defineNode i = i.appenders.foldlM pushAppender (.ofEntries (headEntries i)) := by
    by_cases level : i.level = .unknow <;> by_cases formatter : i.formatter = "" <;>
      simp [defineNode, headEntries, given, level, formatter, Node.set, Node.assign, Node.ofEntries]
  rw [head]
  have all := pushed [] typed
  rwa [appendersEntry, List.append_nil, List.nil_append] at all

/-! ### What is read -/

/-- What is read of an appender: its level is not, and its file only with type 1. -/
def readBack (a : LogAppenderDefine) : LogAppenderDefine :=
  { a with level := .unknow, file := if a.type = 1 then a.file else "" }

theorem readAppender_eq {a : LogAppenderDefine} (typed : Typed a) :
    readAppender (.ofEntries (appenderEntries a)) = some (some (readBack a)) := by
  rcases typed with file | stdout
  · by_cases level : a.level = .unknow <;> by_cases formatter : a.formatter = "" <;>
      simp [readAppender, optionalField, appenderEntries, readBack, given, file, level, formatter,
        Node.find, Node.lookup, Node.ofEntries, Node.isDefined, Node.asString]
  · by_cases level : a.level = .unknow <;> by_cases formatter : a.formatter = "" <;>
      simp [readAppender, optionalField, appenderEntries, readBack, given, stdout, level, formatter,
        Node.find, Node.lookup, Node.ofEntries, Node.isDefined, Node.asString]

/-- The loop over the appenders' nodes. -/
theorem readAppenders_eq {appenders : List LogAppenderDefine} (typed : ∀ a ∈ appenders, Typed a)
    (before : List LogAppenderDefine) :
    (appenders.map fun a => Node.ofEntries (appenderEntries a)).foldlM (fun read node =>
      (readAppender node).map fun a => read ++ a.toList) before =
        some (before ++ appenders.map readBack) := by
  induction appenders generalizing before with
  | nil => exact congrArg some (List.append_nil before).symm
  | cons a appenders ih =>
      obtain ⟨first, rest⟩ := List.forall_mem_cons.mp typed
      rw [List.map_cons, List.foldlM_cons, readAppender_eq first, Option.map_some,
        Option.bind_eq_bind, Option.bind_some, ih rest, Option.toList_some, List.map_cons,
        ← List.append_cons]

/-- A field that is written when it is not empty is read. -/
theorem optionalField_eq (i : LogDefine) :
    optionalField "level" (.ofEntries (headEntries i ++ appendersEntry i.appenders)) =
        some (if i.level = .unknow then "" else i.level.toString) ∧
      optionalField "formatter" (.ofEntries (headEntries i ++ appendersEntry i.appenders)) =
        some i.formatter := by
  cases i.appenders <;> by_cases level : i.level = .unknow <;> by_cases formatter : i.formatter = "" <;>
    simp [optionalField, headEntries, appendersEntry, given, level, formatter, Node.find, Node.lookup,
      Node.ofEntries, Node.isDefined, Node.asString]

/-- The appenders' field is what was pushed, or missing. -/
theorem find_appenders (i : LogDefine) :
    ∃ nodes, (Node.ofEntries (headEntries i ++ appendersEntry i.appenders)).find "appenders" =
        some nodes ∧
      (nodes = .undefined ∧ i.appenders = [] ∨
        nodes = .ofItems (i.appenders.map fun a => .ofEntries (appenderEntries a))) := by
  cases i.appenders <;> by_cases level : i.level = .unknow <;> by_cases formatter : i.formatter = "" <;>
    simp [headEntries, appendersEntry, given, level, formatter, Node.find, Node.lookup,
      Node.ofEntries, Node.ofItems]

/-- **A definition is read back** but for what its appenders lose. -/
theorem defineFromString_eq {codec : Codec} {i : LogDefine} (typed : ∀ a ∈ i.appenders, Typed a)
    {node : Yaml.Node} (built : defineNode i = some node) (reloads : codec.Reloads node) :
    defineFromString codec (codec.emit node) =
      some { i with appenders := i.appenders.map readBack } := by
  rw [defineNode_eq typed, Option.some.injEq] at built
  subst built
  have name : (Node.ofEntries (headEntries i ++ appendersEntry i.appenders)).find "name" =
      some (.scalar i.name) := rfl
  obtain ⟨level, formatter⟩ := optionalField_eq i
  obtain ⟨nodes, found, isNodes⟩ := find_appenders i
  have read : (List.range nodes.size).foldlM (fun appenders n =>
      (readAppender (nodes.index codec n)).map fun a => appenders ++ a.toList) [] =
        some (i.appenders.map readBack) := by
    rcases isNodes with ⟨rfl, none⟩ | rfl
    · rw [none]
      rfl
    · rw [Node.foldlM_index codec
        (fun appenders node => (readAppender node).map fun a => appenders ++ a.toList)]
      exact readAppenders_eq typed []
  have isLevel : LogLevel.fromString (if i.level = .unknow then "" else i.level.toString) =
      i.level := by
    split
    · rename_i unknown
      rw [unknown]
      rfl
    · exact LogLevel.fromString_toString i.level
  simp only [defineFromString, Option.bind_eq_bind, Option.pure_def]
  rw [reloads, Option.bind_some, name, Option.bind_some]
  simp only [Node.asString, Option.bind_some, level, formatter, found, read, isLevel]

/-- An appender of a known type that is read back as it was. -/
theorem readBack_eq_self {a : LogAppenderDefine} (typed : Typed a) :
    readBack a = a ↔ a.level = .unknow ∧ (a.type = 2 → a.file = "") := by
  obtain ⟨type, level, formatter, file⟩ := a
  simp only [readBack, LogAppenderDefine.mk.injEq, true_and]
  rcases typed with isFile | isStdout
  · simp only at isFile
    subst isFile
    simp [eq_comm]
  · simp only at isStdout
    subst isStdout
    simp [eq_comm]

/-- **When a definition comes back.** For every definition whose appenders are of type 1 or 2 and whose
node the library keeps, what is read of its text is the definition exactly when no appender has a level
of its own, and those of type 2 name no file. -/
theorem define_cast_iff {codec : Codec} (i : LogDefine) (typed : ∀ a ∈ i.appenders, Typed a)
    (reloads : ∀ node ∈ defineNode i, codec.Reloads node) :
    (defineToString codec i).bind (defineFromString codec) = some i ↔
      ∀ a ∈ i.appenders, a.level = .unknow ∧ (a.type = 2 → a.file = "") := by
  have built := defineNode_eq typed
  rw [defineToString, built, Option.map_some, Option.bind_some,
    defineFromString_eq typed built (reloads _ built), Option.some.injEq]
  have whole : { i with appenders := i.appenders.map readBack } = i ↔
      i.appenders.map readBack = i.appenders := by
    cases i
    simp
  rw [whole]
  conv_lhs => rhs; rw [← List.map_id i.appenders]
  rw [List.map_inj_left]
  exact forall₂_congr fun a mem => readBack_eq_self (typed a mem)

section Samples

/-- A definition with a file that takes what its logger takes, and its text. -/
def plainDefine : LogDefine :=
  { name := "system", level := .info, formatter := "%m%n"
    appenders := [{ type := 1, level := .unknow, formatter := "", file := "system.log" },
      { type := 2, level := .unknow, formatter := "%d%m%n", file := "" }] }

/-- A definition whose appender takes errors only. -/
def errorsDefine : LogDefine :=
  { name := "root", level := .debug, formatter := ""
    appenders := [{ type := 2, level := .error, formatter := "", file := "" }] }

/-- The library on one document. -/
def oneDocument (text : String) (node : Yaml.Node) : Codec where
  load other := if other = text then some node else none
  emit _ := text
  atNumber _ _ := .undefined

theorem oneDocument_reloads (text : String) (node : Yaml.Node) :
    (oneDocument text node).Reloads node :=
  if_pos rfl

def plainText : String :=
  "name: system\nlevel: INFO\nformatter: \"%m%n\"\nappenders:\n  - type: FileLogAppender\n" ++
    "    file: system.log\n  - type: StdoutLogAppender\n    formatter: \"%d%m%n\""

def errorsText : String :=
  "name: root\nlevel: DEBUG\nappenders:\n  - type: StdoutLogAppender\n    level: ERROR"

/-- The definition comes back. -/
theorem define_cast_iff_plain : ∃ node, defineNode plainDefine = some node ∧
    (defineToString (oneDocument plainText node) plainDefine).bind
      (defineFromString (oneDocument plainText node)) = some plainDefine := by
  refine ⟨_, rfl, (define_cast_iff plainDefine (by decide) fun node built => ?_).mpr (by decide)⟩
  cases built
  exact oneDocument_reloads _ _

def errorsNode : Yaml.Node :=
  .map [(.scalar "name", .scalar "root"), (.scalar "level", .scalar "DEBUG"),
    (.scalar "appenders", .sequence
      [.map [(.scalar "type", .scalar "StdoutLogAppender"), (.scalar "level", .scalar "ERROR")]])]

/-- **The level of an appender is lost**: it is written as `ERROR` and read as `UNKNOW`. -/
theorem appender_level_lost :
    defineNode errorsDefine = some errorsNode ∧ (oneDocument errorsText errorsNode).Reloads errorsNode ∧
    (defineToString (oneDocument errorsText errorsNode) errorsDefine).bind
        (defineFromString (oneDocument errorsText errorsNode)) =
      some { errorsDefine with
        appenders := [{ type := 2, level := .unknow, formatter := "", file := "" }] } ∧
    (defineToString (oneDocument errorsText errorsNode) errorsDefine).bind
        (defineFromString (oneDocument errorsText errorsNode)) ≠ some errorsDefine := by
  have read : (defineToString (oneDocument errorsText errorsNode) errorsDefine).bind
      (defineFromString (oneDocument errorsText errorsNode)) = some { errorsDefine with
        appenders := [{ type := 2, level := .unknow, formatter := "", file := "" }] } := rfl
  refine ⟨rfl, oneDocument_reloads _ _, read, fun same => ?_⟩
  exact absurd (Option.some.inj (read.symm.trans same)) (by decide)

end Samples

end Wyze.Log
