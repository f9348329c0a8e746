/-
**Loggers, their appenders and formatters, and the manager that keeps them.**

A `LogFormatter` parses its pattern when it is made: literals, directives `%name` and `%name{arg}`, and
`%%`. A `Logger` has a level, a formatter and appenders; an appender that was added without a formatter
takes the one of its logger. `LoggerManager::getLogger` makes a logger the first time its name is asked
for.
-/
import Mathlib.Data.List.Basic

namespace Wyze.Log

/-- `LogLevel::Level`. -/
inductive LogLevel where
  | unknow
  | debug
  | info
  | waring
  | error
  | fatal
  deriving DecidableEq, Repr

/-! ### Formatters -/

/-- What `LogFormatter::init` puts into `vec`: a literal, or a directive with its argument. -/
inductive Piece where
  | text (str : List Char)
  | directive (str fmt : List Char)
  deriving DecidableEq, Repr

/-- `isalpha`. -/
def isAlpha (c : Char) : Bool := ('a' ≤ c && c ≤ 'z') || ('A' ≤ c && c ≤ 'Z')

/-- The inner loop with `fmt_status == 1`, behind a `{`: the argument and what is behind its `}`. -/
def scanFmt (fmt : List Char) : List Char → Option (List Char × List Char)
  | [] => none
  | c :: rest => if c = '}' then some (fmt, rest) else scanFmt (fmt ++ [c]) rest

/-- The inner loop with `fmt_status == 0`: the directive and what is behind it, `none` when its argument
does not end. -/
def scanStr (str : List Char) : List Char → Option (Piece × List Char)
  | [] => some (.directive str [], [])
  | c :: rest =>
    if !isAlpha c && c ≠ '{' && c ≠ '}' then some (.directive str [], c :: rest)
    else if c = '{' then (scanFmt [] rest).map fun (fmt, rest) => (.directive str fmt, rest)
    else scanStr (str ++ [c]) rest

/-- `if(!nstr.empty()) vec.push_back(nstr)`. -/
def flush (nstr : List Char) : List Piece := if nstr = [] then [] else [.text nstr]

/-- The outer loop: `vec` and `m_error`. Every turn consumes a character, so the length of the pattern
is turns enough. -/
def scan : Nat → List Char → List Char → List Piece × Bool
  | _, nstr, [] => (flush nstr, false)
  | 0, _, _ :: _ => ([], false)
  | turns + 1, nstr, c :: rest =>
    if c ≠ '%' then scan turns (nstr ++ [c]) rest
    else
      match rest with
      | '%' :: rest => scan turns (nstr ++ ['%']) rest
      | rest =>
        match scanStr [] rest with
        | some (piece, rest) =>
          let (vec, error) := scan turns [] rest
          (flush nstr ++ piece :: vec, error)
        | none =>
          let (vec, _) := scan turns nstr rest
          (.text "<<pattern _error>>".toList :: vec, true)

/-- The names of `s_format_item`. -/
def formatItems : List (List Char) :=
  [['m'], ['p'], ['r'], ['c'], ['t'], ['n'], ['d'], ['f'], ['l'], ['T'], ['F'], ['N']]

/-- The items of `LogFormatter::init`: a directive that has no item becomes a literal and an error. -/
def itemOf : Piece → Piece × Bool
  | .text str => (.text str, false)
  | .directive str fmt =>
    if str ∈ formatItems then (.directive str fmt, false)
    else (.text ("<<error_format %".toList ++ str ++ ">>".toList), true)

structure LogFormatter where
  pattern : String
  /-- `m_item`. -/
  items : List Piece
  /-- `m_error`. -/
  isError : Bool
  deriving DecidableEq, Repr

/-- `LogFormatter::LogFormatter`, with `init`. -/
def LogFormatter.new (pattern : String) : LogFormatter :=
  let (vec, error) := scan pattern.toList.length [] pattern.toList
  ⟨pattern, vec.map fun piece => (itemOf piece).1, error || vec.any fun piece => (itemOf piece).2⟩

/-- The formatter of a new logger. -/
def defaultFormatter : LogFormatter :=
  LogFormatter.new "%d{%Y-%m-%d %H:%M:%S}%T%t%T%N%T%F%T[%p]%T[%c]%T%f:%l%T%m%n"

/-! ### Appenders and loggers -/

/-- `FileAppender` with its file, or `StdoutAppender`. -/
inductive AppenderKind where
  | file (filename : String)
  | stdout
  deriving DecidableEq, Repr

structure LogAppender where
  kind : AppenderKind
  level : LogLevel
  formatter : Option LogFormatter
  hasFormatter : Bool
  deriving DecidableEq, Repr

namespace LogAppender

/-- `new FileAppender(filename)` and `new StdoutAppender`. -/
def new (kind : AppenderKind) : LogAppender := ⟨kind, .debug, none, false⟩

def setFormatter (appender : LogAppender) (val : Option LogFormatter) : LogAppender :=
  { appender with formatter := val, hasFormatter := val.isSome }

def setLevel (appender : LogAppender) (level : LogLevel) : LogAppender :=
  { appender with level := level }

end LogAppender

structure Logger where
  name : String
  level : LogLevel
  format : LogFormatter
  appenders : List LogAppender
  deriving DecidableEq, Repr

namespace Logger

/-- `Logger::Logger`. -/
def new (name : String) : Logger := ⟨name, .debug, defaultFormatter, []⟩

def setLevel (logger : Logger) (level : LogLevel) : Logger := { logger with level := level }

def addAppender (logger : Logger) (appender : LogAppender) : Logger :=
  let appender :=
    if appender.formatter.isNone then appender.setFormatter (some logger.format) else appender
  { logger with appenders := logger.appenders ++ [appender] }

def clearAppenders (logger : Logger) : Logger := { logger with appenders := [] }

/-- `setFormatter(LogFormatter::ptr)`. -/
def setFormatter (logger : Logger) (val : LogFormatter) : Logger :=
  { logger with
    format := val
    appenders := logger.appenders.map fun appender =>
      if !appender.hasFormatter then { appender with formatter := some val } else appender }

/-- `setFormatter(const std::string&)`: a pattern with an error is not taken. -/
def setPattern (logger : Logger) (val : String) : Logger :=
  let newVal := LogFormatter.new val
  if newVal.isError then logger else logger.setFormatter newVal

@[simp]
theorem setPattern_level (logger : Logger) (val : String) :
    (logger.setPattern val).level = logger.level := by
  unfold setPattern
  dsimp only
  split
  · rfl
  · rfl

theorem setPattern_format (logger : Logger) {val : String}
    (valid : (LogFormatter.new val).isError = false) :
    (logger.setPattern val).format = LogFormatter.new val := by
  unfold setPattern
  dsimp only
  rw [if_neg (Bool.eq_false_iff.mp valid)]
  rfl

end Logger

/-- `LoggerManager`: `m_loggers`. -/
structure LoggerManager where
  loggers : List (String × Logger)
  deriving DecidableEq, Repr

namespace LoggerManager

/-- `LoggerManager::LoggerManager`: the root logger with an appender. -/
def new : LoggerManager :=
  ⟨[("root", (Logger.new "root").addAppender (LogAppender.new .stdout))]⟩

/-- `m_loggers.find(name)`. -/
def find (manager : LoggerManager) (name : String) : Option Logger :=
  (manager.loggers.find? (·.1 = name)).map Prod.snd

/-- `getLogger`: the manager it leaves, which has a logger of that name. -/
def getLogger (manager : LoggerManager) (name : String) : LoggerManager :=
  match manager.find name with
  | some _ => manager
  | none => ⟨manager.loggers ++ [(name, Logger.new name)]⟩

/-- What a call on the logger of that name leaves of the manager. -/
def modify (manager : LoggerManager) (name : String) (change : Logger → Logger) : LoggerManager :=
  ⟨manager.loggers.map fun entry => if entry.1 = name then (entry.1, change entry.2) else entry⟩

theorem find_append (loggers : List (String × Logger)) (name other : String) (logger : Logger) :
    (⟨loggers ++ [(name, logger)]⟩ : LoggerManager).find other =
      (LoggerManager.find ⟨loggers⟩ other).or (if name = other then some logger else none) := by
  unfold find
  rw [List.find?_append, Option.map_or]
  congr 1
  by_cases same : name = other
  · simp only [List.find?_cons, decide_eq_true same, if_pos same, Option.map_some]
  · simp only [List.find?_cons, decide_eq_false same, if_neg same, List.find?_nil, Option.map_none]

/-- **`getLogger`** finds the logger or makes it. -/
theorem find_getLogger (manager : LoggerManager) (name : String) :
    (manager.getLogger name).find name = some ((manager.find name).getD (Logger.new name)) := by
  unfold getLogger
  split
  · rename_i logger found
    rw [found]
    rfl
  · rename_i absent
    rw [find_append, absent, if_pos rfl]
    rfl

theorem find_getLogger_other (manager : LoggerManager) {name other : String} (different : name ≠ other) :
    (manager.getLogger name).find other = manager.find other := by
  unfold getLogger
  split
  · rfl
  · rw [find_append, if_neg different, Option.or_none]

theorem find_modify (manager : LoggerManager) (name other : String) (change : Logger → Logger) :
    (manager.modify name change).find other =
      if name = other then (manager.find other).map change else manager.find other := by
  unfold modify find
  rw [List.find?_map]
  have keys : ((fun entry : String × Logger => decide (entry.1 = other)) ∘
      fun entry => if entry.1 = name then (entry.1, change entry.2) else entry) =
      fun entry => decide (entry.1 = other) := by
    funext entry
    dsimp only [Function.comp]
    split
    · rfl
    · rfl
  rw [keys]
  cases found : manager.loggers.find? (fun entry => decide (entry.1 = other)) with
  | none =>
    simp only [Option.map_none, ite_self]
  | some entry =>
    have isOther : entry.1 = other := by
      have hit := List.find?_some found
      rwa [decide_eq_true_eq] at hit
    by_cases same : name = other
    · rw [if_pos same, Option.map_some, if_pos (isOther.trans same.symm)]
      rfl
    · rw [if_neg same, Option.map_some, if_neg fun equal => same (equal.symm.trans isOther)]

end LoggerManager

end Wyze.Log
