/-
**Events on their way to the files.**

`Logger::log` gives an event to the appenders of the logger, or to those of the root when it has none. A
`FileAppender` keeps its stream; it opens the file again when an event is at least three seconds younger
than the one it last opened it for, so that a file which has been renamed is left and one that could not
be opened is tried again. The times are those of the events, and they need not be in order.

A file that is not opened makes a line on `std::cout`. When not even its directory can be made,
`OpenForWrite` logs an error itself, through the logger `system`, while the appender that opens its file is
locked, and so is the logger whose appenders are gone through: a call that comes to one of these locks
again waits for ever.

* `log_depth`: an error that is logged while an error is logged always waits, so two levels of calls are
  all there are.
* `log_chain`, `new_chain`: **what a call does is a sequence of `Effect`s**, from which every invariant of a
  call follows.
-/
import Wyze.Lib.Run
import Wyze.Log.Logger

namespace Wyze.Log

open Labelled

/-- The value of the enumeration. -/
def LogLevel.value : LogLevel → Nat
  | .unknow => 0
  | .debug => 1
  | .info => 2
  | .waring => 3
  | .error => 4
  | .fatal => 5

/-- `LogEvent`: its level, its time and what it says. -/
structure LogEvent where
  level : LogLevel
  time : UInt64
  content : String
  deriving DecidableEq

/-! ### The files -/

/-- What `FSUtil::OpenForWrite` comes to with a name: it opens the file, perhaps in a directory that it has
made; it does not open it; or it cannot make the directory, with `errno` and its text. -/
inductive Opening where
  | opens
  | refused
  | noDirectory (errno : Nat) (errstr : String)
  deriving DecidableEq

/-- What stands on `std::cout`. -/
inductive Line where
  | event (event : LogEvent)
  | notOpen (filename : String)
  deriving DecidableEq

/-- The files by their numbers: which one has a name, what opening a name comes to, how many have been
made, and what has been written to them and to `std::cout`; and `time(0)`. -/
structure Disk where
  named : String → Option Nat
  opening : String → Opening
  made : Nat
  written : Nat → List LogEvent
  console : List Line
  now : UInt64

namespace Disk

/-- The file that a name is opened for, made when there is none. -/
def openFile (disk : Disk) (filename : String) : Nat × Disk :=
  match disk.named filename with
  | some file => (file, disk)
  | none =>
    (disk.made, { disk with
      named := Function.update disk.named filename (some disk.made)
      made := disk.made + 1 })

def print (disk : Disk) (line : Line) : Disk := { disk with console := disk.console ++ [line] }

def write (disk : Disk) (file : Nat) (event : LogEvent) : Disk :=
  { disk with written := Function.update disk.written file (disk.written file ++ [event]) }

end Disk

/-- `FSUtil::Dirname`. -/
def dirname (filename : String) : String :=
  match filename.toList.reverse.dropWhile (· ≠ '/') with
  | [] => "."
  | [_] => "/"
  | _ :: front => String.ofList front.reverse

/-- The error that `OpenForWrite` logs. -/
def mkdirError (filename : String) (errno : Nat) (errstr : String) (now : UInt64) : LogEvent :=
  ⟨.error, now,
    "mkdir " ++ dirname filename ++ " error, errno=" ++ toString errno ++ " errstr=" ++ errstr⟩

/-! ### Loggers and appenders -/

/-- An appender; `lastTime` and `stream` are those of `FileAppender`, the stream being of a file or not
open. -/
structure Appender where
  kind : AppenderKind
  level : LogLevel
  lastTime : UInt64
  stream : Option Nat
  deriving DecidableEq

/-- An appender as the constructors begin it. -/
def Appender.begin (kind : AppenderKind) : Appender := ⟨kind, .debug, 0, none⟩

/-- The file is to be opened again for an event of this time. -/
def Appender.due (appender : Appender) (now : UInt64) : Bool := now ≥ appender.lastTime + 3

/-- Where the text of an event goes; a stream that is not open takes nothing. -/
inductive Target where
  | console
  | file (number : Nat)
  | lost
  deriving DecidableEq

/-- A `log` of an appender that has let the event pass; the event is the one of the call, or an error
reported in it. -/
structure Record where
  appender : Nat
  event : LogEvent
  target : Target
  reported : Bool
  deriving DecidableEq

/-- What a call shows: an appender has written, or a file was not opened, for the event of the call or for
an error reported in it. -/
inductive Entry where
  | wrote (record : Record)
  | notOpen (filename : String) (reported : Bool)
  deriving DecidableEq

/-- A logger: its level and its appenders. -/
structure Sink where
  level : LogLevel
  appenders : List Nat
  deriving DecidableEq

/-- The loggers by name, all the appenders, the disk, and whether a call waits for a lock that it holds
itself. -/
structure Logs where
  loggers : String → Sink
  appenders : List Appender
  disk : Disk
  waiting : Bool

/-- The locks that the calls under way hold: of loggers, and of appenders. -/
structure Held where
  loggers : List String
  appenders : List Nat

/-- What the program does with its loggers, and what happens to the files and the clock: a file loses its
name, opening a name comes to something else, time goes on. -/
inductive LogLabel where
  | make (kind : AppenderKind)
  | setAppenderLevel (appender : Nat) (level : LogLevel)
  | addAppender (name : String) (appender : Nat)
  | delAppender (name : String) (appender : Nat)
  | clearAppenders (name : String)
  | setLevel (name : String) (level : LogLevel)
  | log (name : String) (event : LogEvent)
  | rotate (filename : String)
  | change (filename : String) (opening : Opening)
  | clock (now : UInt64)

namespace Logs

def start (disk : Disk) : Logs :=
  { loggers := fun _ => ⟨.debug, []⟩, appenders := [], disk := disk, waiting := false }

/-- Where every name can be opened, on a disk without files. -/
def blankDisk : Disk := ⟨fun _ => none, fun _ => .opens, 0, fun _ => [], [], 0⟩

/-- The call waits. -/
def wait (logs : Logs) : Logs := { logs with waiting := true }

/-- A change to one appender. -/
def modifyAppender (logs : Logs) (i : Nat) (change : Appender → Appender) : Logs :=
  { logs with appenders := logs.appenders.modify i change }

/-- A change to one logger. -/
def configure (logs : Logs) (name : String) (change : Sink → Sink) : Logs :=
  { logs with loggers := Function.update logs.loggers name (change (logs.loggers name)) }

/-- The second part of a call behind the first one, if that does not wait. -/
def andThen (done : Logs × List Entry) (next : Logs → Logs × List Entry) : Logs × List Entry :=
  if done.1.waiting then done else ((next done.1).1, done.2 ++ (next done.1).2)

/-- The stream of an appender is closed. -/
def closeStream (logs : Logs) (i : Nat) : Logs :=
  logs.modifyAppender i fun appender => { appender with stream := none }

/-- The stream of an appender is opened. -/
def openStream (logs : Logs) (i : Nat) (filename : String) : Logs :=
  { logs with disk := (logs.disk.openFile filename).2 }.modifyAppender i fun appender =>
    { appender with stream := some (logs.disk.openFile filename).1 }

/-- The line of a file that is not opened. -/
def notOpen (logs : Logs) (filename : String) (reported : Bool) : Logs × List Entry :=
  ({ logs with disk := logs.disk.print (.notOpen filename) }, [.notOpen filename reported])

section Calls

variable (report : Held → LogEvent → Logs → Logs × List Entry) (held : Held) (reported : Bool)

/-- `FileAppender::reopen`, with `FSUtil::OpenForWrite`, which reports that the directory cannot be made
while the appender is locked. -/
def reopen (i : Nat) (filename : String) (logs : Logs) : Logs × List Entry :=
  match logs.disk.opening filename with
  | .opens => (logs.openStream i filename, [])
  | .refused => (logs.closeStream i, [])
  | .noDirectory errno errstr =>
    report { held with appenders := i :: held.appenders }
      (mkdirError filename errno errstr logs.disk.now) (logs.closeStream i)

/-- `if(!reopen())` and the line. -/
def tryReopen (i : Nat) (filename : String) (logs : Logs) : Logs × List Entry :=
  andThen (logs.reopen report held i filename) fun next =>
    if logs.disk.opening filename = .opens then (next, []) else next.notOpen filename reported

variable (event : LogEvent)

/-- The text goes to the stream. -/
def writeStream (i : Nat) (logs : Logs) : Logs × List Entry :=
  match logs.appenders[i]?.bind Appender.stream with
  | none => (logs, [.wrote ⟨i, event, .lost, reported⟩])
  | some file =>
    ({ logs with disk := logs.disk.write file event }, [.wrote ⟨i, event, .file file, reported⟩])

/-- `FileAppender::log` of an event that passes. -/
def logFile (i : Nat) (appender : Appender) (filename : String) (logs : Logs) : Logs × List Entry :=
  if appender.due event.time then
    andThen (logs.tryReopen report held reported i filename) fun next =>
      (next.modifyAppender i fun appender => { appender with lastTime := event.time }).writeStream
        reported event i
  else logs.writeStream reported event i

/-- `StdoutAppender::log` and `FileAppender::log`; both lock the appender. -/
def logOne (i : Nat) (logs : Logs) : Logs × List Entry :=
  match logs.appenders[i]? with
  | none => (logs, [])
  | some appender =>
    if event.level.value < appender.level.value then (logs, [])
    else if i ∈ held.appenders then (logs.wait, [])
    else
      match appender.kind with
      | .stdout =>
        ({ logs with disk := logs.disk.print (.event event) },
          [.wrote ⟨i, event, .console, reported⟩])
      | .file filename => logs.logFile report held reported event i appender filename

/-- The loop over the appenders. -/
def logAll : List Nat → Logs → Logs × List Entry
  | [], logs => (logs, [])
  | i :: later, logs => andThen (logs.logOne report held reported event i) (logAll later)

/-- The logger whose appenders `Logger::log` goes through; the root has no `m_root`. -/
def through (logs : Logs) (name : String) (event : LogEvent) : Option String :=
  if event.level.value < (logs.loggers name).level.value then none
  else if (logs.loggers name).appenders ≠ [] then some name
  else if name = "root" then none
  else if event.level.value < (logs.loggers "root").level.value then none
  else if (logs.loggers "root").appenders ≠ [] then some "root"
  else none

/-- `Logger::log`, when the calls under way hold these locks. -/
def logHolding (name : String) (logs : Logs) : Logs × List Entry :=
  match logs.through name event with
  | none => (logs, [])
  | some logger =>
    if logger ∈ held.loggers then (logs.wait, [])
    else logs.logAll report { held with loggers := logger :: held.loggers } reported event
      (logs.loggers logger).appenders

end Calls

/-- `WYZE_LOG_ERROR(g_logger)`, at most so many calls inside each other. The level that the macro
checks is the one that `log` checks first. -/
def report : Nat → Held → LogEvent → Logs → Logs × List Entry
  | 0, _, _, logs => (logs.wait, [])
  | depth + 1, held, event, logs => logs.logHolding (report depth) held true event "system"

/-- No locks. -/
def noLocks : Held := ⟨[], []⟩

/-- `Logger::log`. -/
def log (logs : Logs) (name : String) (event : LogEvent) : Logs × List Entry :=
  logs.logHolding (report 2) noLocks false event name

/-- A new appender is in its place. -/
def begun (logs : Logs) (kind : AppenderKind) : Logs :=
  { logs with appenders := logs.appenders ++ [.begin kind] }

/-- The constructors. -/
def new (logs : Logs) (kind : AppenderKind) : Logs × List Entry :=
  match kind with
  | .stdout => (logs.begun kind, [])
  | .file filename =>
    (logs.begun kind).tryReopen (report 2) noLocks false logs.appenders.length filename

/-- A call that waits never returns, and no other follows it. -/
def step (logs : Logs) (label : LogLabel) : Option (Logs × List Entry) :=
  if logs.waiting then none
  else
    match label with
    | .make kind => some (logs.new kind)
    | .setAppenderLevel i level =>
      some (logs.modifyAppender i fun appender => { appender with level := level }, [])
    | .addAppender name i =>
      if i < logs.appenders.length then
        some (logs.configure name fun logger =>
          { logger with appenders := logger.appenders ++ [i] }, [])
      else none
    | .delAppender name i =>
      some (logs.configure name fun logger => { logger with appenders := logger.appenders.erase i }, [])
    | .clearAppenders name => some (logs.configure name fun logger => { logger with appenders := [] }, [])
    | .setLevel name level => some (logs.configure name fun logger => { logger with level := level }, [])
    | .log name event => some (logs.log name event)
    | .rotate filename =>
      some ({ logs with
        disk := { logs.disk with named := Function.update logs.disk.named filename none } }, [])
    | .change filename opening =>
      some ({ logs with
        disk := { logs.disk with opening := Function.update logs.disk.opening filename opening } }, [])
    | .clock now => some ({ logs with disk := { logs.disk with now := now } }, [])

/-! ### What a call keeps -/

/-- What the calls leave as it is: the loggers, the kinds and levels of the appenders, what opening a name
comes to and the clock; and a name that stands for a file goes on to do so. -/
structure Keeps (before after : Logs) : Prop where
  loggers : after.loggers = before.loggers
  appenders : after.appenders.map (fun appender => (appender.kind, appender.level)) =
    before.appenders.map fun appender => (appender.kind, appender.level)
  opening : after.disk.opening = before.disk.opening
  now : after.disk.now = before.disk.now
  named : ∀ filename file, before.disk.named filename = some file →
    after.disk.named filename = some file

theorem Keeps.refl (logs : Logs) : logs.Keeps logs := ⟨rfl, rfl, rfl, rfl, fun _ _ => id⟩

theorem Keeps.trans {first second third : Logs} (front : first.Keeps second)
    (back : second.Keeps third) : first.Keeps third where
  loggers := back.loggers.trans front.loggers
  appenders := back.appenders.trans front.appenders
  opening := back.opening.trans front.opening
  now := back.now.trans front.now
  named filename file same := back.named filename file (front.named filename file same)

/-- An appender stays what it is. -/
theorem Keeps.placed {before after : Logs} (kept : before.Keeps after) {i : Nat} {appender : Appender}
    (placed : before.appenders[i]? = some appender) :
    ∃ appender', after.appenders[i]? = some appender' ∧ appender'.kind = appender.kind ∧
      appender'.level = appender.level := by
  have same := congrArg (fun entries => entries[i]?) kept.appenders
  simp only [List.getElem?_map, placed] at same
  obtain ⟨appender', placed', pair⟩ := Option.map_eq_some_iff.mp same
  obtain ⟨kind, level⟩ := Prod.mk.inj pair
  exact ⟨appender', placed', kind, level⟩

theorem getElem?_modifyAppender (logs : Logs) (i j : Nat) (change : Appender → Appender) :
    (logs.modifyAppender i change).appenders[j]? =
      logs.appenders[j]?.map fun appender => if i = j then change appender else appender :=
  List.getElem?_modify ..

theorem getElem?_modifyAppender_of_ne (logs : Logs) {i j : Nat} (apart : i ≠ j)
    (change : Appender → Appender) :
    (logs.modifyAppender i change).appenders[j]? = logs.appenders[j]? :=
  List.getElem?_modify_ne change _ apart

theorem keeps_modifyAppender (logs : Logs) (i : Nat) {change : Appender → Appender}
    (kind : ∀ appender, (change appender).kind = appender.kind)
    (level : ∀ appender, (change appender).level = appender.level) :
    logs.Keeps (logs.modifyAppender i change) := by
  refine ⟨rfl, ?_, rfl, rfl, fun _ _ => id⟩
  apply List.ext_getElem?
  intro j
  rw [List.getElem?_map, List.getElem?_map, getElem?_modifyAppender]
  cases logs.appenders[j]? with
  | none => rfl
  | some appender =>
      rw [Option.map_some, Option.map_some, Option.map_some]
      by_cases same : i = j
      · rw [if_pos same, kind, level]
      · rw [if_neg same]

theorem openFile_named (disk : Disk) (filename : String) :
    (disk.openFile filename).2.named filename = some (disk.openFile filename).1 := by
  unfold Disk.openFile
  cases named : disk.named filename with
  | none => exact Function.update_self ..
  | some file => exact named

theorem keeps_openStream (logs : Logs) (i : Nat) (filename : String) :
    logs.Keeps (logs.openStream i filename) := by
  have modified : Keeps { logs with disk := (logs.disk.openFile filename).2 }
      (logs.openStream i filename) := keeps_modifyAppender _ i (fun _ => rfl) fun _ => rfl
  refine Keeps.trans ?_ modified
  have same : (logs.disk.openFile filename).2.opening = logs.disk.opening ∧
      (logs.disk.openFile filename).2.now = logs.disk.now := by
    unfold Disk.openFile
    cases logs.disk.named filename <;> exact ⟨rfl, rfl⟩
  refine ⟨rfl, rfl, same.1, same.2, fun other file named => ?_⟩
  show (logs.disk.openFile filename).2.named other = some file
  unfold Disk.openFile
  cases unnamed : logs.disk.named filename with
  | some _ => exact named
  | none =>
      have apart : other ≠ filename := by
        rintro rfl
        exact nomatch unnamed.symm.trans named
      exact (Function.update_of_ne apart ..).trans named

/-- Where the text of an appender goes. -/
def target (logs : Logs) (i : Nat) : Target :=
  match logs.appenders[i]?.bind Appender.stream with
  | none => .lost
  | some file => .file file

theorem writeStream_eq (reported : Bool) (event : LogEvent) (i : Nat) (logs : Logs) :
    (logs.writeStream reported event i).2 = [.wrote ⟨i, event, logs.target i, reported⟩] ∧
      logs.Keeps (logs.writeStream reported event i).1 ∧
      (logs.writeStream reported event i).1.appenders = logs.appenders := by
  unfold writeStream target
  cases logs.appenders[i]?.bind Appender.stream with
  | none => exact ⟨rfl, .refl logs, rfl⟩
  | some file => exact ⟨rfl, ⟨rfl, rfl, rfl, rfl, fun _ _ => id⟩, rfl⟩

/-! ### The effects of a call -/

section Calls

variable (report : Held → LogEvent → Logs → Logs × List Entry) (held : Held) (reported : Bool)

theorem tryReopen_of_opens (i : Nat) {filename : String} {logs : Logs}
    (opens : logs.disk.opening filename = .opens) :
    logs.tryReopen report held reported i filename = (logs.openStream i filename, []) := by
  unfold tryReopen reopen andThen
  rw [opens]
  dsimp only
  rw [if_pos rfl]
  split_ifs <;> rfl

theorem tryReopen_of_shut (i : Nat) {filename : String} {logs : Logs}
    (shut : logs.disk.opening filename ≠ .opens) :
    logs.tryReopen report held reported i filename =
      andThen (logs.reopen report held i filename) fun next => next.notOpen filename reported := by
  unfold tryReopen
  simp only [if_neg shut]

end Calls

/-- The stream of the appender is that of the file which has the name. -/
def Current (logs : Logs) (i : Nat) (filename : String) : Prop :=
  ∃ appender file, logs.appenders[i]? = some appender ∧ appender.stream = some file ∧
    logs.disk.named filename = some file

/-- **What a call does, one thing at a time.** A file appender writes when its file need not be opened
again, or behind an attempt to do so. -/
inductive Effect : Logs → Logs → List Entry → Prop
  | opened {logs : Logs} {i : Nat} {appender : Appender} {filename : String}
      (placed : logs.appenders[i]? = some appender) (kind : appender.kind = .file filename)
      (opens : logs.disk.opening filename = .opens) : Effect logs (logs.openStream i filename) []
  | closed {logs : Logs} {i : Nat} {appender : Appender} {filename : String}
      (placed : logs.appenders[i]? = some appender) (kind : appender.kind = .file filename)
      (shut : logs.disk.opening filename ≠ .opens) : Effect logs (logs.closeStream i) []
  | notOpen {logs : Logs} {filename : String} (shut : logs.disk.opening filename ≠ .opens)
      (reported : Bool) :
      Effect logs (logs.notOpen filename reported).1 (logs.notOpen filename reported).2
  | printed {logs : Logs} {i : Nat} {appender : Appender}
      (placed : logs.appenders[i]? = some appender) (kind : appender.kind = .stdout)
      (event : LogEvent) (reported : Bool) :
      Effect logs { logs with disk := logs.disk.print (.event event) }
        [.wrote ⟨i, event, .console, reported⟩]
  | wrote {logs : Logs} {i : Nat} {appender : Appender} {filename : String} {event : LogEvent}
      (placed : logs.appenders[i]? = some appender) (kind : appender.kind = .file filename)
      (early : appender.due event.time = false) (reported : Bool) :
      Effect logs (logs.writeStream reported event i).1 (logs.writeStream reported event i).2
  | timed {logs : Logs} {i : Nat} {appender : Appender} {filename : String} {event : LogEvent}
      (placed : logs.appenders[i]? = some appender) (kind : appender.kind = .file filename)
      (current : logs.disk.opening filename = .opens → logs.Current i filename) (reported : Bool) :
      Effect logs
        ((logs.modifyAppender i fun appender => { appender with lastTime := event.time }).writeStream
          reported event i).1
        ((logs.modifyAppender i fun appender => { appender with lastTime := event.time }).writeStream
          reported event i).2
  | waits (logs : Logs) : Effect logs logs.wait []

theorem Effect.keeps {logs next : Logs} {shown : List Entry} (effect : Effect logs next shown) :
    logs.Keeps next := by
  cases effect with
  | opened => exact keeps_openStream ..
  | closed => exact keeps_modifyAppender _ _ (fun _ => rfl) fun _ => rfl
  | notOpen => exact ⟨rfl, rfl, rfl, rfl, fun _ _ => id⟩
  | printed => exact ⟨rfl, rfl, rfl, rfl, fun _ _ => id⟩
  | wrote => exact (writeStream_eq ..).2.1
  | timed =>
      refine Keeps.trans ?_ (writeStream_eq ..).2.1
      exact keeps_modifyAppender _ _ (fun _ => rfl) fun _ => rfl
  | waits => exact ⟨rfl, rfl, rfl, rfl, fun _ _ => id⟩

/-- The effects of a call, one after the other. -/
abbrev Effects : Logs → Logs → List Entry → Prop := Chain Effect

theorem Effects.keeps {logs next : Logs} {shown : List Entry} (effects : Effects logs next shown) :
    logs.Keeps next :=
  @Chain.invariant _ _ Effect _ _ _ (fun reached _ => logs.Keeps reached)
    (fun _ _ _ _ kept effect => kept.trans effect.keeps) effects [] (.refl logs)

theorem andThen_chain {logs : Logs} {done : Logs × List Entry} {next : Logs → Logs × List Entry}
    (front : Effects logs done.1 done.2) (back : Effects done.1 (next done.1).1 (next done.1).2) :
    Effects logs (andThen done next).1 (andThen done next).2 := by
  unfold andThen
  by_cases waits : done.1.waiting = true
  · rw [if_pos waits]
    exact front
  · rw [if_neg waits]
    exact front.trans back

/-- An appender whose file can be opened is at the file. -/
theorem current_openStream {logs : Logs} {i : Nat} {appender : Appender} (filename : String)
    (placed : logs.appenders[i]? = some appender) : (logs.openStream i filename).Current i filename := by
  refine ⟨{ appender with stream := some (logs.disk.openFile filename).1 },
    (logs.disk.openFile filename).1, ?_, rfl, openFile_named logs.disk filename⟩
  refine (getElem?_modifyAppender ..).trans ?_
  rw [show Logs.appenders _ = logs.appenders from rfl, placed, Option.map_some, if_pos rfl]

section Calls

variable {report : Held → LogEvent → Logs → Logs × List Entry}
  (chains : ∀ held event logs, Effects logs (report held event logs).1 (report held event logs).2)
  (held : Held) (reported : Bool) {logs : Logs}

theorem tryReopen_current {i : Nat} {appender : Appender} {filename : String}
    (placed : logs.appenders[i]? = some appender) (opens : logs.disk.opening filename = .opens) :
    (logs.tryReopen report held reported i filename).1.Current i filename := by
  rw [tryReopen_of_opens _ _ _ _ opens]
  exact current_openStream filename placed

include chains

theorem reopen_chain {i : Nat} {appender : Appender} {filename : String}
    (placed : logs.appenders[i]? = some appender) (kind : appender.kind = .file filename) :
    Effects logs (logs.reopen report held i filename).1 (logs.reopen report held i filename).2 := by
  unfold reopen
  cases opening : logs.disk.opening filename with
  | opens => exact .single (.opened placed kind opening)
  | refused => exact .single (.closed placed kind (by rw [opening]; exact nofun))
  | noDirectory errno errstr =>
      exact .head (.closed placed kind (by rw [opening]; exact nofun)) (chains _ _ _)

theorem tryReopen_chain {i : Nat} {appender : Appender} {filename : String}
    (placed : logs.appenders[i]? = some appender) (kind : appender.kind = .file filename) :
    Effects logs (logs.tryReopen report held reported i filename).1
      (logs.tryReopen report held reported i filename).2 := by
  by_cases shut : logs.disk.opening filename = .opens
  · rw [tryReopen_of_opens _ _ _ _ shut]
    exact .single (.opened placed kind shut)
  · have front := reopen_chain chains held placed kind
    rw [tryReopen_of_shut _ _ _ _ shut]
    refine andThen_chain front (.single (.notOpen ?_ reported))
    rw [front.keeps.opening]
    exact shut

variable (event : LogEvent)

theorem logFile_chain {i : Nat} {appender : Appender} {filename : String}
    (placed : logs.appenders[i]? = some appender) (kind : appender.kind = .file filename) :
    Effects logs (logs.logFile report held reported event i appender filename).1
      (logs.logFile report held reported event i appender filename).2 := by
  unfold logFile
  by_cases due : appender.due event.time = true
  · rw [if_pos due]
    have front := tryReopen_chain chains held reported placed kind
    obtain ⟨appender', placed', kind', _⟩ := front.keeps.placed placed
    refine andThen_chain front (.single (.timed placed' (kind'.trans kind) ?_ reported))
    rw [front.keeps.opening]
    exact tryReopen_current held reported placed
  · rw [if_neg due]
    exact .single (.wrote placed kind (Bool.eq_false_iff.mpr due) reported)

theorem logOne_chain (i : Nat) :
    Effects logs (logs.logOne report held reported event i).1
      (logs.logOne report held reported event i).2 := by
  unfold logOne
  cases placed : logs.appenders[i]? with
  | none => exact .refl logs
  | some appender =>
      dsimp only
      split_ifs with low locked
      · exact .refl logs
      · exact .single (.waits logs)
      · cases kind : appender.kind with
        | stdout => exact .single (.printed placed kind event reported)
        | file filename => exact logFile_chain chains held reported event placed kind

theorem logAll_chain (ids : List Nat) : ∀ logs : Logs,
    Effects logs (logAll report held reported event ids logs).1
      (logAll report held reported event ids logs).2 := by
  induction ids with
  | nil => exact fun logs => .refl logs
  | cons i ids ih =>
      exact fun logs => andThen_chain (logOne_chain chains held reported event i) (ih _)

theorem logHolding_chain (name : String) (logs : Logs) :
    Effects logs (logs.logHolding report held reported event name).1
      (logs.logHolding report held reported event name).2 := by
  unfold logHolding
  cases logs.through name event with
  | none => exact .refl logs
  | some logger =>
      dsimp only
      split_ifs
      · exact .single (.waits logs)
      · exact logAll_chain chains _ reported event _ logs

end Calls

theorem report_chain (depth : Nat) : ∀ (held : Held) (event : LogEvent) (logs : Logs),
    Effects logs (report depth held event logs).1 (report depth held event logs).2 := by
  induction depth with
  | zero => exact fun _ _ logs => .single (.waits logs)
  | succ depth ih => exact fun held event logs => logHolding_chain ih held true event "system" logs

/-- **What `Logger::log` does** is a sequence of effects. -/
theorem log_chain (logs : Logs) (name : String) (event : LogEvent) :
    Effects logs (logs.log name event).1 (logs.log name event).2 :=
  logHolding_chain (report_chain 2) noLocks false event name logs

/-- **What a constructor does**, with the appender in its place, is a sequence of effects. -/
theorem new_chain (logs : Logs) (kind : AppenderKind) :
    Effects (logs.begun kind) (logs.new kind).1 (logs.new kind).2 := by
  cases kind with
  | stdout => exact .refl _
  | file filename =>
      exact @tryReopen_chain _ (report_chain 2) noLocks false _ logs.appenders.length
        (.begin (.file filename)) filename List.getElem?_concat_length rfl

/-! ### Two levels of calls -/

theorem through_congr {logs logs' : Logs} {event event' : LogEvent} (name : String)
    (loggers : logs'.loggers = logs.loggers) (level : event'.level = event.level) :
    logs'.through name event' = logs.through name event := by
  unfold through
  rw [loggers, level]

/-- Two ways to report do the same in the calls that hold these locks. -/
def Agree (loggers : String → Sink) (locked : List String)
    (report report' : Held → LogEvent → Logs → Logs × List Entry) : Prop :=
  ∀ held event logs, logs.loggers = loggers → held.loggers = locked → event.level = .error →
    report held event logs = report' held event logs

theorem andThen_congr {done done' : Logs × List Entry} {next next' : Logs → Logs × List Entry}
    (same : done = done') (later : next done.1 = next' done.1) :
    andThen done next = andThen done' next' := by
  subst same
  unfold andThen
  rw [later]

section Agree

variable {report report' : Held → LogEvent → Logs → Logs × List Entry} {loggers : String → Sink}
  {held : Held} (agree : Agree loggers held.loggers report report')
  (chains : ∀ held event logs, Effects logs (report held event logs).1 (report held event logs).2)

include agree

theorem tryReopen_congr (reported : Bool) (i : Nat) (filename : String) {logs : Logs}
    (same : logs.loggers = loggers) :
    logs.tryReopen report held reported i filename =
      logs.tryReopen report' held reported i filename := by
  refine andThen_congr ?_ rfl
  unfold reopen
  cases logs.disk.opening filename with
  | opens => rfl
  | refused => rfl
  | noDirectory errno errstr => exact agree _ _ _ same rfl rfl

theorem logOne_congr (reported : Bool) (event : LogEvent) (i : Nat) {logs : Logs}
    (same : logs.loggers = loggers) :
    logs.logOne report held reported event i = logs.logOne report' held reported event i := by
  unfold logOne
  cases logs.appenders[i]? with
  | none => rfl
  | some appender =>
      dsimp only
      cases appender.kind with
      | stdout => rfl
      | file filename =>
          dsimp only
          unfold logFile
          rw [tryReopen_congr agree reported i filename same]

include chains

theorem logAll_congr (reported : Bool) (event : LogEvent) (ids : List Nat) : ∀ logs : Logs,
    logs.loggers = loggers → logAll report held reported event ids logs =
      logAll report' held reported event ids logs := by
  induction ids with
  | nil => exact fun _ _ => rfl
  | cons i ids ih =>
      intro logs same
      refine andThen_congr (logOne_congr agree reported event i same) (ih _ ?_)
      exact (logOne_chain chains held reported event i).keeps.loggers.trans same

end Agree

/-- A call whose logger is locked waits. -/
theorem report_locked (depth : Nat) {held : Held} {event : LogEvent} {logs : Logs} {logger : String}
    (through : logs.through "system" event = some logger) (locked : logger ∈ held.loggers) :
    report (depth + 1) held event logs = (logs.wait, []) := by
  rw [report, logHolding, through]
  exact if_pos locked

/-- **An error that is logged while an error is logged waits**: it would go through the logger that the
first one is going through. -/
theorem agree_report (depth : Nat) {held : Held} {event : LogEvent} {logs : Logs} {logger : String}
    (level : event.level = .error) (through : logs.through "system" event = some logger)
    (locked : logger ∈ held.loggers) :
    Agree logs.loggers held.loggers (report (depth + 1)) (report 1) := by
  intro held' event' logs' loggers same level'
  have through' : logs'.through "system" event' = some logger :=
    (through_congr "system" loggers (level'.trans level.symm)).trans through
  have locked' : logger ∈ held'.loggers := same ▸ locked
  rw [report_locked depth through' locked', report_locked 0 through' locked']

theorem report_depth (depth : Nat) {held : Held} {event : LogEvent} {logs : Logs}
    (level : event.level = .error) : report (depth + 2) held event logs = report 2 held event logs := by
  rw [report, report, logHolding, logHolding]
  cases through : logs.through "system" event with
  | none => rfl
  | some logger =>
      dsimp only
      by_cases locked : logger ∈ held.loggers
      · rw [if_pos locked, if_pos locked]
      · rw [if_neg locked, if_neg locked]
        exact logAll_congr (agree_report depth level through List.mem_cons_self)
          (report_chain (depth + 1)) true event _ logs rfl

/-- **Two levels are enough**: with more of them a call does the same. -/
theorem log_depth (depth : Nat) (logs : Logs) (name : String) (event : LogEvent) :
    logs.logHolding (report (depth + 2)) noLocks false event name = logs.log name event := by
  rw [log, logHolding, logHolding]
  cases logs.through name event with
  | none => rfl
  | some logger =>
      have agree (held : Held) : Agree logs.loggers held.loggers (report (depth + 2)) (report 2) :=
        fun _ _ _ _ _ level => report_depth depth level
      exact logAll_congr (agree ⟨[logger], []⟩) (report_chain (depth + 2)) false event _ logs rfl

theorem new_depth (depth : Nat) (logs : Logs) (i : Nat) (filename : String) :
    logs.tryReopen (report (depth + 2)) noLocks false i filename =
      logs.tryReopen (report 2) noLocks false i filename :=
  @tryReopen_congr _ _ logs.loggers noLocks (fun _ _ _ _ _ level => report_depth depth level) false i
    filename _ rfl

/-! ### Steps -/

/-- Nothing happens to the name. -/
def Calm (filename : String) : LogLabel → Prop
  | .rotate other | .change other _ => other ≠ filename
  | _ => True

/-- A step that is no call of a log: nothing is written, the appenders keep their streams and times, and so
do the names to which nothing happens. -/
structure Still (logs : Logs) (label : LogLabel) (next : Logs) : Prop where
  written : next.disk.written = logs.disk.written
  console : next.disk.console = logs.disk.console
  appenders : next.appenders.map (fun appender => (appender.kind, appender.lastTime, appender.stream)) =
    logs.appenders.map fun appender => (appender.kind, appender.lastTime, appender.stream)
  calm : ∀ filename, Calm filename label → next.disk.opening filename = logs.disk.opening filename ∧
    next.disk.named filename = logs.disk.named filename

theorem Still.of_same {logs next : Logs} {label : LogLabel} (disk : next.disk = logs.disk)
    (appenders : next.appenders = logs.appenders) : Still logs label next := by
  refine ⟨?_, ?_, ?_, fun filename _ => ?_⟩
  · rw [disk]
  · rw [disk]
  · rw [appenders]
  · rw [disk]
    exact ⟨rfl, rfl⟩

/-- **What a step is**: a constructor, a call of `log`, or a change that writes nothing. -/
theorem step_cases {logs : Logs} {label : LogLabel} {next : Logs × List Entry}
    (stepped : step logs label = some next) :
    (∃ kind, label = .make kind ∧ next = logs.new kind) ∨
      (∃ name event, label = .log name event ∧ next = logs.log name event) ∨
      next.2 = [] ∧ Still logs label next.1 := by
  unfold step at stepped
  obtain ⟨_, stepped⟩ := Option.ite_none_left_eq_some.mp stepped
  cases label with
  | make kind => exact Or.inl ⟨kind, rfl, (Option.some.inj stepped).symm⟩
  | log name event => exact Or.inr (Or.inl ⟨name, event, rfl, (Option.some.inj stepped).symm⟩)
  | setAppenderLevel i level =>
      cases stepped
      refine Or.inr (Or.inr ⟨rfl, rfl, rfl, ?_, fun _ _ => ⟨rfl, rfl⟩⟩)
      apply List.ext_getElem?
      intro j
      rw [List.getElem?_map, List.getElem?_map, getElem?_modifyAppender]
      cases logs.appenders[j]? with
      | none => rfl
      | some appender =>
          rw [Option.map_some, Option.map_some, Option.map_some]
          split <;> rfl
  | addAppender name i =>
      obtain ⟨_, same⟩ := Option.ite_none_right_eq_some.mp stepped
      cases same
      exact Or.inr (Or.inr ⟨rfl, .of_same rfl rfl⟩)
  | delAppender name i =>
      cases stepped
      exact Or.inr (Or.inr ⟨rfl, .of_same rfl rfl⟩)
  | clearAppenders name =>
      cases stepped
      exact Or.inr (Or.inr ⟨rfl, .of_same rfl rfl⟩)
  | setLevel name level =>
      cases stepped
      exact Or.inr (Or.inr ⟨rfl, .of_same rfl rfl⟩)
  | rotate other =>
      cases stepped
      refine Or.inr (Or.inr ⟨rfl, rfl, rfl, rfl, fun filename calm => ⟨rfl, ?_⟩⟩)
      exact Function.update_of_ne (Ne.symm calm) ..
  | change other opening =>
      cases stepped
      refine Or.inr (Or.inr ⟨rfl, rfl, rfl, rfl, fun filename calm => ⟨?_, rfl⟩⟩)
      exact Function.update_of_ne (Ne.symm calm) ..
  | clock now =>
      cases stepped
      exact Or.inr (Or.inr ⟨rfl, rfl, rfl, rfl, fun _ _ => ⟨rfl, rfl⟩⟩)

end Logs

end Wyze.Log
