/-
**The parsers of the HTTP connections, and a small instance of each.**

`HttpRequestParser` and `HttpResponseParser` wrap state machines of some hundred states that a tool
has generated. The connections use little of them: they stop at the end of a head (or of a
chunk-size line), they count the bytes up to there, and some values are read off what they have
built. `RequestParser` and `ResponseParser` are these interfaces; the connections are modelled for
every one of them.

`LineParser` is an instance that reads heads line by line, as the generated machines do on heads
without errors.
-/
import Wyze.Http.ReadLoop

namespace Wyze.Http

/-- `HttpRequestParser`: the machine, and what is read off the request it has built. -/
structure RequestParser (σ ρ : Type*) extends Scanner σ UInt8 where
  init : σ
  getData : σ → ρ
  getContentLength : σ → Nat
  connection : σ → List UInt8

/-- `HttpResponseParser`: the machine with the fields of `httpclient_parser` that are used. `reset`
starts the machine again and keeps the response that is built. -/
structure ResponseParser (σ ρ : Type*) extends Scanner σ UInt8 where
  init : σ
  reset : σ → σ
  getData : σ → ρ
  chunked : σ → Bool
  contentLen : σ → Int
  chunksDone : σ → Bool
  getContentLength : σ → Nat
  connection : σ → List UInt8

/-! ### `getIsClose` -/

/-- The bytes of a text of ASCII characters. -/
def ascii (text : String) : List UInt8 := text.toList.map fun char => UInt8.ofNat char.toNat

/-- `tolower`. -/
def toLower (byte : UInt8) : UInt8 := if 65 ≤ byte ∧ byte ≤ 90 then byte + 32 else byte

/-- `strncasecmp(first, second, count) == 0`, the strings without the byte 0 that ends them. -/
def equalNoCase : Nat → List UInt8 → List UInt8 → Bool
  | 0, _, _ => true
  | count + 1, first, second =>
    if toLower (first.headD 0) ≠ toLower (second.headD 0) then false
    else if first.headD 0 = 0 then true
    else equalNoCase count first.tail second.tail

/-- `getIsClose`: the first `str.length()` characters of the `Connection` header are compared. -/
def isClose (connection : List UInt8) : Bool :=
  equalNoCase connection.length connection (ascii "close")

/-- Without a `Connection` header the message counts as the last one. -/
example : isClose [] = true ∧ isClose (ascii "Keep-Alive") = false := by decide

/-! ### Reading heads line by line -/

namespace LineParser

/-- Where a line parser is: before the first byte, in a head, or in a chunk-size line. -/
inductive Mode where
  | start | head | size
  deriving DecidableEq, Repr

/-- The lines of the message so far, the unfinished line, and the fields of `httpclient_parser`. -/
structure State where
  lines : List (List UInt8)
  line : List UInt8
  mode : Mode
  complete : Bool
  bad : Bool
  chunked : Bool
  contentLen : Int
  chunksDone : Bool
  deriving DecidableEq, Repr

/-- More of the unfinished line. -/
def State.collect (state : State) (bytes : List UInt8) : State :=
  { state with line := state.line ++ bytes }

/-- `http_parser_init`, `httpclient_parser_init`. -/
def init : State := ⟨[], [], .start, false, false, false, -1, false⟩

/-- The machine starts again; the message built so far stays. -/
def reset (state : State) : State := { init with lines := state.lines }

/-- A line without the carriage return at its end. -/
def stripReturn (line : List UInt8) : List UInt8 :=
  if line.getLast? = some 13 then line.dropLast else line

/-- The value of the last header of that name, which is given in small letters. -/
def header (name : List UInt8) (lines : List (List UInt8)) : Option (List UInt8) :=
  lines.tail.reverse.findSome? fun line =>
    let field := line.takeWhile (· ≠ 58)
    if field.map toLower = name ∧ field.length < line.length then
      some ((line.drop (field.length + 1)).dropWhile (· = 32))
    else none

/-- `getHeaderAs<uint64_t>(name, 0)`. -/
def number (value : Option (List UInt8)) : Nat :=
  match value with
  | none => 0
  | some digits =>
    if digits.all fun byte => 48 ≤ byte ∧ byte ≤ 57 then
      digits.foldl (fun total byte => total * 10 + (byte.toNat - 48)) 0
    else 0

/-- The value of a hexadecimal digit. -/
def hexValue (byte : UInt8) : Option Nat :=
  if 48 ≤ byte ∧ byte ≤ 57 then some (byte.toNat - 48)
  else if 97 ≤ toLower byte ∧ toLower byte ≤ 102 then some ((toLower byte).toNat - 87)
  else none

/-- `strtol(text, NULL, 16)` as an `int`. -/
def hexNumber (digits : List UInt8) : Int :=
  toInt32 (min (digits.foldl (fun total byte => total * 16 + (hexValue byte).getD 0) 0) (2 ^ 63 - 1))

/-- The head has a header `Transfer-Encoding: chunked`. -/
def isChunked (lines : List (List UInt8)) : Bool :=
  (header (ascii "transfer-encoding") lines).map (·.map toLower) = some (ascii "chunked")

/-- A line feed ends a line: an empty line ends the head, another one is kept. -/
def endLine (state : State) : State :=
  if stripReturn state.line = [] then
    { state with line := [], complete := true, chunked := isChunked state.lines }
  else { state with lines := state.lines ++ [stripReturn state.line], line := [] }

/-- A line feed ends a chunk-size line of hexadecimal digits. -/
def endSize (state : State) : State :=
  if (stripReturn state.line).all fun byte => (hexValue byte).isSome then
    { state with
      line := []
      complete := true
      chunked := true
      contentLen := hexNumber (stripReturn state.line)
      chunksDone := hexNumber (stripReturn state.line) ≤ 0 }
  else { state with bad := true }

/-- One byte. The machine of the responses takes a message that begins with a digit for a chunk-size
line. -/
def step (sizes : Bool) (state : State) (byte : UInt8) : State :=
  match state.mode with
  | .start =>
    if byte = 10 ∨ byte = 13 then { state with bad := true }
    else if sizes && (hexValue byte).isSome then { state with line := [byte], mode := .size }
    else { state with line := [byte], mode := .head }
  | .head => if byte = 10 then endLine state else state.collect [byte]
  | .size => if byte = 10 then endSize state else state.collect [byte]

/-- The line parser of the requests. -/
def request : RequestParser State (List (List UInt8)) where
  init := init
  step := step false
  finished := State.complete
  failed := State.bad
  getData := State.lines
  getContentLength := fun state => number (header (ascii "content-length") state.lines)
  connection := fun state => (header (ascii "connection") state.lines).getD []

/-- The line parser of the responses. -/
def response : ResponseParser State (List (List UInt8)) where
  init := init
  step := step true
  finished := State.complete
  failed := State.bad
  reset := reset
  getData := State.lines
  chunked := State.chunked
  contentLen := State.contentLen
  chunksDone := State.chunksDone
  getContentLength := fun state => number (header (ascii "content-length") state.lines)
  connection := fun state => (header (ascii "connection") state.lines).getD []

/-- The bytes of a head. -/
def encode (lines : List (List UInt8)) : List UInt8 :=
  (lines.map (· ++ [13, 10])).flatten ++ [13, 10]

/-- The state after the blank line of a head. -/
def State.endedHead (state : State) (lines : List (List UInt8)) : State :=
  { state with
    lines := state.lines ++ lines, line := [], complete := true,
    chunked := isChunked (state.lines ++ lines) }

end LineParser

end Wyze.Http
