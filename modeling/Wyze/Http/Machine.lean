/-
**The generated parsers of a message head, and the callbacks that build the message.**

`http_parser` and `httpclient_parser` are state machines with actions. Both read a first line and then
header lines, up to the empty line; `HeaderState` is the part they have in common, `RequestState` and
`ResponseState` are their first lines. An action sets a mark, or calls back with the text since a mark.
`HttpRequestParser` and `HttpResponseParser` are these machines with their callbacks.

What is not modelled of the grammars is the state `beyond`, in which a machine stays: the messages of
`SocketRequest`, the forms of `URI_reference` other than `path_absolute`, the chunk-size lines, and
what the alternatives of `message_header` make of a field without a value whose next line is no field.
-/
import Wyze.Http.Message
import Wyze.Lib.Transducer

namespace Wyze.Http.Message

/-! ### Actions -/

/-- The actions of the two grammars. -/
inductive Action where
  | mark | startField | writeField | writeValue
  | requestMethod | requestUri | fragment | startQuery | queryString | httpVersion | requestPath
  | reasonPhrase | statusCode | done
  deriving DecidableEq, Repr

/-- The marks of a parser, each as the text since it, and the data of the callbacks. -/
structure Memory (δ : Type) where
  mark : List UInt8
  fieldStart : List UInt8
  fieldLen : Nat
  queryStart : List UInt8
  data : δ

/-- `http_parser_init`, `httpclient_parser_init`. -/
def Memory.init {δ : Type} (data : δ) : Memory δ := ⟨[], [], 0, [], data⟩

/-- One more byte is behind every mark. -/
def Memory.consume {δ : Type} (memory : Memory δ) (byte : UInt8) : Memory δ :=
  { memory with
    mark := memory.mark ++ [byte]
    fieldStart := memory.fieldStart ++ [byte]
    queryStart := memory.queryStart ++ [byte] }

/-- A callback changes the data. -/
def Memory.call {δ : Type} (memory : Memory δ) (callback : δ → δ) : Memory δ :=
  { memory with data := callback memory.data }

/-- The callbacks of a parser; those that are `NULL` leave the data alone. -/
structure Callbacks (δ : Type) where
  httpField : List UInt8 → List UInt8 → δ → δ
  requestMethod : List UInt8 → δ → δ
  fragment : List UInt8 → δ → δ
  requestPath : List UInt8 → δ → δ
  queryString : List UInt8 → δ → δ
  httpVersion : List UInt8 → δ → δ
  reasonPhrase : List UInt8 → δ → δ
  statusCode : List UInt8 → δ → δ

/-- What an action does. The callbacks for the whole URI and for the end of the head are empty. -/
def Callbacks.perform {δ : Type} (callbacks : Callbacks δ) (memory : Memory δ) : Action → Memory δ
  | .mark => { memory with mark := [] }
  | .startField => { memory with fieldStart := [] }
  | .writeField => { memory with fieldLen := memory.fieldStart.length }
  | .writeValue =>
    memory.call (callbacks.httpField (memory.fieldStart.take memory.fieldLen) memory.mark)
  | .requestMethod => memory.call (callbacks.requestMethod memory.mark)
  | .requestUri => memory
  | .fragment => memory.call (callbacks.fragment memory.mark)
  | .startQuery => { memory with queryStart := [] }
  | .queryString => memory.call (callbacks.queryString memory.queryStart)
  | .httpVersion => memory.call (callbacks.httpVersion memory.mark)
  | .requestPath => memory.call (callbacks.requestPath memory.mark)
  | .reasonPhrase => memory.call (callbacks.reasonPhrase memory.mark)
  | .statusCode => memory.call (callbacks.statusCode memory.mark)
  | .done => memory

/-! ### Header lines -/

/-- A letter. -/
def isAlpha (byte : UInt8) : Bool := (65 ≤ byte && byte ≤ 90) || (97 ≤ byte && byte ≤ 122)

/-- A hexadecimal digit. -/
def isXdigit (byte : UInt8) : Bool :=
  isDigit byte || (65 ≤ byte && byte ≤ 70) || (97 ≤ byte && byte ≤ 102)

/-- `HTTP_separator` and `tspecials`, which are the same bytes. -/
def isSeparator (byte : UInt8) : Bool := (ascii "()<>@,;:\\\"/[]?=\x7b\x7d \t").contains byte

/-- A byte of a token: ASCII without the control characters and the separators. -/
def isToken (byte : UInt8) : Bool := 32 ≤ byte && byte < 127 && !isSeparator byte

theorem isToken_iff {byte : UInt8} :
    isToken byte = true ↔ 32 ≤ byte ∧ byte < 127 ∧ isSeparator byte = false := by
  simp [isToken, and_assoc]

/-- In what the header lines of the two grammars differ: the bytes of a name, the bytes that are
skipped before a value, the bytes that cannot stand in a value, and the names of the fields that
`message_header` has further alternatives for. In both of them the colon ends a name, the space is a
blank, tokens are names, and what is visible stands in a value. -/
structure HeaderGrammar where
  isToken : UInt8 → Bool
  isBlank : UInt8 → Bool
  isBarred : UInt8 → Bool
  alternatives : List (List UInt8)
  colon : isToken 58 = false
  space : isBlank 32 = true ∧ isBarred 32 = false
  token : ∀ byte, Message.isToken byte = true → isToken byte = true
  visible : ∀ byte, 33 ≤ byte → byte < 127 → isBlank byte = false ∧ isBarred byte = false

/-- Where a machine is in the header lines. A state is `folded` when the field before it has no value
and an alternative of its own, which may go on in this line (and then sets a mark that the next field
sets again). -/
inductive HeaderState where
  | line (folded : Bool)
  | name (folded : Bool) (text : List UInt8)
  | colon (folded : Bool)
  | value
  | newline (folded : Bool)
  | last (folded : Bool)
  | done
  | error
  | beyond
  deriving DecidableEq, Repr

/-- No field goes on so. -/
def HeaderState.refuse (folded : Bool) : List Action × HeaderState :=
  ([], if folded then .beyond else .error)

/-- The end of the empty line. -/
def HeaderState.finish (folded : Bool) (enter : List Action) : List Action × HeaderState :=
  if folded then ([], .beyond) else (enter ++ [.done], .done)

/-- A byte that can begin a name starts a field, although it may end the head. -/
def HeaderGrammar.enter (grammar : HeaderGrammar) (byte : UInt8) : List Action :=
  if grammar.isToken byte then [.startField] else []

/-- Inside a name, which is kept in small letters. -/
def HeaderState.nameNext (grammar : HeaderGrammar) (folded : Bool) (text : List UInt8)
    (byte : UInt8) : List Action × HeaderState :=
  if grammar.isToken byte then ([], .name folded (text ++ [toLower byte]))
  else if byte = 58 then ([.writeField], .colon (grammar.alternatives.contains text))
  else refuse folded

/-- The transitions of `(message_header)* CRLF`. -/
def HeaderState.next (grammar : HeaderGrammar) :
    HeaderState → UInt8 → List Action × HeaderState
  | .line folded, byte =>
    if byte = 10 then finish folded (grammar.enter byte)
    else if byte = 13 then (grammar.enter byte, .last folded)
    else if grammar.isToken byte then (grammar.enter byte, .name folded [toLower byte])
    else refuse folded
  | .name folded text, byte => nameNext grammar folded text byte
  | .colon folded, byte =>
    if byte = 10 then ([.mark, .writeValue], .line folded)
    else if byte = 13 then ([.mark, .writeValue], .newline folded)
    else if grammar.isBarred byte then ([], .error)
    else ([.mark], if grammar.isBlank byte then .colon folded else .value)
  | .value, byte =>
    if byte = 10 then ([.writeValue], .line false)
    else if byte = 13 then ([.writeValue], .newline false)
    else if grammar.isBarred byte then ([], .error)
    else ([], .value)
  | .newline folded, byte => if byte = 10 then ([], .line folded) else refuse folded
  | .last folded, byte =>
    if byte = 10 then finish folded []
    else if grammar.isToken 13 then nameNext grammar folded [13] byte
    else refuse folded
  | .done, _ | .error, _ => ([], .error)
  | .beyond, _ => ([], .beyond)

/-! ### Heads -/

/-- The first line of one kind of messages, and their header lines. -/
structure Grammar (φ : Type) where
  firstLine : φ → UInt8 → List Action × (φ ⊕ HeaderState)
  headers : HeaderGrammar

variable {φ δ : Type}

/-- `main := (First_Line (message_header)* CRLF) @done`. -/
def Grammar.next (grammar : Grammar φ) : φ ⊕ HeaderState → UInt8 → List Action × (φ ⊕ HeaderState)
  | .inl state, byte => grammar.firstLine state byte
  | .inr state, byte =>
    ((state.next grammar.headers byte).1, .inr (state.next grammar.headers byte).2)

/-- `is_finished`. -/
def isFinal : φ ⊕ HeaderState → Bool
  | .inr .done => true
  | _ => false

/-- `has_error`. -/
def isError : φ ⊕ HeaderState → Bool
  | .inr .error => true
  | _ => false

/-- The generated parser. -/
def Grammar.machine (grammar : Grammar φ) (callbacks : Callbacks δ) :
    Transducer (φ ⊕ HeaderState) UInt8 Action (Memory δ) where
  next := grammar.next
  perform := callbacks.perform
  consume := Memory.consume
  finished := isFinal
  failed := isError

/-! ### The request line -/

/-- The parts of a URI. -/
inductive Part where
  | path | query | fragment
  deriving DecidableEq, Repr

/-- Where `http_parser` is in the request line. `inside` a part, `fresh` is its very beginning. -/
inductive RequestState where
  | start
  | method (count : Nat)
  | target
  | root
  | inside (part : Part) (fresh : Bool)
  | percent (part : Part)
  | xdigit (part : Part)
  | version
  | protocol (left : List UInt8)
  | minor
  | newline
  deriving DecidableEq, Repr

/-- `pchar` without the percent-encoded bytes; `more_delims` are in it if `uri_relaxed` is set. -/
def isPchar (relaxed : Bool) (byte : UInt8) : Bool :=
  isAlpha byte || isDigit byte || (ascii "-._~!$&'()*+,;=:@").contains byte ||
    (relaxed && (ascii "\x7b\x7d^").contains byte)

/-- The bytes that stand for themselves in a part. -/
def Part.isPlain (part : Part) (relaxed : Bool) (byte : UInt8) : Bool :=
  isPchar relaxed byte || byte = 47 || (byte = 63 && part ≠ .path)

/-- What is done at the beginning of a part. -/
def Part.enter : Part → List Action
  | .path => []
  | .query => [.startQuery]
  | .fragment => [.mark]

/-- How a part ends: with the space, or with the sign that begins another part. -/
def Part.leave : Part → UInt8 → Option (List Action × RequestState)
  | .path, 32 => some ([.requestPath, .requestUri], .version)
  | .path, 35 => some ([.requestPath, .requestUri], .inside .fragment true)
  | .path, 63 => some ([.requestPath], .inside .query true)
  | .query, 32 => some ([.queryString, .requestUri], .version)
  | .query, 35 => some ([.queryString, .requestUri], .inside .fragment true)
  | .fragment, 32 => some ([.fragment], .version)
  | _, _ => none

/-- Inside a part of the URI. -/
def RequestState.insideNext (relaxed : Bool) (part : Part) (fresh : Bool) (byte : UInt8) :
    List Action × (RequestState ⊕ HeaderState) :=
  let enter := if fresh then part.enter else []
  if part.isPlain relaxed byte then (enter, .inl (.inside part false))
  else if byte = 37 then (enter, .inl (.percent part))
  else match part.leave byte with
    | some (actions, state) => (enter ++ actions, .inl state)
    | none => ([], .inr .error)

/-- `upper | digit`. -/
def isMethodByte (byte : UInt8) : Bool := (65 ≤ byte && byte ≤ 90) || isDigit byte

/-- The transitions of `Request_Line`. -/
def RequestState.next (relaxed : Bool) :
    RequestState → UInt8 → List Action × (RequestState ⊕ HeaderState)
  | .start, byte =>
    if isMethodByte byte then ([.mark], .inl (.method 1))
    -- `SocketXML` and `SocketJSON`
    else if byte = 60 || byte = 64 then ([], .inr .beyond)
    else ([], .inr .error)
  | .method count, byte =>
    if byte = 32 then ([.requestMethod], .inl .target)
    else if isMethodByte byte && count < 20 then ([], .inl (.method (count + 1)))
    else ([], .inr .error)
  | .target, byte => if byte = 47 then ([.mark], .inl .root) else ([], .inr .beyond)
  -- a second slash begins an authority
  | .root, byte => if byte = 47 then ([], .inr .beyond) else insideNext relaxed .path false byte
  | .inside part fresh, byte => insideNext relaxed part fresh byte
  | .percent part, byte => if isXdigit byte then ([], .inl (.xdigit part)) else ([], .inr .error)
  | .xdigit part, byte =>
    if isXdigit byte then ([], .inl (.inside part false)) else ([], .inr .error)
  | .version, byte =>
    if byte = 72 then ([.mark], .inl (.protocol (ascii "TTP/1."))) else ([], .inr .error)
  | .protocol left, byte =>
    if left.head? ≠ some byte then ([], .inr .error)
    else ([], .inl (if left.tail.isEmpty then .minor else .protocol left.tail))
  | .minor, byte => if byte = 48 || byte = 49 then ([], .inl .newline) else ([], .inr .error)
  | .newline, byte =>
    if byte = 10 then ([.httpVersion], .inr (.line false))
    else if byte = 13 then ([.httpVersion], .inr (.newline false))
    else ([], .inr .error)

/-- `Request`. `HTTP_CTL` is `(0 - 31) | 127`, where the difference is the byte 0 alone. -/
def requestGrammar (relaxed : Bool) : Grammar RequestState where
  firstLine := RequestState.next relaxed
  headers :=
    { isToken := fun byte => byte < 128 && byte ≠ 0 && byte ≠ 127 && !isSeparator byte
      isBlank := fun byte => byte = 9 || byte = 32
      isBarred := fun byte => byte = 0 || byte = 127
      alternatives := []
      colon := rfl
      space := ⟨rfl, rfl⟩
      token := by
        intro byte token
        obtain ⟨low, high, other⟩ := isToken_iff.mp token
        have : byte < 128 ∧ byte ≠ 0 ∧ byte ≠ 127 := by grind
        simp [this, other]
      visible := by
        intro byte low high
        constructor <;> grind }

/-! ### The status line -/

/-- Where `httpclient_parser` is in the status line; a part that is `begun` has a byte already. -/
inductive ResponseState where
  | start
  | protocol (left : List UInt8)
  | major (begun : Bool)
  | minor (begun : Bool)
  | status (begun : Bool)
  | reason (begun : Bool)
  deriving DecidableEq, Repr

/-- The transitions of `Status_Line`. -/
def ResponseState.next : ResponseState → UInt8 → List Action × (ResponseState ⊕ HeaderState)
  | .start, byte =>
    if byte = 72 then ([.mark], .inl (.protocol (ascii "TTP/")))
    -- `Chunked_Header`
    else if isXdigit byte then ([], .inr .beyond)
    else ([], .inr .error)
  | .protocol left, byte =>
    if left.head? ≠ some byte then ([], .inr .error)
    else ([], .inl (if left.tail.isEmpty then .major false else .protocol left.tail))
  | .major begun, byte =>
    if isDigit byte then ([], .inl (.major true))
    else if begun && byte = 46 then ([], .inl (.minor false))
    else ([], .inr .error)
  | .minor begun, byte =>
    if isDigit byte then ([], .inl (.minor true))
    else if begun && byte = 32 then ([.httpVersion], .inl (.status false))
    else ([], .inr .error)
  | .status begun, byte =>
    if isDigit byte then (if begun then [] else [.mark], .inl (.status true))
    else if begun && byte = 32 then ([.statusCode], .inl (.reason false))
    else ([], .inr .error)
  | .reason false, byte =>
    if byte = 10 then ([], .inr .error) else ([.mark], .inl (.reason true))
  | .reason true, byte =>
    if byte = 10 then ([.reasonPhrase], .inr (.line false))
    else if byte = 13 then ([.reasonPhrase], .inr (.newline false))
    else ([], .inl (.reason true))

/-- `Response`. The blanks are those of `space`. -/
def responseGrammar : Grammar ResponseState where
  firstLine := ResponseState.next
  headers :=
    { isToken := isToken
      isBlank := fun byte => byte = 9 || byte = 11 || byte = 12 || byte = 32
      isBarred := fun _ => false
      alternatives :=
        [ascii "transfer-encoding", ascii "connection", ascii "content-length"]
      colon := rfl
      space := ⟨rfl, rfl⟩
      token := fun _ token => token
      visible := by
        intro byte low high
        constructor <;> grind }

/-! ### The callbacks -/

/-- What a parser has built: the message `m_data` and `m_error`. -/
structure Built (μ : Type) where
  data : μ
  error : Nat

/-- `strncmp(first, second, count) == 0`, the strings without the byte 0 that ends them. -/
def equalChars : Nat → List UInt8 → List UInt8 → Bool
  | 0, _, _ => true
  | count + 1, first, second =>
    if first.headD 0 ≠ second.headD 0 then false
    else if first.headD 0 = 0 then true
    else equalChars count first.tail second.tail

/-- `on_request_version`, `on_response_version`. -/
def onVersion {μ : Type} (setVersion : UInt8 → μ → μ) (text : List UInt8) (built : Built μ) :
    Built μ :=
  if equalChars text.length text (ascii "HTTP/1.1") then
    { built with data := setVersion 0x11 built.data }
  else if equalChars text.length text (ascii "HTTP/1.0") then
    { built with data := setVersion 0x10 built.data }
  else { built with error := 1001 }

/-- `on_request_http_field`, `on_response_http_field`. -/
def onHttpField {μ : Type} (setHeader : List UInt8 → List UInt8 → μ → μ) (field value : List UInt8)
    (built : Built μ) : Built μ :=
  if field.length = 0 then { built with error := 1002 }
  else { built with data := setHeader field value built.data }

/-- `on_request_method`. A method ends before the next space, and no method has a space in it. -/
def onRequestMethod (text : List UInt8) (built : Built HttpRequest) : Built HttpRequest :=
  if charsToHttpMethod text = .invalidMethod then { built with error := 1000 }
  else { built with data := { built.data with method := charsToHttpMethod text } }

/-- `on_request_fragment`. -/
def onRequestFragment (text : List UInt8) (built : Built HttpRequest) : Built HttpRequest :=
  { built with data := { built.data with fragment := text } }

/-- `on_request_path`. -/
def onRequestPath (text : List UInt8) (built : Built HttpRequest) : Built HttpRequest :=
  { built with data := { built.data with path := text } }

/-- `on_request_query`. -/
def onRequestQuery (text : List UInt8) (built : Built HttpRequest) : Built HttpRequest :=
  { built with data := { built.data with query := text } }

/-- `on_response_reason`. -/
def onResponseReason (text : List UInt8) (built : Built HttpResponse) : Built HttpResponse :=
  { built with data := { built.data with reason := text } }

/-- `on_response_status`, where `atoi` reads the digits of the text. -/
def onResponseStatus (text : List UInt8) (built : Built HttpResponse) : Built HttpResponse :=
  { built with data := { built.data with status := digits text } }

/-- `HttpRequest::setVersion`. -/
def HttpRequest.setVersion (version : UInt8) (request : HttpRequest) : HttpRequest :=
  { request with version := version }

/-- `HttpRequest::setHeader`. -/
def HttpRequest.setHeader (name value : List UInt8) (request : HttpRequest) : HttpRequest :=
  { request with headers := request.headers.setHeader name value }

/-- `HttpResponse::setVersion`. -/
def HttpResponse.setVersion (version : UInt8) (response : HttpResponse) : HttpResponse :=
  { response with version := version }

/-- `HttpResponse::setHeader`. -/
def HttpResponse.setHeader (name value : List UInt8) (response : HttpResponse) : HttpResponse :=
  { response with headers := response.headers.setHeader name value }

/-- The callbacks of `HttpRequestParser`. -/
def requestCallbacks : Callbacks (Built HttpRequest) where
  httpField := onHttpField HttpRequest.setHeader
  requestMethod := onRequestMethod
  fragment := onRequestFragment
  requestPath := onRequestPath
  queryString := onRequestQuery
  httpVersion := onVersion HttpRequest.setVersion
  reasonPhrase := fun _ built => built
  statusCode := fun _ built => built

/-- The callbacks of `HttpResponseParser`. -/
def responseCallbacks : Callbacks (Built HttpResponse) where
  httpField := onHttpField HttpResponse.setHeader
  requestMethod := fun _ built => built
  fragment := fun _ built => built
  requestPath := fun _ built => built
  queryString := fun _ built => built
  httpVersion := onVersion HttpResponse.setVersion
  reasonPhrase := onResponseReason
  statusCode := onResponseStatus

/-! ### The parsers -/

/-- A parser: where its machine is, and what it keeps. -/
abbrev MessageParser (φ μ : Type) := (φ ⊕ HeaderState) × Memory (Built μ)

variable {μ : Type}

/-- `HttpRequestParser::isFinished`, `HttpResponseParser::isFinished`. -/
def MessageParser.isFinished (parser : MessageParser φ μ) : Int :=
  if isError parser.1 then -1 else if isFinal parser.1 then 1 else 0

/-- `HttpRequestParser::hasError`, `HttpResponseParser::hasError`. -/
def MessageParser.hasError (parser : MessageParser φ μ) : Bool :=
  parser.2.data.error ≠ 0 || isError parser.1

/-- `getData`. -/
def MessageParser.getData (parser : MessageParser φ μ) : μ := parser.2.data.data

/-- `HttpRequestParser`, before the first byte. -/
def HttpRequestParser.new : MessageParser RequestState HttpRequest :=
  (.inl .start, Memory.init ⟨HttpRequest.new, 0⟩)

/-- `HttpResponseParser`, before the first byte. -/
def HttpResponseParser.new : MessageParser ResponseState HttpResponse :=
  (.inl .start, Memory.init ⟨HttpResponse.new, 0⟩)

/-- `HttpRequestParser::execute`: the parser and the number of bytes it has read. -/
def HttpRequestParser.execute (relaxed : Bool) (parser : MessageParser RequestState HttpRequest)
    (data : List UInt8) : MessageParser RequestState HttpRequest × Nat :=
  ((requestGrammar relaxed).machine requestCallbacks).scanner.feed parser data

/-- `HttpResponseParser::execute`. -/
def HttpResponseParser.execute (parser : MessageParser ResponseState HttpResponse)
    (data : List UInt8) : MessageParser ResponseState HttpResponse × Nat :=
  (responseGrammar.machine responseCallbacks).scanner.feed parser data

/-- `getContentLength` of either parser; the names of headers are compared without their case. -/
def getContentLength (headers : Headers) : Nat := headers.getHeaderAs (ascii "content-length")

/-- `getIsClose` of either parser: it sets `m_close`, and this is the value it returns. -/
def getIsClose (headers : Headers) : Bool := isClose (headers.getHeader (ascii "connection"))

end Wyze.Http.Message
