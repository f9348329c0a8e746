/-
**A printed request is parsed back.**

`HttpRequest::dump` and the grammar of `http_parser` agree on the request line and the header lines,
with two exceptions: `M-SEARCH` is no method of the grammar, and the bytes 0 and 127 cannot stand in
a value.

* `reads_token`, `reads_method`, `reads_target`, `reads_requestVersion`: the request line.
* `Part.Spelled`: the texts that a part of the URI can have; `quiet_inside` reads them.
* `feed_barred`: a value with a byte that cannot stand in it is an error.
* `request_roundTrips_iff`: a request comes back if and only if no value has such a byte in it.
-/
import Wyze.Http.PrintedFields

namespace Wyze.Http.Message

/-- A request as the parser has it. -/
abbrev BuiltRequest := Built HttpRequest

variable {relaxed : Bool}

/-- The machine of `HttpRequestParser`. -/
abbrev requestMachine (relaxed : Bool) :
    Transducer (RequestState ⊕ HeaderState) UInt8 Action (Memory BuiltRequest) :=
  (requestGrammar relaxed).machine requestCallbacks

/-! ### The method -/

/-- The methods of the map whose texts are methods of the grammar. -/
def HttpMethod.InGrammar (method : HttpMethod) : Prop :=
  method ≠ .invalidMethod ∧ method ≠ .msearch

theorem httpMethodToString_inGrammar {method : HttpMethod} (inGrammar : method.InGrammar) :
    httpMethodToString method ≠ [] ∧ (httpMethodToString method).length ≤ 20 ∧
      ∀ byte ∈ httpMethodToString method, isMethodByte byte = true := by
  obtain ⟨valid, other⟩ := inGrammar
  cases method
  case invalidMethod => exact absurd rfl valid
  case msearch => exact absurd rfl other
  all_goals exact ⟨by decide, by decide, List.all_eq_true.mp (by decide)⟩

/-- The rest of a method. -/
theorem quiet_method {count : Nat} {more : List UInt8} (room : count + more.length ≤ 20)
    (bytes : ∀ byte ∈ more, isMethodByte byte = true) :
    (requestMachine relaxed).Quiet (.inl (.method count)) more
      (.inl (.method (count + more.length))) := by
  induction more generalizing count with
  | nil => exact Transducer.Quiet.nil _
  | cons byte more ih =>
      obtain ⟨here, later⟩ := List.forall_mem_cons.mp bytes
      rw [List.length_cons] at room
      have noSpace : byte ≠ 32 := by
        rintro rfl
        cases here
      have moves : (requestMachine relaxed).next (.inl (.method count)) byte =
          ([], .inl (.method (count + 1))) := by
        refine (if_neg noSpace).trans (if_pos ?_)
        rw [Bool.and_eq_true, decide_eq_true_eq]
        exact ⟨here, by omega⟩
      rw [List.length_cons, Nat.add_comm more.length, ← Nat.add_assoc]
      exact Transducer.Quiet.cons moves ⟨rfl, rfl⟩ (ih (by omega) later)

/-- A text that is no method. -/
theorem feed_notMethod {front back : List UInt8} {byte : UInt8} {memory : Memory BuiltRequest}
    (some : front ≠ []) (short : front.length ≤ 20)
    (bytes : ∀ byte ∈ front, isMethodByte byte = true)
    (other : isMethodByte byte = false ∧ byte ≠ 32) :
    ((requestMachine relaxed).scanner.feed (.inl .start, memory) (front ++ byte :: back)).1.1 =
      .inr .error := by
  obtain ⟨first, more, rfl⟩ := List.exists_cons_of_ne_nil some
  obtain ⟨here, later⟩ := List.forall_mem_cons.mp bytes
  have begins : (requestMachine relaxed).next (.inl .start) first =
      ([.mark], .inl (.method 1)) := if_pos here
  have quiet : (requestMachine relaxed).Quiet (.inl (.method 1)) more
      (.inl (.method (1 + more.length))) :=
    quiet_method (by rw [List.length_cons] at short; omega) later
  have refuses (count : Nat) : (requestMachine relaxed).next (.inl (.method count)) byte =
      ([], .inr .error) := by
    refine (if_neg other.2).trans (if_neg ?_)
    rw [other.1, Bool.false_and]
    nofun
  rw [List.cons_append, Transducer.feed_step begins ⟨rfl, rfl⟩, Scanner.feed_of_passes (quiet _)]
  exact Transducer.feed_failed (refuses _) rfl _

/-- **A token is read** and called back as the method. -/
theorem reads_token {token : List UInt8} (some : token ≠ []) (short : token.length ≤ 20)
    (bytes : ∀ byte ∈ token, isMethodByte byte = true) (built : BuiltRequest) :
    (requestGrammar relaxed).Reads requestCallbacks (.inl .start) built
      (token ++ ascii " ") (.inl .target) (onRequestMethod token built) := by
  obtain ⟨byte, more, rfl⟩ := List.exists_cons_of_ne_nil some
  obtain ⟨here, later⟩ := List.forall_mem_cons.mp bytes
  have begins : (requestMachine relaxed).next (.inl .start) byte =
      ([.mark], .inl (.method 1)) := if_pos here
  have quiet : (requestMachine relaxed).Quiet (.inl (.method 1)) more
      (.inl (.method (1 + more.length))) :=
    quiet_method (by rw [List.length_cons] at short; omega) later
  have ends (count : Nat) : (requestMachine relaxed).next (.inl (.method count)) 32 =
      ([.requestMethod], .inl .target) := rfl
  rw [show ascii " " = [32] by decide]
  refine reads_text begins ⟨rfl, rfl⟩ quiet (ends _) ⟨rfl, rfl⟩ (fun memory => ?_) built
  rw [foldl_consume]
  rfl

/-- **The method is read.** -/
theorem reads_method {method : HttpMethod} (inGrammar : method.InGrammar) (built : BuiltRequest) :
    (requestGrammar relaxed).Reads requestCallbacks (.inl .start) built
      (httpMethodToString method ++ ascii " ") (.inl .target)
      { built with data := { built.data with method := method } } := by
  obtain ⟨some, short, bytes⟩ := httpMethodToString_inGrammar inGrammar
  have calls : onRequestMethod (httpMethodToString method) built =
      { built with data := { built.data with method := method } } := by
    rw [onRequestMethod, charsToHttpMethod_string inGrammar.1, if_neg inGrammar.1]
  rw [← calls]
  exact reads_token some short bytes built

/-! ### The URI -/

/-- **A text of a part**: bytes that stand for themselves, and percent-encoded bytes. -/
inductive Part.Spelled (part : Part) (relaxed : Bool) : List UInt8 → Prop
  | nil : Spelled part relaxed []
  | plain {byte : UInt8} {text : List UInt8} (isPlain : part.isPlain relaxed byte = true)
      (spelled : Spelled part relaxed text) : Spelled part relaxed (byte :: text)
  | percent {first second : UInt8} {text : List UInt8} (isFirst : isXdigit first = true)
      (isSecond : isXdigit second = true) (spelled : Spelled part relaxed text) :
      Spelled part relaxed (37 :: first :: second :: text)

/-- The same as a test. -/
def Part.isSpelled (part : Part) (relaxed : Bool) : List UInt8 → Bool
  | [] => true
  | 37 :: first :: second :: text =>
    isXdigit first && isXdigit second && part.isSpelled relaxed text
  | byte :: text => part.isPlain relaxed byte && part.isSpelled relaxed text

theorem spelled_of_isSpelled {part : Part} {text : List UInt8}
    (isSpelled : part.isSpelled relaxed text = true) : part.Spelled relaxed text := by
  fun_induction Part.isSpelled part relaxed text with
  | case1 => exact .nil
  | case2 first second text ih =>
      rw [Bool.and_eq_true, Bool.and_eq_true] at isSpelled
      exact .percent isSpelled.1.1 isSpelled.1.2 (ih isSpelled.2)
  | case3 byte text _ ih =>
      rw [Bool.and_eq_true] at isSpelled
      exact .plain isSpelled.1 (ih isSpelled.2)

/-- What is called back at the end of a part. -/
def Part.callback : Part → List UInt8 → BuiltRequest → BuiltRequest
  | .path => onRequestPath
  | .query => onRequestQuery
  | .fragment => onRequestFragment

/-- The text since the beginning of a part. -/
def Part.text (part : Part) (memory : Memory BuiltRequest) : List UInt8 :=
  if part = .query then memory.queryStart else memory.mark

/-- A sign that ends a part is no byte of it. -/
theorem not_plain_of_leave (relaxed : Bool) {part : Part} {last : UInt8} {actions : List Action}
    {state : RequestState} (leaves : part.leave last = some (actions, state)) :
    part.isPlain relaxed last = false ∧ last ≠ 37 := by
  unfold Part.leave at leaves
  split at leaves
  all_goals cases leaves
  all_goals cases relaxed <;> decide

theorem perform_leave {part : Part} {last : UInt8} {actions : List Action} {state : RequestState}
    (leaves : part.leave last = some (actions, state)) (memory : Memory BuiltRequest) :
    (actions.foldl requestCallbacks.perform memory).data =
      part.callback (part.text memory) memory.data := by
  unfold Part.leave at leaves
  split at leaves
  all_goals cases leaves
  all_goals rfl

theorem not_plain_percent (part : Part) : part.isPlain relaxed 37 = false := by
  cases part <;> cases relaxed <;> decide

/-- **A text of a part is read.** -/
theorem quiet_inside {part : Part} {text : List UInt8} (spelled : part.Spelled relaxed text) :
    (requestMachine relaxed).Quiet (.inl (.inside part false)) text (.inl (.inside part false)) := by
  induction spelled with
  | nil => exact Transducer.Quiet.nil _
  | plain isPlain _ ih => exact Transducer.Quiet.cons (if_pos isPlain) ⟨rfl, rfl⟩ ih
  | percent isFirst isSecond _ ih =>
      have begins : (requestMachine relaxed).next (.inl (.inside part false)) 37 =
          ([], .inl (.percent part)) := by
        refine (if_neg ?_).trans (if_pos rfl)
        rw [not_plain_percent]
        nofun
      exact Transducer.Quiet.cons begins ⟨rfl, rfl⟩ (Transducer.Quiet.cons (if_pos isFirst) ⟨rfl, rfl⟩
        (Transducer.Quiet.cons (if_pos isSecond) ⟨rfl, rfl⟩ ih))

/-- The first byte of a part, and the rest of it. -/
theorem begins_part {part : Part} {state : RequestState} {fresh : Bool} {byte : UInt8}
    {more : List UInt8}
    (isNext : RequestState.next relaxed state byte =
      RequestState.insideNext relaxed part fresh byte)
    (spelled : part.Spelled relaxed (byte :: more)) :
    ∃ state' : RequestState,
      (requestMachine relaxed).next (.inl state) byte =
          (if fresh then part.enter else [], .inl state') ∧
        (requestMachine relaxed).Quiet (.inl state') more (.inl (.inside part false)) := by
  cases spelled with
  | plain isPlain spelled =>
      exact ⟨.inside part false, isNext.trans (if_pos isPlain), quiet_inside spelled⟩
  | percent isFirst isSecond spelled =>
      refine ⟨.percent part, isNext.trans ((if_neg ?_).trans (if_pos rfl)), ?_⟩
      · rw [not_plain_percent]
        nofun
      · exact Transducer.Quiet.cons (if_pos isFirst) ⟨rfl, rfl⟩
          (Transducer.Quiet.cons (if_pos isSecond) ⟨rfl, rfl⟩ (quiet_inside spelled))

/-- The sign behind a part. -/
theorem ends_part {part : Part} {state : RequestState} {last : UInt8} {actions : List Action}
    {final : RequestState}
    (isNext : RequestState.next relaxed state last =
      RequestState.insideNext relaxed part false last)
    (leaves : part.leave last = some (actions, final)) :
    (requestMachine relaxed).next (.inl state) last = (actions, .inl final) := by
  obtain ⟨notPlain, noPercent⟩ := not_plain_of_leave relaxed leaves
  refine isNext.trans ?_
  rw [RequestState.insideNext, if_neg (by rw [notPlain]; nofun), if_neg noPercent, leaves]
  rfl

/-- An absolute path that is no authority. -/
structure IsAbsolute (relaxed : Bool) (path : List UInt8) : Prop where
  slash : path.head? = some 47
  single : path.tail.head? ≠ some 47
  spelled : Part.path.Spelled relaxed path.tail

/-- **The path is read**, with the sign behind it. -/
theorem reads_path {path : List UInt8} (absolute : IsAbsolute relaxed path) {last : UInt8}
    {actions : List Action} {final : RequestState}
    (leaves : Part.path.leave last = some (actions, final)) (built : BuiltRequest) :
    (requestGrammar relaxed).Reads requestCallbacks (.inl .target) built (path ++ [last])
      (.inl final) (onRequestPath path built) := by
  obtain ⟨slash, single, spelled⟩ := absolute
  obtain ⟨rest, rfl⟩ : ∃ rest, path = 47 :: rest := ⟨path.tail, List.eq_cons_of_mem_head? slash⟩
  have begins : (requestMachine relaxed).next (.inl .target) 47 = ([.mark], .inl .root) := rfl
  have root (byte : UInt8) (other : byte ≠ 47) : RequestState.next relaxed .root byte =
      RequestState.insideNext relaxed .path false byte := if_neg other
  have calls (memory : Memory BuiltRequest) :
      (actions.foldl requestCallbacks.perform ((47 :: rest).foldl Memory.consume
        ([Action.mark].foldl requestCallbacks.perform memory))).data =
          onRequestPath (47 :: rest) memory.data := by
    rw [perform_leave leaves, foldl_consume]
    rfl
  cases rest with
  | nil =>
      have noSlash : last ≠ 47 := by
        rintro rfl
        cases leaves
      exact reads_text begins ⟨rfl, rfl⟩ (Transducer.Quiet.nil _) (ends_part (root last noSlash) leaves)
        ⟨rfl, rfl⟩ calls built
  | cons byte more =>
      have noSlash : byte ≠ 47 := by
        rintro rfl
        exact single rfl
      obtain ⟨state', moves, quiet⟩ := begins_part (root byte noSlash) spelled
      exact reads_text begins ⟨rfl, rfl⟩ (Transducer.Quiet.cons moves ⟨rfl, rfl⟩ quiet)
        (ends_part rfl leaves) ⟨rfl, rfl⟩ calls built

/-- **A query or a fragment is read**, with the sign behind it. -/
theorem reads_part {part : Part} (other : part ≠ .path) {text : List UInt8} (some : text ≠ [])
    (spelled : part.Spelled relaxed text) {last : UInt8} {actions : List Action}
    {final : RequestState} (leaves : part.leave last = .some (actions, final))
    (built : BuiltRequest) :
    (requestGrammar relaxed).Reads requestCallbacks (.inl (.inside part true)) built
      (text ++ [last]) (.inl final) (part.callback text built) := by
  obtain ⟨byte, more, rfl⟩ := List.exists_cons_of_ne_nil some
  have isNext : RequestState.next relaxed (.inside part true) byte =
      RequestState.insideNext relaxed part true byte := rfl
  obtain ⟨state', begins, quiet⟩ := begins_part isNext spelled
  refine reads_text begins ⟨rfl, rfl⟩ quiet (ends_part rfl leaves) ⟨rfl, rfl⟩ (fun memory => ?_) built
  rw [perform_leave leaves, foldl_consume]
  cases part with
  | path => exact absurd rfl other
  | query => rfl
  | fragment => rfl

/-! ### The request line -/

/-- A request that can be printed: version 1.0 or 1.1, and a path, a query, a fragment and headers of
the grammar. -/
structure HttpRequest.Printable (relaxed : Bool) (request : HttpRequest) : Prop where
  version : request.version = 0x10 ∨ request.version = 0x11
  path : IsAbsolute relaxed request.path
  query : Part.query.Spelled relaxed request.query
  fragment : Part.fragment.Spelled relaxed request.fragment
  headers : ∀ entry ∈ request.headers.entries, Message.Printable entry
  body : request.body.length < 2 ^ 64

variable {request : HttpRequest}

/-- The request target and the space behind it. -/
def HttpRequest.target (request : HttpRequest) : List UInt8 :=
  request.path ++ (if request.query = [] then [] else ascii "?") ++ request.query ++
    (if request.fragment = [] then [] else ascii "#") ++ request.fragment ++ ascii " "

/-- The sign before the fragment, or the space if there is none. -/
def fragmentSign (fragment : List UInt8) : UInt8 := if fragment = [] then 32 else 35

/-- The state behind that sign. -/
def afterSign (fragment : List UInt8) : RequestState :=
  if fragment = [] then .version else .inside .fragment true

/-- A path or a query ends with that sign. -/
theorem leave_sign {part : Part} (other : part ≠ .fragment) (fragment : List UInt8) :
    ∃ actions, part.leave (fragmentSign fragment) = some (actions, afterSign fragment) := by
  unfold fragmentSign afterSign
  cases part with
  | path => split <;> exact ⟨_, rfl⟩
  | query => split <;> exact ⟨_, rfl⟩
  | fragment => exact absurd rfl other

theorem reads_fragment {fragment : List UInt8} (spelled : Part.fragment.Spelled relaxed fragment)
    {built : BuiltRequest} (fresh : built.data.fragment = []) :
    (requestGrammar relaxed).Reads requestCallbacks (.inl (afterSign fragment)) built
      (if fragment = [] then [] else fragment ++ [32]) (.inl .version)
      (onRequestFragment fragment built) := by
  unfold afterSign
  by_cases empty : fragment = []
  · have same : onRequestFragment fragment built = built := by
      rw [empty, ← fresh]
      rfl
    rw [if_pos empty, if_pos empty, same]
    exact Grammar.Reads.nil _ _
  · have leaves : Part.fragment.leave 32 = some ([.fragment], .version) := rfl
    rw [if_neg empty, if_neg empty]
    exact reads_part (by decide) empty spelled leaves built

theorem reads_query {query : List UInt8} (spelled : Part.query.Spelled relaxed query)
    (fragment : List UInt8) {built : BuiltRequest} (fresh : built.data.query = []) :
    (requestGrammar relaxed).Reads requestCallbacks
      (.inl (if query = [] then afterSign fragment else .inside .query true)) built
      (if query = [] then [] else query ++ [fragmentSign fragment]) (.inl (afterSign fragment))
      (onRequestQuery query built) := by
  by_cases empty : query = []
  · have same : onRequestQuery query built = built := by
      rw [empty, ← fresh]
      rfl
    rw [if_pos empty, if_pos empty, same]
    exact Grammar.Reads.nil _ _
  · obtain ⟨actions, leaves⟩ := leave_sign (show Part.query ≠ .fragment by decide) fragment
    rw [if_neg empty, if_neg empty]
    exact reads_part (by decide) empty spelled leaves built

/-- The target, with each sign behind the part it ends. -/
theorem target_eq (request : HttpRequest) :
    request.target =
      request.path ++
          [if request.query = [] then fragmentSign request.fragment else 63] ++
        (if request.query = [] then [] else request.query ++ [fragmentSign request.fragment]) ++
        (if request.fragment = [] then [] else request.fragment ++ [32]) := by
  have signs : ascii " " = [32] ∧ ascii "#" = [35] ∧ ascii "?" = [63] := by decide
  unfold HttpRequest.target fragmentSign
  rw [signs.1, signs.2.1, signs.2.2]
  by_cases emptyQuery : request.query = []
  · by_cases emptyFragment : request.fragment = []
    · simp [emptyQuery, emptyFragment]
    · simp [emptyQuery, emptyFragment]
  · by_cases emptyFragment : request.fragment = []
    · simp [emptyQuery, emptyFragment]
    · simp [emptyQuery, emptyFragment]

/-- **The target is read.** -/
theorem reads_target (printable : request.Printable relaxed) {built : BuiltRequest}
    (noQuery : built.data.query = []) (noFragment : built.data.fragment = []) :
    (requestGrammar relaxed).Reads requestCallbacks (.inl .target) built request.target
      (.inl .version)
      (onRequestFragment request.fragment (onRequestQuery request.query
        (onRequestPath request.path built))) := by
  have leaves : ∃ actions,
      Part.path.leave (if request.query = [] then fragmentSign request.fragment else 63) =
        some (actions,
          if request.query = [] then afterSign request.fragment else .inside .query true) := by
    split
    · exact leave_sign (by decide) request.fragment
    · exact ⟨_, rfl⟩
  obtain ⟨actions, leaves⟩ := leaves
  rw [target_eq]
  exact ((reads_path printable.path leaves built).trans
    (reads_query printable.query request.fragment noQuery)).trans
      (reads_fragment printable.fragment noFragment)

/-- The rest of the protocol. -/
theorem quiet_requestProtocol {left : List UInt8} (some : left ≠ []) :
    (requestMachine relaxed).Quiet (.inl (.protocol left)) left (.inl .minor) := by
  refine Transducer.Quiet.literal (fun left => Sum.inl (RequestState.protocol left)) some
    (fun byte left => ?_) (fun _ => ?_) ?_
  · refine (if_neg (not_not_intro rfl)).trans ?_
    cases left <;> rfl
  · exact ⟨rfl, rfl⟩
  · exact ⟨rfl, rfl⟩

theorem reads_protocol {text : List UInt8} {digit : UInt8} (isDigit : digit = 48 ∨ digit = 49)
    (isText : text = 72 :: (ascii "TTP/1." ++ [digit])) (built : BuiltRequest) :
    (requestGrammar relaxed).Reads requestCallbacks (.inl .version) built (text ++ crlf)
      (.inr (.line false)) (onVersion HttpRequest.setVersion text built) := by
  have begins : (requestMachine relaxed).next (.inl .version) 72 =
      ([.mark], .inl (.protocol (ascii "TTP/1."))) := rfl
  have minor : (requestMachine relaxed).next (.inl .minor) digit = ([], .inl .newline) := by
    rcases isDigit with rfl | rfl <;> rfl
  have ends : (requestMachine relaxed).next (.inl .newline) 13 =
      ([.httpVersion], .inr (.newline false)) := rfl
  have quiet : (requestMachine relaxed).Quiet (.inl (.protocol (ascii "TTP/1.")))
      (ascii "TTP/1." ++ [digit]) (.inl .newline) :=
    (quiet_requestProtocol (by decide)).append (.cons minor ⟨rfl, rfl⟩ (.nil _))
  have line : text ++ crlf = (text ++ [13]) ++ [10] := by
    rw [List.append_assoc]
    rfl
  rw [line]
  refine Grammar.Reads.trans ?_ (reads_newline false _)
  rw [isText]
  refine reads_text begins ⟨rfl, rfl⟩ quiet ends ⟨rfl, rfl⟩ (fun memory => ?_) built
  rw [foldl_consume]
  rfl

/-- **The version is read.** -/
theorem reads_requestVersion {version : UInt8} (known : version = 0x10 ∨ version = 0x11)
    (built : BuiltRequest) :
    (requestGrammar relaxed).Reads requestCallbacks (.inl .version) built
      (printVersion version ++ crlf) (.inr (.line false))
      { built with data := built.data.setVersion version } := by
  rw [← onVersion_printVersion known]
  rcases known with rfl | rfl
  · exact reads_protocol (Or.inl rfl) (by decide) built
  · exact reads_protocol (Or.inr rfl) (by decide) built

/-- The request line. -/
def HttpRequest.requestLine (request : HttpRequest) : List UInt8 :=
  (httpMethodToString request.method ++ ascii " ") ++ request.target ++
    (printVersion request.version ++ crlf)

/-- **The request line is read.** -/
theorem reads_requestLine (printable : request.Printable relaxed)
    (inGrammar : request.method.InGrammar) :
    (requestGrammar relaxed).Reads requestCallbacks (.inl .start) ⟨HttpRequest.new, 0⟩
      request.requestLine (.inr (.line false))
      { data := { HttpRequest.new with
          method := request.method
          version := request.version
          path := request.path
          query := request.query
          fragment := request.fragment }
        error := 0 } :=
  ((reads_method inGrammar _).trans (reads_target printable rfl rfl)).trans
    (reads_requestVersion printable.version _)

/-! ### The whole head -/

/-- What `dump` prints for the flag `m_close`. -/
def HttpRequest.flag (request : HttpRequest) : List UInt8 :=
  ascii (if request.close then "close" else "keep-alive")

theorem flag_visible (request : HttpRequest) : request.flag ≠ [] ∧ Visible request.flag := by
  unfold HttpRequest.flag
  cases request.close
  · exact ⟨by decide, forall_mem_of_all (by decide)⟩
  · exact ⟨by decide, forall_mem_of_all (by decide)⟩

/-- The printed flag is read for what it says. -/
theorem isClose_flag (request : HttpRequest) : isClose request.flag = request.close := by
  unfold HttpRequest.flag
  cases request.close <;> decide

/-- The lines below the request line, in their order. -/
def HttpRequest.fields (request : HttpRequest) : List (List UInt8 × List UInt8) :=
  connectionField request.flag :: (request.headers.entries ++ lengthField request.body)

theorem fields_perm (request : HttpRequest) :
    request.fields.Perm
      (request.headers.entries ++ connectionField request.flag :: lengthField request.body) :=
  List.perm_middle.symm

theorem requestString_eq (printable : request.Printable relaxed) :
    request.toString =
      request.requestLine ++ request.fields.flatMap printHeader ++ crlf ++ request.body := by
  have connection : ascii "connection: " = ascii "connection" ++ ascii ": " := by decide
  unfold HttpRequest.toString HttpRequest.requestLine HttpRequest.target HttpRequest.fields
  rw [printHeaders_eq printable.headers, printBody_eq, List.flatMap_cons, List.flatMap_append,
    connection]
  show _ = _ ++ ((ascii "connection" ++ ascii ": " ++ request.flag ++ crlf) ++ _) ++ _ ++ _
  simp only [List.append_assoc, HttpRequest.flag]

/-- The headers that are set one after the other. -/
theorem foldl_setRequestHeader (fields : List (List UInt8 × List UInt8)) (request : HttpRequest) :
    fields.foldl (fun request entry => request.setHeader entry.1 entry.2) request =
      { request with headers := request.headers.setAll fields } :=
  List.foldl_hom (fun headers => { request with headers := headers }) fun _ _ => rfl

/-- No line of a request goes on in the next one. -/
theorem foldsLast_request (fields : List (List UInt8 × List UInt8)) :
    (requestGrammar relaxed).headers.foldsLast fields false = false := by
  induction fields with
  | nil => rfl
  | cons entry fields ih => exact ih

/-- The headers as the parser has them. -/
def HttpRequest.parsedHeaders (relaxed : Bool) (request : HttpRequest) : Headers :=
  Headers.empty.setAll (request.fields.map (requestGrammar relaxed).headers.trim)

/-- The parser after the text of the request. -/
def HttpRequest.parsed (relaxed : Bool) (request : HttpRequest) :
    MessageParser RequestState HttpRequest :=
  (HttpRequestParser.execute relaxed HttpRequestParser.new request.toString).1

/-- No value has a byte in it that cannot stand in one: 0 and 127. -/
def HttpRequest.Unbarred (request : HttpRequest) : Prop :=
  ∀ entry ∈ request.headers.entries, ∀ byte ∈ entry.2, byte ≠ 0 ∧ byte ≠ 127

theorem isBarred_iff {byte : UInt8} :
    (requestGrammar relaxed).headers.isBarred byte = false ↔ byte ≠ 0 ∧ byte ≠ 127 := by
  simp [requestGrammar]

/-- **The parser finishes at the end of the head**, and this is what it has built. -/
theorem parsedRequest_eq (printable : request.Printable relaxed)
    (inGrammar : request.method.InGrammar) (unbarred : request.Unbarred) :
    ∃ memory : Memory BuiltRequest,
      request.parsed relaxed = (.inr .done, memory) ∧
        memory.data =
          { data := { HttpRequest.new with
              method := request.method
              version := request.version
              path := request.path
              query := request.query
              fragment := request.fragment
              headers := request.parsedHeaders relaxed }
            error := 0 } := by
  have accepted : ∀ entry ∈ request.fields, (requestGrammar relaxed).headers.Accepts entry :=
    accepts_fields (fields_perm request) printable.headers (flag_visible request).2
      fun entry mem byte isByte => isBarred_iff.mpr (unbarred entry mem byte isByte)
  obtain ⟨memory, fed, isData⟩ := feed_head (reads_requestLine printable inGrammar) accepted
    (foldsLast_request _) (Memory.init ⟨HttpRequest.new, 0⟩) rfl request.body
  rw [httpFields_onHttpField rfl (named_of_accepts accepted), foldl_setRequestHeader] at isData
  refine ⟨memory, ?_, isData⟩
  unfold HttpRequest.parsed HttpRequestParser.execute
  rw [requestString_eq printable]
  exact congrArg Prod.fst fed

/-- **A refused value is an error.** -/
theorem parsedRequest_barred (printable : request.Printable relaxed)
    (inGrammar : request.method.InGrammar) (barred : ¬ request.Unbarred) :
    (request.parsed relaxed).1 = .inr .error := by
  obtain ⟨memory, passed, _⟩ :=
    reads_requestLine printable inGrammar (Memory.init ⟨HttpRequest.new, 0⟩) rfl
  have someBarred : ∃ entry ∈ request.fields, ∃ byte ∈ entry.2,
      (requestGrammar relaxed).headers.isBarred byte = true := by
    unfold HttpRequest.Unbarred at barred
    push Not at barred
    obtain ⟨entry, mem, byte, isByte, bad⟩ := barred
    refine ⟨entry, (fields_perm request).mem_iff.mpr (List.mem_append_left _ mem), byte, isByte, ?_⟩
    by_contra isFine
    obtain ⟨noNull, noDelete⟩ := isBarred_iff.mp (Bool.eq_false_iff.mpr isFine)
    exact noDelete (bad noNull)
  unfold HttpRequest.parsed HttpRequestParser.execute
  rw [requestString_eq printable, List.append_assoc, List.append_assoc]
  show (Scanner.feed _ (_, _) _).1.1 = _
  rw [Scanner.feed_of_passes passed]
  exact feed_barred (fits_fields (fields_perm request) printable.headers (flag_visible request).2)
    someBarred _

theorem announces_request (printable : request.Printable relaxed) :
    Announces (requestGrammar relaxed).headers request.headers request.flag request.body
      (request.parsedHeaders relaxed) :=
  announces_setAll printable.headers (flag_visible request).2 (fields_perm request)

/-! ### The round trip -/

/-- **A request comes back from its text.** -/
structure HttpRequest.RoundTrips (relaxed : Bool) (request : HttpRequest) : Prop where
  finished : (request.parsed relaxed).isFinished = 1
  noError : (request.parsed relaxed).hasError = false
  method : (request.parsed relaxed).getData.method = request.method
  version : (request.parsed relaxed).getData.version = request.version
  path : (request.parsed relaxed).getData.path = request.path
  query : (request.parsed relaxed).getData.query = request.query
  fragment : (request.parsed relaxed).getData.fragment = request.fragment
  headers : ((request.parsed relaxed).getData.headers.delHeader (ascii "connection")).delHeader
    (ascii "content-length") = request.headers
  close : getIsClose (request.parsed relaxed).getData.headers = request.close
  contentLength : getContentLength (request.parsed relaxed).getData.headers = request.body.length

/-- Nothing is lost of a printable value. -/
theorem trim_request {entry : List UInt8 × List UInt8} (printable : Printable entry) :
    (requestGrammar relaxed).headers.trim entry = entry := by
  refine HeaderGrammar.trim_eq_self_iff.mpr fun byte front => ?_
  obtain ⟨noTab, noSpace⟩ := printable.unpadded byte front
  simp [requestGrammar, noTab, noSpace]

/-- **`M-SEARCH` is refused** in every request, and so is the text for no method. -/
theorem parsedRequest_notInGrammar (other : ¬ request.method.InGrammar) :
    (request.parsed relaxed).1 = .inr .error := by
  have refuses {front back : List UInt8} {byte : UInt8}
      (isMethod : httpMethodToString request.method = front ++ byte :: back)
      (some : front ≠ []) (short : front.length ≤ 20)
      (bytes : ∀ byte ∈ front, isMethodByte byte = true)
      (refused : isMethodByte byte = false ∧ byte ≠ 32) :
      (request.parsed relaxed).1 = .inr .error := by
    unfold HttpRequest.parsed HttpRequestParser.execute HttpRequest.toString
    simp only [isMethod, List.append_assoc, List.cons_append]
    exact feed_notMethod some short bytes refused
  by_cases search : request.method = .msearch
  · have isMethod : httpMethodToString request.method = ascii "M" ++ 45 :: ascii "SEARCH" := by
      rw [search]
      decide
    exact refuses isMethod (by decide) (by decide) (List.all_eq_true.mp (by decide)) (by decide)
  · have none : request.method = .invalidMethod := by
      by_contra valid
      exact other ⟨valid, search⟩
    have isMethod : httpMethodToString request.method = ascii "INVALID" ++ 95 :: ascii "METHOD" := by
      rw [none]
      decide
    exact refuses isMethod (by decide) (by decide) (List.all_eq_true.mp (by decide)) (by decide)

/-- An error does not come back. -/
theorem not_roundTrips_of_error (error : (request.parsed relaxed).1 = .inr .error) :
    ¬ request.RoundTrips relaxed := by
  intro trips
  have finished := trips.finished
  rw [MessageParser.isFinished, error] at finished
  cases finished

/-- **A request comes back if and only if** no value has the byte 0 or 127 in it. -/
theorem request_roundTrips_iff (printable : request.Printable relaxed)
    (inGrammar : request.method.InGrammar) :
    request.RoundTrips relaxed ↔ request.Unbarred := by
  constructor
  · intro trips
    by_contra barred
    exact not_roundTrips_of_error (parsedRequest_barred printable inGrammar barred) trips
  · intro unbarred
    obtain ⟨memory, isParsed, isData⟩ := parsedRequest_eq printable inGrammar unbarred
    have announces := announces_request printable
    have isParsedData : (request.parsed relaxed).getData = memory.data.data := by
      rw [isParsed]
      rfl
    refine ⟨?_, ?_, ?_, ?_, ?_, ?_, ?_, ?_, ?_, ?_⟩
    · rw [isParsed]
      rfl
    · rw [isParsed, MessageParser.hasError, isData]
      rfl
    · rw [isParsedData, isData]
    · rw [isParsedData, isData]
    · rw [isParsedData, isData]
    · rw [isParsedData, isData]
    · rw [isParsedData, isData]
    · rw [isParsedData, isData]
      exact announces.given_iff.mpr fun entry mem => trim_request (printable.headers entry mem)
    · rw [isParsedData, isData, getIsClose, announces.connection, isClose_flag]
    · rw [isParsedData, isData]
      exact announces.contentLength printable.body

/-- A request with every part of a URI, a body, and a header with the given value. -/
def sampleRequest (method : HttpMethod) (value : List UInt8) : HttpRequest :=
  { HttpRequest.new with
    method := method
    path := ascii "/a%2Fb/c"
    query := ascii "q=1?"
    fragment := ascii "top"
    body := ascii "body"
    headers := Headers.empty.setHeader (ascii "Host") value }

theorem mem_sampleRequest {method : HttpMethod} {value : List UInt8}
    {entry : List UInt8 × List UInt8}
    (mem : entry ∈ (sampleRequest method value).headers.entries) : entry = (ascii "Host", value) :=
  ((Headers.mem_setHeader rfl entry).mp mem).resolve_right List.not_mem_nil

theorem printable_sampleRequest (method : HttpMethod) {value : List UInt8}
    (unbroken : ∀ byte ∈ value, byte ≠ 10 ∧ byte ≠ 13)
    (unpadded : ∀ byte ∈ value.head?, byte ≠ 9 ∧ byte ≠ 32) :
    (sampleRequest method value).Printable false where
  version := Or.inr rfl
  path :=
    { slash := show (ascii "/a%2Fb/c").head? = some 47 by decide
      single := show (ascii "/a%2Fb/c").tail.head? ≠ some 47 by decide
      spelled := spelled_of_isSpelled
        (show Part.path.isSpelled false (ascii "/a%2Fb/c").tail = true by decide) }
  query := spelled_of_isSpelled (show Part.query.isSpelled false (ascii "q=1?") = true by decide)
  fragment := spelled_of_isSpelled (show Part.fragment.isSpelled false (ascii "top") = true by decide)
  headers := by
    intro entry mem
    rw [mem_sampleRequest mem]
    exact
      { named := show ascii "Host" ≠ [] by decide
        token := List.all_eq_true.mp (show (ascii "Host").all isToken = true by decide)
        notConnection := show foldCase (ascii "Host") ≠ foldCase (ascii "connection") by decide
        notLength := show foldCase (ascii "Host") ≠ foldCase (ascii "content-length") by decide
        unbroken := unbroken
        unpadded := unpadded }
  body := show (ascii "body").length < 2 ^ 64 by decide

theorem request_roundTrips_get : (sampleRequest .get (ascii "wyze sylar")).RoundTrips false := by
  have printable : (sampleRequest .get (ascii "wyze sylar")).Printable false :=
    printable_sampleRequest .get (forall_mem_of_all (by decide)) (by rintro _ ⟨⟩; decide)
  refine (request_roundTrips_iff printable ⟨by decide, by decide⟩).mpr fun entry mem => ?_
  rw [mem_sampleRequest mem]
  exact forall_mem_of_all (by decide)

/-- **`M-SEARCH` is not read**, nor is a value with the byte 127 in it. -/
theorem requests_refused :
    ((sampleRequest .msearch (ascii "wyze")).Printable false ∧
        ¬ (sampleRequest .msearch (ascii "wyze")).RoundTrips false) ∧
      (sampleRequest .get [127]).Printable false ∧ ¬ (sampleRequest .get [127]).RoundTrips false := by
  have printable : (sampleRequest .get [127]).Printable false :=
    printable_sampleRequest .get (forall_mem_of_all (by decide)) (by rintro _ ⟨⟩; decide)
  have noMethod : ¬ (sampleRequest .msearch (ascii "wyze")).method.InGrammar := fun good => good.2 rfl
  have barred : ¬ (sampleRequest .get [127]).Unbarred := by
    intro unbarred
    have mem : (ascii "Host", [127]) ∈ (sampleRequest .get [127]).headers.entries :=
      (Headers.mem_setHeader rfl _).mpr (Or.inl rfl)
    exact (unbarred _ mem 127 List.mem_cons_self).2 rfl
  exact ⟨⟨printable_sampleRequest .msearch (forall_mem_of_all (by decide)) (by rintro _ ⟨⟩; decide),
      not_roundTrips_of_error (parsedRequest_notInGrammar noMethod)⟩,
    printable, not_roundTrips_of_error
      (parsedRequest_barred printable ⟨by decide, by decide⟩ barred)⟩

end Wyze.Http.Message
