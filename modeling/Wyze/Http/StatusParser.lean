/-
**The parsers of the two connections, on what is printed.**

`httpclient_parser` keeps two fields beside the message: the flag `chunked`, which `trans_chunked` sets
behind a line `Transfer-Encoding: chunked`, and `content_len`, which `write_content_len` takes from the
digits of a line `Content-Length`. `statusParser` is the machine with both.

* `hasError_step`: an error stays.
* `plain_of_accepts`: a response without a header `Transfer-Encoding` is not taken for chunked.
* `accepts_request`, `accepts_response`: the head of a printed message is accepted, and this is what
  the parser has built at its end.
-/
import Wyze.Http.ChunkSizes
import Wyze.Http.ContentLength
import Wyze.Http.ResponseRoundTrip

namespace Wyze.Http

namespace Message

/-! ### Errors stay -/

variable {φ μ : Type} {grammar : Grammar φ}

/-- A callback that takes no error back. -/
def Keeps (callback : Built μ → Built μ) : Prop :=
  ∀ built, built.error ≠ 0 → (callback built).error ≠ 0

/-- None of the callbacks does. -/
structure Callbacks.KeepErrors (callbacks : Callbacks (Built μ)) : Prop where
  httpField : ∀ name value, Keeps (callbacks.httpField name value)
  requestMethod : ∀ text, Keeps (callbacks.requestMethod text)
  fragment : ∀ text, Keeps (callbacks.fragment text)
  requestPath : ∀ text, Keeps (callbacks.requestPath text)
  queryString : ∀ text, Keeps (callbacks.queryString text)
  httpVersion : ∀ text, Keeps (callbacks.httpVersion text)
  reasonPhrase : ∀ text, Keeps (callbacks.reasonPhrase text)
  statusCode : ∀ text, Keeps (callbacks.statusCode text)

theorem keeps_onVersion (setVersion : UInt8 → μ → μ) (text : List UInt8) :
    Keeps (onVersion setVersion text) := by
  intro built fails
  unfold onVersion
  split_ifs
  · exact fails
  · exact fails
  · exact Nat.succ_ne_zero _

theorem keeps_onHttpField (setHeader : List UInt8 → List UInt8 → μ → μ) (field value : List UInt8) :
    Keeps (onHttpField setHeader field value) := by
  intro built fails
  unfold onHttpField
  split_ifs
  · exact Nat.succ_ne_zero _
  · exact fails

theorem keepErrors_request : requestCallbacks.KeepErrors where
  httpField := keeps_onHttpField _
  requestMethod text built fails := by
    show (onRequestMethod text built).error ≠ 0
    unfold onRequestMethod
    split_ifs
    · exact Nat.succ_ne_zero _
    · exact fails
  fragment _ _ fails := fails
  requestPath _ _ fails := fails
  queryString _ _ fails := fails
  httpVersion := keeps_onVersion _
  reasonPhrase _ _ fails := fails
  statusCode _ _ fails := fails

theorem keepErrors_response : responseCallbacks.KeepErrors where
  httpField := keeps_onHttpField _
  requestMethod _ _ fails := fails
  fragment _ _ fails := fails
  requestPath _ _ fails := fails
  queryString _ _ fails := fails
  httpVersion := keeps_onVersion _
  reasonPhrase _ _ fails := fails
  statusCode _ _ fails := fails

variable {callbacks : Callbacks (Built μ)}

/-- One action keeps an error. -/
theorem Callbacks.KeepErrors.perform (keep : callbacks.KeepErrors) (memory : Memory (Built μ))
    (action : Action) (fails : memory.data.error ≠ 0) :
    (callbacks.perform memory action).data.error ≠ 0 := by
  cases action with
  | mark => exact fails
  | startField => exact fails
  | writeField => exact fails
  | writeValue => exact keep.httpField _ _ _ fails
  | requestMethod => exact keep.requestMethod _ _ fails
  | requestUri => exact fails
  | fragment => exact keep.fragment _ _ fails
  | startQuery => exact fails
  | queryString => exact keep.queryString _ _ fails
  | httpVersion => exact keep.httpVersion _ _ fails
  | requestPath => exact keep.requestPath _ _ fails
  | reasonPhrase => exact keep.reasonPhrase _ _ fails
  | statusCode => exact keep.statusCode _ _ fails
  | done => exact fails

theorem Callbacks.KeepErrors.foldl (keep : callbacks.KeepErrors) (actions : List Action) :
    ∀ memory : Memory (Built μ), memory.data.error ≠ 0 →
      (actions.foldl callbacks.perform memory).data.error ≠ 0 := by
  induction actions with
  | nil => exact fun _ fails => fails
  | cons action actions ih =>
      intro memory fails
      exact ih _ (keep.perform memory action fails)

/-- **An error stays**, that of a callback and that of the machine. -/
theorem hasError_step (keep : callbacks.KeepErrors) (parser : MessageParser φ μ) (byte : UInt8)
    (fails : parser.hasError = true) :
    MessageParser.hasError ((grammar.machine callbacks).step parser byte) = true := by
  unfold MessageParser.hasError at fails ⊢
  rw [Bool.or_eq_true, decide_eq_true_eq] at fails ⊢
  rcases fails with error | stopped
  · exact Or.inl (keep.foldl _ parser.2 error)
  · have atError : parser.1 = .inr .error := by
      revert stopped
      cases parser.1 with
      | inl state => exact fun stopped => absurd stopped Bool.false_ne_true
      | inr state => cases state <;> simp [isError]
    refine Or.inr ?_
    show isError (grammar.next parser.1 byte).2 = true
    rw [atError]
    rfl

/-! ### Headers that are there -/

namespace Headers

theorem isSome_find_iff {headers : Headers} {name : List UInt8} :
    (headers.find name).isSome ↔ ∃ entry ∈ headers.entries, headerKey entry = foldCase name := by
  rw [Option.isSome_iff_exists]
  exact exists_congr fun entry => find_eq_some

/-- **The keys after an update.** -/
theorem isSome_find_setHeader {headers : Headers} {name value other : List UInt8} :
    ((headers.setHeader name value).find other).isSome ↔
      foldCase name = foldCase other ∨ (headers.find other).isSome := by
  rw [isSome_find_iff, isSome_find_iff]
  cases found : headers.find name with
  | none =>
      have mem : ∀ entry, entry ∈ (headers.setHeader name value).entries ↔
          entry = (name, value) ∨ entry ∈ headers.entries := mem_setHeader found
      constructor
      · rintro ⟨entry, isEntry, isKey⟩
        rcases (mem entry).mp isEntry with rfl | old
        · exact Or.inl isKey
        · exact Or.inr ⟨entry, old, isKey⟩
      · rintro (same | ⟨entry, old, isKey⟩)
        · exact ⟨(name, value), (mem _).mpr (Or.inl rfl), same⟩
        · exact ⟨entry, (mem _).mpr (Or.inr old), isKey⟩
  | some there =>
      obtain ⟨isThere, isName⟩ := find_eq_some.mp found
      have assigned : (headers.setHeader name value).entries = assign headers.entries name value := by
        unfold setHeader
        split
        · rfl
        · rename_i absent
          rw [found] at absent
          cases absent
      have sameKey (entry : List UInt8 × List UInt8) :
          headerKey (if headerKey entry = foldCase name then (entry.1, value) else entry) =
            headerKey entry := by
        split <;> rfl
      rw [assigned, assign]
      constructor
      · rintro ⟨entry, isEntry, isKey⟩
        obtain ⟨old, isOld, rfl⟩ := List.mem_map.mp isEntry
        rw [sameKey] at isKey
        exact Or.inr ⟨old, isOld, isKey⟩
      · have here {entry : List UInt8 × List UInt8} (old : entry ∈ headers.entries)
            (isKey : headerKey entry = foldCase other) :
            ∃ entry ∈ headers.entries.map fun entry =>
              if headerKey entry = foldCase name then (entry.1, value) else entry,
              headerKey entry = foldCase other :=
          ⟨_, List.mem_map_of_mem old, (sameKey entry).trans isKey⟩
        rintro (same | ⟨entry, old, isKey⟩)
        · exact here isThere (isName.trans same)
        · exact here old isKey

end Headers

/-- Names without a byte 0 that are spelled the same in small letters are the same to `strcasecmp`. -/
theorem foldCase_map_toLower (name : List UInt8) : foldCase (name.map toLower) = foldCase name := by
  have lower (byte : UInt8) : toLower (toLower byte) = toLower byte := by
    unfold toLower
    grind
  have zero (byte : UInt8) : toLower byte = 0 ↔ byte = 0 := by
    unfold toLower
    grind
  unfold foldCase
  induction name with
  | nil => rfl
  | cons byte name ih =>
      by_cases ends : byte = 0
      · subst ends
        rfl
      · have goesOn : toLower byte ≠ 0 := mt (zero byte).mp ends
        rw [List.map_cons, List.takeWhile_cons_of_pos (by simpa using goesOn),
          List.takeWhile_cons_of_pos (by simpa using ends), List.map_cons, List.map_cons, ih, lower]

end Message

open Message

/-! ### `httpclient_parser` -/

/-- The machine of `httpclient_parser`. -/
abbrev responseMachine :
    Transducer (ResponseState ⊕ HeaderState) UInt8 Action (Memory BuiltResponse) :=
  responseGrammar.machine responseCallbacks

/-- A `HttpResponseParser`: the message, the flag `chunked`, and the digits from which `content_len`
has been set. -/
structure StatusState where
  message : MessageParser ResponseState Message.HttpResponse
  chunked : Bool
  lengthDigits : Option (List UInt8)

namespace StatusState

/-- The field and the value that a byte ends. -/
def endedField (parser : MessageParser ResponseState Message.HttpResponse) (byte : UInt8) :
    Option (List UInt8 × List UInt8) :=
  match (responseGrammar.next parser.1 byte).1 with
  | [.writeValue] => some (parser.2.fieldStart.take parser.2.fieldLen, parser.2.mark)
  | [.mark, .writeValue] => some (parser.2.fieldStart.take parser.2.fieldLen, [])
  | _ => none

/-- `transfer_encoding_chunked`, up to the end of its line. -/
def isTransChunked (field : List UInt8 × List UInt8) : Bool :=
  field.1.map toLower = ascii "transfer-encoding" && field.2.map toLower = ascii "chunked"

/-- `content_length`, up to the end of its line. -/
def isContentLength (field : List UInt8 × List UInt8) : Bool :=
  field.1.map toLower = ascii "content-length" && field.2 ≠ [] && field.2.all isDigit

/-- One byte. -/
def step (parser : StatusState) (byte : UInt8) : StatusState where
  message := responseMachine.step parser.message byte
  chunked := parser.chunked || (endedField parser.message byte).any isTransChunked
  lengthDigits :=
    (((endedField parser.message byte).filter isContentLength).map Prod.snd).or parser.lengthDigits

/-- `HttpResponseParser()`. -/
def new : StatusState := ⟨HttpResponseParser.new, false, none⟩

/-- `HttpResponseParser::reset`: `httpclient_parser_init`, and the message and `m_error` stay. -/
def reset (parser : StatusState) : StatusState :=
  ⟨(.inl .start, Memory.init parser.message.2.data), false, none⟩

/-- `on_response_http_field`. -/
def httpField (field value : List UInt8) (parser : StatusState) : StatusState :=
  { parser with
    message := (parser.message.1,
      parser.message.2.call (onHttpField HttpResponse.setHeader field value)) }

end StatusState

/-- `HttpResponseParser` on the alternative `Response` of its machine. -/
def statusParser : StatusParser StatusState Message.HttpResponse where
  step := StatusState.step
  finished := fun parser => isFinal parser.message.1
  failed := fun parser => parser.message.hasError
  init := .new
  reset := .reset
  httpField := .httpField
  lengthDigits := StatusState.lengthDigits
  getData := fun parser => parser.message.getData
  chunked := StatusState.chunked
  getContentLength := fun parser => getContentLength parser.message.getData.headers
  connection := fun parser => parser.message.getData.headers.getHeader (ascii "connection")

/-- `HttpResponseParser`. -/
abbrev responseParser : ResponseParser (ClientState StatusState) Message.HttpResponse :=
  client statusParser

namespace StatusState

/-- The header `Transfer-Encoding` has been set. -/
def HasEncoding (memory : Memory BuiltResponse) : Prop :=
  (memory.data.data.headers.find (ascii "transfer-encoding")).isSome

/-- An action takes no header away. -/
theorem hasEncoding_perform {memory : Memory BuiltResponse} (action : Action)
    (there : HasEncoding memory) : HasEncoding (responseCallbacks.perform memory action) := by
  cases action with
  | writeValue =>
      show HasEncoding (memory.call (onHttpField HttpResponse.setHeader _ _))
      unfold HasEncoding Memory.call onHttpField
      split_ifs
      · exact there
      · exact Headers.isSome_find_setHeader.mpr (Or.inr there)
  | httpVersion =>
      show HasEncoding (memory.call (onVersion HttpResponse.setVersion _))
      unfold HasEncoding Memory.call onVersion
      split_ifs
      · exact there
      · exact there
      · exact there
  | _ => exact there

theorem hasEncoding_foldl (actions : List Action) :
    ∀ memory, HasEncoding memory → HasEncoding (actions.foldl responseCallbacks.perform memory) := by
  induction actions with
  | nil => exact fun _ there => there
  | cons action actions ih =>
      intro memory there
      exact ih _ (hasEncoding_perform action there)

/-- The field that a byte ends is called back. -/
theorem foldl_of_endedField {parser : MessageParser ResponseState Message.HttpResponse}
    {byte : UInt8} {field : List UInt8 × List UInt8} (ended : endedField parser byte = some field) :
    ((responseGrammar.next parser.1 byte).1.foldl responseCallbacks.perform parser.2).data =
      onHttpField HttpResponse.setHeader field.1 field.2 parser.2.data := by
  unfold endedField at ended
  split at ended
  · rename_i actions
    cases ended
    rw [actions]
    rfl
  · rename_i actions
    cases ended
    rw [actions]
    rfl
  · cases ended

/-- The flag is set only when the header is. -/
def Encoded (parser : StatusState) : Prop :=
  parser.chunked = true → HasEncoding parser.message.2

theorem encoded_step (parser : StatusState) (byte : UInt8) (kept : parser.Encoded) :
    (parser.step byte).Encoded := by
  intro flagged
  rcases (Bool.or_eq_true _ _).mp flagged with before | now
  · exact hasEncoding_foldl _ parser.message.2 (kept before)
  · cases ended : endedField parser.message byte with
    | none =>
        rw [ended] at now
        cases now
    | some field =>
        rw [ended] at now
        have isNamed : field.1.map toLower = ascii "transfer-encoding" := by
          have both := (Bool.and_eq_true _ _).mp now
          exact of_decide_eq_true both.1
        have some : field.1.length ≠ 0 := by
          intro empty
          rw [List.eq_nil_of_length_eq_zero empty] at isNamed
          cases isNamed
        show (((responseGrammar.next parser.message.1 byte).1.foldl responseCallbacks.perform
          parser.message.2).data.data.headers.find (ascii "transfer-encoding")).isSome
        rw [foldl_of_endedField ended, onHttpField, if_neg some]
        refine Headers.isSome_find_setHeader.mpr (Or.inl ?_)
        rw [← foldCase_map_toLower, isNamed]

end StatusState

/-- **A response without `Transfer-Encoding`** is not taken for chunked. -/
theorem plain_of_accepts {head : List UInt8} {final : StatusState}
    (accepted : statusParser.accepts statusParser.init head = some final)
    (none : final.message.getData.headers.find (ascii "transfer-encoding") = none) :
    final.chunked = false := by
  have kept : final.Encoded := Scanner.accepts_invariant StatusState.encoded_step accepted
    fun flagged => absurd flagged Bool.false_ne_true
  by_contra flagged
  have there := kept (Bool.not_eq_false _ ▸ flagged)
  unfold StatusState.HasEncoding at there
  rw [show final.message.2.data.data = final.message.getData from rfl, none] at there
  cases there

/-! ### The printed messages -/

variable {request : Message.HttpRequest} {response : Message.HttpResponse}

/-- The head of a printed request. -/
def requestHead (request : Message.HttpRequest) : List UInt8 :=
  request.requestLine ++ request.fields.flatMap printHeader ++ crlf

/-- The head of a printed response. -/
def responseHead (response : Message.HttpResponse) : List UInt8 :=
  response.statusLine ++ response.fields.flatMap printHeader ++ crlf

/-- A request as the server has it. -/
def received (request : Message.HttpRequest) : Message.HttpRequest :=
  { Message.HttpRequest.new with
    method := request.method
    version := request.version
    path := request.path
    query := request.query
    fragment := request.fragment
    headers := request.parsedHeaders false }

/-- A response as the client has it. -/
def receivedBack (response : Message.HttpResponse) : Message.HttpResponse :=
  { Message.HttpResponse.new with
    version := response.version
    status := response.status
    reason := response.effectiveReason
    headers := response.parsedHeaders }

/-- A head that is fed as a whole is accepted. -/
theorem accepts_of_feed_head {σ : Type*} {scanner : Scanner σ UInt8} {state final : σ}
    {head : List UInt8} (some : head ≠ []) (fed : scanner.feed state (head ++ []) = (final, head.length))
    (finishes : scanner.finished final = true) (fine : scanner.failed final = false) :
    scanner.accepts state head = .some final := by
  rw [List.append_nil] at fed
  have found : scanner.accepts state (head.take (scanner.feed state head).2) =
      .some (scanner.feed state head).1 :=
    Scanner.accepts_of_feed some (by rw [fed]; exact finishes) (by rw [fed]; exact fine)
  rw [fed, List.take_length] at found
  exact found

theorem head_ne_nil (front : List UInt8) : front ++ crlf ≠ [] :=
  List.append_ne_nil_of_right_ne_nil _ (List.cons_ne_nil _ _)

/-- **The head of a printed request is accepted.** -/
theorem accepts_request (printable : request.Printable false)
    (inGrammar : request.method.InGrammar) (unbarred : request.Unbarred) :
    ∃ state, messageParser.accepts messageParser.init (requestHead request) = some state ∧
      state.getData = received request := by
  have acceptable : ∀ entry ∈ request.fields, (requestGrammar false).headers.Accepts entry :=
    accepts_fields (fields_perm request) printable.headers (flag_visible request).2
      fun entry mem byte isByte => isBarred_iff.mpr (unbarred entry mem byte isByte)
  obtain ⟨memory, fed, isData⟩ := feed_head (reads_requestLine printable inGrammar) acceptable
    (foldsLast_request _) (Memory.init ⟨HttpRequest.new, 0⟩) rfl []
  rw [httpFields_onHttpField rfl (named_of_accepts acceptable), foldl_setRequestHeader] at isData
  have accepted := accepts_of_feed_head (head_ne_nil _) fed rfl rfl
  refine ⟨(.inr .done, memory), ?_, ?_⟩
  · refine Scanner.accepts_of_stays (hasError_step keepErrors_request) accepted ?_
    rw [MessageParser.hasError, isData]
    rfl
  · rw [MessageParser.getData, isData]
    rfl

/-- The machine without the fields accepts the head of a printed response. -/
theorem accepts_responseHead (printable : response.Printable) :
    ∃ memory, responseMachine.scanner.accepts HttpResponseParser.new (responseHead response) =
        some (.inr .done, memory) ∧
      memory.data = ⟨receivedBack response, 0⟩ := by
  obtain ⟨some, visible⟩ := visible_flag response
  have acceptable : ∀ entry ∈ response.fields, responseGrammar.headers.Accepts entry :=
    accepts_fields (List.Perm.refl _) printable.headers visible fun _ _ _ _ => rfl
  have closed : responseGrammar.headers.foldsLast response.fields false = false := by
    unfold HttpResponse.fields HeaderGrammar.foldsLast
    rw [List.foldl_append]
    exact folds_fields _ some visible
  obtain ⟨memory, fed, isData⟩ := feed_head (reads_statusLine printable ⟨HttpResponse.new, 0⟩)
    acceptable closed (Memory.init ⟨HttpResponse.new, 0⟩) rfl []
  rw [httpFields_onHttpField rfl (named_of_accepts acceptable), foldl_setHeader] at isData
  exact ⟨memory, accepts_of_feed_head (head_ne_nil _) fed rfl rfl, isData⟩

/-- A printed response begins with the `H` of its version, which is no hexadecimal digit. -/
theorem client_accepts {head : List UInt8} {final : StatusState}
    (letter : ∀ byte ∈ head.head?, isXdigit byte = false)
    (accepted : statusParser.accepts statusParser.init head = some final) :
    responseParser.accepts responseParser.init head = some (.response final) := by
  cases head with
  | nil => cases accepted
  | cons byte head =>
      have first : responseParser.step responseParser.init byte =
          .response (statusParser.step statusParser.init byte) := by
        show (if isXdigit byte then _ else _) = _
        rw [letter byte rfl, if_neg Bool.false_ne_true]
      have later (middle : StatusState) (rest : List UInt8) (isRest : statusParser.accepts middle rest =
          some final) : responseParser.accepts (.response middle) rest = some (.response final) := by
        induction rest generalizing middle with
        | nil => cases isRest
        | cons byte rest ih =>
            rcases Scanner.accepts_cons_eq_some.mp isRest with ⟨stops, rfl, fine, rfl⟩ | ⟨goesOn, after⟩
            · exact Scanner.accepts_cons_eq_some.mpr (.inl ⟨stops, rfl, fine, rfl⟩)
            · exact Scanner.accepts_cons_eq_some.mpr (.inr ⟨goesOn, ih _ after⟩)
      rcases Scanner.accepts_cons_eq_some.mp accepted with ⟨stops, rfl, fine, rfl⟩ | ⟨goesOn, after⟩
      · refine Scanner.accepts_cons_eq_some.mpr (.inl ?_)
        rw [first]
        exact ⟨stops, rfl, fine, rfl⟩
      · refine Scanner.accepts_cons_eq_some.mpr (.inr ?_)
        rw [first]
        exact ⟨goesOn, later _ _ after⟩

theorem first_responseHead (response : Message.HttpResponse) :
    ∀ byte ∈ (responseHead response).head?, isXdigit byte = false := by
  have begins : responseHead response = 72 :: (responseHead response).tail := by
    have letters : ascii "HTTP/" = 72 :: ascii "TTP/" := by decide
    unfold responseHead HttpResponse.statusLine printVersion
    simp only [letters, List.append_assoc, List.cons_append, List.tail_cons]
  rw [begins]
  rintro byte ⟨⟩
  decide

/-- Reading sets no header `Transfer-Encoding` that is not printed. -/
theorem parsedHeaders_noEncoding (printable : response.Printable)
    (noEncoding : response.headers.find (ascii "transfer-encoding") = none) :
    response.parsedHeaders.find (ascii "transfer-encoding") = none := by
  rw [Option.eq_none_iff_forall_ne_some]
  intro entry isFound
  obtain ⟨isEntry, isKey⟩ := Headers.find_eq_some.mp isFound
  rcases ((announces_response printable).mem entry).mp isEntry with given | rfl | length
  · obtain ⟨old, isOld, rfl⟩ := List.mem_map.mp given
    have there := Headers.find_eq_some.mpr ⟨isOld, show headerKey old = _ from isKey⟩
    rw [noEncoding] at there
    cases there
  · exact absurd (show foldCase (ascii "connection") = _ from isKey) (by decide)
  · rw [headerKey_lengthField length] at isKey
    exact absurd isKey (by decide)

/-- **The head of a printed response is accepted**, and without a header `Transfer-Encoding` it is not
taken for chunked. -/
theorem accepts_response (printable : response.Printable)
    (noEncoding : response.headers.find (ascii "transfer-encoding") = none) :
    ∃ state, responseParser.accepts responseParser.init (responseHead response) = some (.response state) ∧
      state.message.getData = receivedBack response ∧ state.chunked = false := by
  obtain ⟨memory, accepted, isData⟩ := accepts_responseHead printable
  have fine : MessageParser.hasError (φ := ResponseState) (.inr .done, memory) = false := by
    rw [MessageParser.hasError, isData]
    rfl
  have stays := Scanner.accepts_of_stays (hasError_step keepErrors_response) accepted fine
  obtain ⟨state, found, isState⟩ : ∃ last,
      statusParser.accepts StatusState.new (responseHead response) = some last ∧
        last.message = (.inr .done, memory) :=
    Scanner.accepts_of_view StatusState.message (fun _ _ => rfl) (fun _ => rfl) (fun _ => rfl) stays
  have data : state.message.getData = receivedBack response := by
    rw [isState, MessageParser.getData, isData]
  refine ⟨state, client_accepts (first_responseHead response) found, data, plain_of_accepts found ?_⟩
  rw [data]
  exact parsedHeaders_noEncoding printable noEncoding

end Wyze.Http
