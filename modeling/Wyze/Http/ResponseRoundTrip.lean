/-
**A printed response is parsed back, but for its close flag.**

`HttpResponse::dump` prints `colse` for a response that closes its connection, and `getIsClose` of the
parser looks for `close`. Everything else that is printed is read back:

* `reads_statusLine`: the status line, with the version, the status and the effective reason.
* `parsed_eq`: the parser has the headers of the message and the two lines of its own.
* `response_roundTrips_iff`: a response comes back if and only if it keeps its connection open and no
  value begins with a byte that the grammar takes for a blank.
-/
import Wyze.Http.PrintedFields

namespace Wyze.Http.Message

/-! ### The status line -/

/-- A response as the parser has it. -/
abbrev BuiltResponse := Built HttpResponse

/-- The rest of the protocol. -/
theorem quiet_protocol {left : List UInt8} (some : left ≠ []) :
    (responseGrammar.machine responseCallbacks).Quiet (.inl (.protocol left)) left
      (.inl (.major false)) := by
  refine Transducer.Quiet.literal (fun left => Sum.inl (ResponseState.protocol left)) some
    (fun byte left => ?_) (fun _ => ?_) ?_
  · refine (if_neg (not_not_intro rfl)).trans ?_
    cases left <;> rfl
  · exact ⟨rfl, rfl⟩
  · exact ⟨rfl, rfl⟩

theorem ascii_space : ascii " " = [32] := by decide

/-- A version of one digit on either side. -/
theorem reads_version {text : List UInt8} {digit : UInt8} (isDigit : isDigit digit = true)
    (isText : text = 72 :: (ascii "TTP/" ++ [49, 46, digit])) (built : BuiltResponse) :
    responseGrammar.Reads responseCallbacks (.inl .start) built (text ++ ascii " ")
      (.inl (.status false)) (onVersion HttpResponse.setVersion text built) := by
  have begins : (responseGrammar.machine responseCallbacks).next (.inl .start) 72 =
      ([.mark], .inl (.protocol (ascii "TTP/"))) := rfl
  have ends : (responseGrammar.machine responseCallbacks).next (.inl (.minor true)) 32 =
      ([.httpVersion], .inl (.status false)) := rfl
  have major : (responseGrammar.machine responseCallbacks).next (.inl (.major false)) 49 =
      ([], .inl (.major true)) := rfl
  have point : (responseGrammar.machine responseCallbacks).next (.inl (.major true)) 46 =
      ([], .inl (.minor false)) := rfl
  have minor : (responseGrammar.machine responseCallbacks).next (.inl (.minor false)) digit =
      ([], .inl (.minor true)) := if_pos isDigit
  have quiet : (responseGrammar.machine responseCallbacks).Quiet (.inl (.protocol (ascii "TTP/")))
      (ascii "TTP/" ++ [49, 46, digit]) (.inl (.minor true)) :=
    (quiet_protocol (by decide)).append (.cons major ⟨rfl, rfl⟩ (.cons point ⟨rfl, rfl⟩
      (.cons minor ⟨rfl, rfl⟩ (.nil _))))
  rw [ascii_space, isText]
  refine reads_text begins ⟨rfl, rfl⟩ quiet ends ⟨rfl, rfl⟩ (fun memory => ?_) built
  rw [foldl_consume]
  rfl

/-- **The version is read.** -/
theorem reads_responseVersion {version : UInt8} (known : version = 0x10 ∨ version = 0x11)
    (built : BuiltResponse) :
    responseGrammar.Reads responseCallbacks (.inl .start) built (printVersion version ++ ascii " ")
      (.inl (.status false)) { built with data := built.data.setVersion version } := by
  rw [← onVersion_printVersion known]
  rcases known with rfl | rfl
  · have isText : printVersion 0x10 = 72 :: (ascii "TTP/" ++ [49, 46, 48]) := by decide
    exact reads_version rfl isText built
  · have isText : printVersion 0x11 = 72 :: (ascii "TTP/" ++ [49, 46, 49]) := by decide
    exact reads_version rfl isText built

/-- **The status is read.** -/
theorem reads_status (status : Nat) (built : BuiltResponse) :
    responseGrammar.Reads responseCallbacks (.inl (.status false)) built
      (decimal status ++ ascii " ") (.inl (.reason false))
      (onResponseStatus (decimal status) built) := by
  obtain ⟨byte, more, text⟩ := List.exists_cons_of_ne_nil (decimal_ne_nil status)
  have areDigits (digit : UInt8) (mem : digit ∈ byte :: more) : isDigit digit = true :=
    isDigit_of_mem_decimal (text ▸ mem)
  obtain ⟨here, later⟩ := List.forall_mem_cons.mp areDigits
  have begins : (responseGrammar.machine responseCallbacks).next (.inl (.status false)) byte =
      ([.mark], .inl (.status true)) := if_pos here
  have stays : ∀ byte ∈ more,
      (responseGrammar.machine responseCallbacks).next (.inl (.status true)) byte =
        ([], .inl (.status true)) := fun byte mem => if_pos (later byte mem)
  have ends : (responseGrammar.machine responseCallbacks).next (.inl (.status true)) 32 =
      ([.statusCode], .inl (.reason false)) := rfl
  rw [ascii_space, text]
  refine reads_text begins ⟨rfl, rfl⟩ (.stay stays ⟨rfl, rfl⟩) ends ⟨rfl, rfl⟩ (fun memory => ?_) built
  rw [foldl_consume]
  rfl

/-- **The reason is read.** -/
theorem reads_reason {reason : List UInt8} (some : reason ≠ [])
    (unbroken : ∀ byte ∈ reason, byte ≠ 10 ∧ byte ≠ 13) (built : BuiltResponse) :
    responseGrammar.Reads responseCallbacks (.inl (.reason false)) built (reason ++ crlf)
      (.inr (.line false)) (onResponseReason reason built) := by
  obtain ⟨byte, more, rfl⟩ := List.exists_cons_of_ne_nil some
  obtain ⟨here, later⟩ := List.forall_mem_cons.mp unbroken
  have begins : (responseGrammar.machine responseCallbacks).next (.inl (.reason false)) byte =
      ([.mark], .inl (.reason true)) := if_neg here.1
  have stays : ∀ byte ∈ more,
      (responseGrammar.machine responseCallbacks).next (.inl (.reason true)) byte =
        ([], .inl (.reason true)) := by
    intro byte mem
    obtain ⟨noFeed, noReturn⟩ := later byte mem
    exact (if_neg noFeed).trans (if_neg noReturn)
  have ends : (responseGrammar.machine responseCallbacks).next (.inl (.reason true)) 13 =
      ([.reasonPhrase], .inr (.newline false)) := rfl
  have line : byte :: more ++ crlf = (byte :: more ++ [13]) ++ [10] := by
    rw [List.append_assoc]
    rfl
  rw [line]
  refine Grammar.Reads.trans ?_ (reads_newline false _)
  refine reads_text begins ⟨rfl, rfl⟩ (.stay stays ⟨rfl, rfl⟩) ends ⟨rfl, rfl⟩ (fun memory => ?_) built
  rw [foldl_consume]
  rfl

/-! ### Printable responses -/

/-- A response that can be printed: version 1.0 or 1.1, a known status, and a reason and headers that
fit on their lines. -/
structure HttpResponse.Printable (response : HttpResponse) : Prop where
  version : response.version = 0x10 ∨ response.version = 0x11
  status : (httpStatusMap.lookup response.status).isSome
  reason : ∀ byte ∈ response.reason, byte ≠ 10 ∧ byte ≠ 13
  headers : ∀ entry ∈ response.headers.entries, Message.Printable entry
  body : response.body.length < 2 ^ 64

variable {response : HttpResponse}

/-- The texts of the statuses fit on a line. -/
theorem httpStatusMap_unbroken {entry : Nat × String} (mem : entry ∈ httpStatusMap) :
    ascii entry.2 ≠ [] ∧ ∀ byte ∈ ascii entry.2, byte ≠ 10 ∧ byte ≠ 13 := by
  have all : httpStatusMap.all (fun entry => !(ascii entry.2).isEmpty &&
      (ascii entry.2).all fun byte => decide (byte ≠ 10 ∧ byte ≠ 13)) = true := by
    decide +kernel
  have here := List.all_eq_true.mp all entry mem
  rw [Bool.and_eq_true, Bool.not_eq_true', List.isEmpty_eq_false_iff] at here
  exact ⟨here.1, forall_mem_of_all here.2⟩

theorem effectiveReason_unbroken (printable : response.Printable) :
    response.effectiveReason ≠ [] ∧ ∀ byte ∈ response.effectiveReason, byte ≠ 10 ∧ byte ≠ 13 := by
  unfold HttpResponse.effectiveReason
  split
  · obtain ⟨text, known⟩ := Option.isSome_iff_exists.mp printable.status
    obtain ⟨front, back, isMap, _⟩ := List.lookup_eq_some_iff.mp known
    have mem : (response.status, text) ∈ httpStatusMap := by
      rw [isMap]
      exact List.mem_append_right _ List.mem_cons_self
    rw [httpStatusToString, known]
    exact httpStatusMap_unbroken mem
  · rename_i some
    exact ⟨some, printable.reason⟩

/-- The status line. -/
def HttpResponse.statusLine (response : HttpResponse) : List UInt8 :=
  printVersion response.version ++ ascii " " ++ (decimal response.status ++ ascii " ") ++
    (response.effectiveReason ++ crlf)

/-- **The status line is read.** -/
theorem reads_statusLine (printable : response.Printable) (built : BuiltResponse) :
    responseGrammar.Reads responseCallbacks (.inl .start) built response.statusLine
      (.inr (.line false))
      { built with
        data := { built.data with
          version := response.version
          status := response.status
          reason := response.effectiveReason } } := by
  have reason := effectiveReason_unbroken printable
  have reads := ((reads_responseVersion printable.version built).trans
    (reads_status response.status _)).trans (reads_reason reason.1 reason.2 _)
  rw [onResponseStatus, digits_decimal] at reads
  exact reads

/-! ### The whole head -/

/-- What `dump` prints for the flag `m_close`. -/
def HttpResponse.flag (response : HttpResponse) : List UInt8 :=
  ascii (if response.close then "colse" else "keep-alive")

theorem visible_flag (response : HttpResponse) : response.flag ≠ [] ∧ Visible response.flag := by
  unfold HttpResponse.flag
  cases response.close
  · exact ⟨by decide, forall_mem_of_all (by decide)⟩
  · exact ⟨by decide, forall_mem_of_all (by decide)⟩

/-- The lines below the status line, in their order. -/
def HttpResponse.fields (response : HttpResponse) : List (List UInt8 × List UInt8) :=
  response.headers.entries ++ connectionField response.flag :: lengthField response.body

theorem toString_eq (printable : response.Printable) :
    response.toString =
      response.statusLine ++ response.fields.flatMap printHeader ++ crlf ++ response.body := by
  have connection : ascii "connection: " = ascii "connection" ++ ascii ": " := by decide
  unfold HttpResponse.toString HttpResponse.statusLine HttpResponse.fields
  rw [printHeaders_eq printable.headers, printBody_eq, List.flatMap_append, List.flatMap_cons,
    connection]
  show _ = _ ++ (_ ++ (ascii "connection" ++ ascii ": " ++ response.flag ++ crlf ++ _)) ++ _ ++ _
  simp only [List.append_assoc, HttpResponse.flag]

/-- The headers that are set one after the other. -/
theorem foldl_setHeader (fields : List (List UInt8 × List UInt8)) (response : HttpResponse) :
    fields.foldl (fun response entry => response.setHeader entry.1 entry.2) response =
      { response with headers := response.headers.setAll fields } :=
  List.foldl_hom (fun headers => { response with headers := headers }) fun _ _ => rfl

/-- The headers as the parser has them. -/
def HttpResponse.parsedHeaders (response : HttpResponse) : Headers :=
  Headers.empty.setAll (response.fields.map responseGrammar.headers.trim)

/-- The parser after the text of the response. -/
def HttpResponse.parsed (response : HttpResponse) : MessageParser ResponseState HttpResponse :=
  (HttpResponseParser.execute HttpResponseParser.new response.toString).1

/-- **The parser finishes at the end of the head**, and this is what it has built. -/
theorem parsed_eq (printable : response.Printable) :
    ∃ memory : Memory BuiltResponse,
      response.parsed = (.inr .done, memory) ∧
        memory.data =
          { data := { HttpResponse.new with
              version := response.version
              status := response.status
              reason := response.effectiveReason
              headers := response.parsedHeaders }
            error := 0 } := by
  obtain ⟨some, visible⟩ := visible_flag response
  have accepted : ∀ entry ∈ response.fields, responseGrammar.headers.Accepts entry :=
    accepts_fields (List.Perm.refl _) printable.headers visible fun _ _ _ _ => rfl
  have closed : responseGrammar.headers.foldsLast response.fields false = false := by
    unfold HttpResponse.fields HeaderGrammar.foldsLast
    rw [List.foldl_append]
    exact folds_fields _ some visible
  obtain ⟨memory, fed, isData⟩ := feed_head (reads_statusLine printable ⟨HttpResponse.new, 0⟩)
    accepted closed (Memory.init ⟨HttpResponse.new, 0⟩) rfl response.body
  rw [httpFields_onHttpField rfl (named_of_accepts accepted), foldl_setHeader] at isData
  refine ⟨memory, ?_, isData⟩
  unfold HttpResponse.parsed HttpResponseParser.execute
  rw [toString_eq printable]
  exact congrArg Prod.fst fed

theorem announces_response (printable : response.Printable) :
    Announces responseGrammar.headers response.headers response.flag response.body
      response.parsedHeaders :=
  announces_setAll printable.headers (visible_flag response).2 (List.Perm.refl _)

/-! ### The round trip -/

/-- **A response comes back from its text.** -/
structure HttpResponse.RoundTrips (response : HttpResponse) : Prop where
  finished : response.parsed.isFinished = 1
  noError : response.parsed.hasError = false
  version : response.parsed.getData.version = response.version
  status : response.parsed.getData.status = response.status
  reason : response.parsed.getData.effectiveReason = response.effectiveReason
  headers : (response.parsed.getData.headers.delHeader (ascii "connection")).delHeader
    (ascii "content-length") = response.headers
  close : getIsClose response.parsed.getData.headers = response.close
  contentLength : getContentLength response.parsed.getData.headers = response.body.length

/-- No value begins with a vertical tab or a form feed, which `space` has among the blanks. -/
def HttpResponse.Unspaced (response : HttpResponse) : Prop :=
  ∀ entry ∈ response.headers.entries, ∀ byte ∈ entry.2.head?, byte ≠ 11 ∧ byte ≠ 12

/-- The printed flag reads as an open connection, whatever it was. -/
theorem getIsClose_parsed (printable : response.Printable) :
    getIsClose response.parsedHeaders = false := by
  rw [getIsClose, (announces_response printable).connection, HttpResponse.flag]
  cases response.close <;> decide

/-- Nothing is lost of a printable value if and only if it begins with neither of the two. -/
theorem trim_response_iff {entry : List UInt8 × List UInt8} (printable : Printable entry) :
    responseGrammar.headers.trim entry = entry ↔
      ∀ byte ∈ entry.2.head?, byte ≠ 11 ∧ byte ≠ 12 := by
  rw [HeaderGrammar.trim_eq_self_iff]
  refine forall₂_congr fun byte front => ?_
  have := printable.unpadded byte front
  have blank_iff : responseGrammar.headers.isBlank byte = true ↔
      byte = 9 ∨ byte = 11 ∨ byte = 12 ∨ byte = 32 := by
    simp [responseGrammar, or_assoc]
  rw [Bool.eq_false_iff, Ne, blank_iff]
  tauto

/-- **A response comes back if and only if** it keeps its connection open and begins no value with a
blank of the grammar. -/
theorem response_roundTrips_iff (printable : response.Printable) :
    response.RoundTrips ↔ response.close = false ∧ response.Unspaced := by
  obtain ⟨memory, isParsed, isData⟩ := parsed_eq printable
  have announces := announces_response printable
  have closes := getIsClose_parsed printable
  have kept : response.Unspaced ↔
      ∀ entry ∈ response.headers.entries, responseGrammar.headers.trim entry = entry :=
    forall₂_congr fun entry mem => (trim_response_iff (printable.headers entry mem)).symm
  have isParsedData : response.parsed.getData = memory.data.data := by
    rw [isParsed]
    rfl
  rw [kept, ← announces.given_iff]
  constructor
  · intro trips
    have headers := trips.headers
    have close := trips.close
    rw [isParsedData, isData] at headers close
    exact ⟨close.symm.trans closes, headers⟩
  · intro ⟨isOpen, headers⟩
    refine ⟨?_, ?_, ?_, ?_, ?_, ?_, ?_, ?_⟩
    · rw [isParsed]
      rfl
    · rw [isParsed, MessageParser.hasError, isData]
      rfl
    · rw [isParsedData, isData]
    · rw [isParsedData, isData]
    · rw [isParsedData, isData, HttpResponse.effectiveReason]
      exact if_neg (effectiveReason_unbroken printable).1
    · rw [isParsedData, isData]
      exact headers
    · rw [isParsedData, isData, isOpen]
      exact closes
    · rw [isParsedData, isData]
      exact announces.contentLength printable.body

/-- A response that does: it keeps its connection open. -/
def openResponse : HttpResponse :=
  { HttpResponse.new with
    status := 404
    close := false
    body := ascii "gone"
    headers := Headers.empty.setHeader (ascii "Server") (ascii "wyze/1.0") }

theorem response_roundTrips_open : openResponse.RoundTrips := by
  have mem : ∀ entry ∈ openResponse.headers.entries, entry = (ascii "Server", ascii "wyze/1.0") :=
    fun entry mem => ((Headers.mem_setHeader rfl entry).mp mem).resolve_right List.not_mem_nil
  have printable : openResponse.Printable := by
    refine ⟨Or.inr rfl, by decide, nofun, fun entry isEntry => ?_, by decide⟩
    rw [mem entry isEntry]
    exact ⟨by decide, forall_mem_of_all (by decide), by decide, by decide,
      forall_mem_of_all (by decide), by rintro _ ⟨⟩; decide⟩
  refine (response_roundTrips_iff printable).mpr ⟨rfl, fun entry isEntry => ?_⟩
  rw [mem entry isEntry]
  rintro _ ⟨⟩
  decide

/-- **`HttpResponse()` does not come back**: it closes its connection, and its text does not. -/
theorem closing_response_reads_open :
    HttpResponse.new.Printable ∧ HttpResponse.new.close = true ∧
      getIsClose HttpResponse.new.parsed.getData.headers = false ∧ ¬ HttpResponse.new.RoundTrips := by
  have printable : HttpResponse.new.Printable :=
    ⟨Or.inr rfl, by decide, nofun, nofun, by decide⟩
  have reads : getIsClose HttpResponse.new.parsed.getData.headers = false := by
    obtain ⟨memory, isParsed, isData⟩ := parsed_eq printable
    rw [isParsed, MessageParser.getData, isData]
    exact getIsClose_parsed printable
  refine ⟨printable, rfl, reads, fun trips => ?_⟩
  have close := trips.close
  rw [reads] at close
  cases close

end Wyze.Http.Message
