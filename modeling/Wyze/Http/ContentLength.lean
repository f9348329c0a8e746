/-
**The length of a request's body.**

`HttpSession::recvRequest` takes the length of the body from the header `Content-length`: the text is
cast to `uint64_t` by `lexical_cast`, which knows signs, a text that cannot be cast counts as 0, and
the number is converted to `int64_t` before it is compared with the limit. What a text denotes in
decimal is another matter.

* `recvRequest_error_iff`, `length_of_recvRequest`: when a call on a delivered head returns no
  request, and how long the body is of one that it returns.
* `content_length_iff`: **the body has the length that the text denotes, and a text that denotes none,
  or one over the limit, makes the call return no request, exactly when the text is absent or denotes
  a number below 2^63, or the call is refused for the number it is cast to**; `length_defaulted` is a
  text that cannot be cast.
-/
import Wyze.Http.RequestRoundTrip
import Wyze.Http.Session

namespace Wyze.Http

open Segments
open Message (isDigit digits lexicalCast)

/-! ### What is announced -/

/-- A parser of requests with the headers it has read. -/
structure HeaderParser (σ ρ : Type*) extends Scanner σ UInt8 where
  init : σ
  headers : σ → Message.Headers
  getData : σ → ρ

variable {σ ρ : Type*}

/-- What `recvRequest` uses of the parser. -/
def HeaderParser.request (parser : HeaderParser σ ρ) : RequestParser σ ρ where
  toScanner := parser.toScanner
  init := parser.init
  getData := parser.getData
  getContentLength := fun state => Message.getContentLength (parser.headers state)
  connection := fun state => (parser.headers state).getHeader (ascii "connection")

/-- The text of the header `Content-length`. -/
def HeaderParser.lengthText (parser : HeaderParser σ ρ) (state : σ) : Option (List UInt8) :=
  ((parser.headers state).find (ascii "content-length")).map Prod.snd

/-- The number that a text denotes in decimal. -/
def decimalValue (text : List UInt8) : Option Nat :=
  if text = [] ∨ text.all isDigit = false then none else some (digits text)

/-- The length that the code takes from a text, as an `int64_t`. -/
def announced (text : Option (List UInt8)) : Int :=
  toInt64 ((text.bind lexicalCast).getD 0)

/-- **The result of a call is framed by a text**: a body is as long as the text denotes, and a text
that is no decimal number, or exceeds the limit, makes the call return no request. -/
def Framed (cfg : Config) (text : Option (List UInt8))
    (result : Except Failure (HttpRequest ρ × HttpSession)) : Prop :=
  match text with
  | none => ∀ request next, result = .ok (request, next) → request.body.length = 0
  | some text =>
    match decimalValue text with
    | none => ∃ failure, result = .error failure
    | some length =>
      (cfg.maxBodySize < length → ∃ failure, result = .error failure) ∧
        ∀ request next, result = .ok (request, next) → request.body.length = length

/-- The text is absent or denotes a number that an `int64_t` holds. -/
def Countable (text : Option (List UInt8)) : Prop :=
  ∀ value ∈ text, ∃ length, decimalValue value = some length ∧ length < 2 ^ 63

/-- As many bytes as announced follow the head, and what is missing of them when the head has been
read converts to a positive `int`. -/
def Arrives (cfg : Config) (need : Nat) (rest left : List UInt8) (wire : List (List UInt8))
    (length : Nat) : Prop :=
  length ≤ rest.length ∧
    (arrive cfg.bufferSize need left.length wire < need + length →
      0 < toInt32 (need + length - arrive cfg.bufferSize need left.length wire))

variable {cfg : Config} {parser : HeaderParser σ ρ}

/-! ### The body -/

/-- A read of a fixed size fails when the bytes are not there, or their number converts to an `int`
that is not positive. -/
theorem readFixSize_eq_none_iff {length : Nat} (pos : 0 < length) {wire : List (List UInt8)}
    (proper : Proper wire) :
    readFixSize length wire = none ↔
      ¬ (length ≤ wire.flatten.length ∧ 0 < toInt32 length) := by
  by_cases there : length ≤ wire.flatten.length
  · rw [readFixSize_eq pos proper there]
    by_cases positive : 0 < toInt32 length
    · rw [if_pos positive]
      exact iff_of_false (Option.some_ne_none _) (not_not_intro ⟨there, positive⟩)
    · rw [if_neg positive]
      exact iff_of_true rfl fun both => positive both.2
  · refine iff_of_true ?_ fun both => there both.1
    unfold readFixSize
    rw [fill_eq_none proper (Nat.lt_of_not_le there)]
    rfl

theorem length_of_readFixSize {length : Nat} (pos : 0 < length) {wire : List (List UInt8)}
    (proper : Proper wire) {result : List UInt8 × List (List UInt8)}
    (read : readFixSize length wire = some result) : result.1.length = length := by
  have filled : fill length length length wire = some result :=
    (Option.filter_eq_some_iff.mp read).1
  exact (eq_of_fill pos (Nat.le_refl _) proper filled).1

theorem not_error_ok {α : Type*} (value : α) :
    ¬ ∃ failure, (.ok value : Except Failure α) = .error failure := by
  rintro ⟨failure, failed⟩
  cases failed

/-- **When the branch of the body fails.** -/
theorem recvBody_error_iff {left : List UInt8} {head : Parsed σ} {length : Int}
    {request : List UInt8 → HttpRequest ρ} (proper : Proper head.wire) :
    (∃ failure, recvBody cfg left head length request = .error failure) ↔
      toInt64 cfg.maxBodySize < length ∨
        0 < length ∧ head.data.length < length.toNat + head.nparse ∧
          ¬ (length.toNat - (head.data.length - head.nparse) ≤ head.wire.flatten.length ∧
            0 < toInt32 (length.toNat - (head.data.length - head.nparse))) := by
  rw [recvBody]
  by_cases long : toInt64 cfg.maxBodySize < length
  · rw [if_pos long]
    exact iff_of_true ⟨_, rfl⟩ (Or.inl long)
  · rw [if_neg long]
    by_cases positive : 0 < length
    · rw [if_pos positive]
      by_cases short : head.data.length < length.toNat + head.nparse
      · have missing : 0 < length.toNat - (head.data.length - head.nparse) := by omega
        have fails := readFixSize_eq_none_iff missing proper
        rw [if_pos short]
        cases read : readFixSize (length.toNat - (head.data.length - head.nparse)) head.wire with
        | none => exact iff_of_true ⟨_, rfl⟩ (Or.inr ⟨positive, short, fails.mp read⟩)
        | some result =>
            refine iff_of_false (not_error_ok _) ?_
            rintro (long' | ⟨_, _, refused⟩)
            · exact long long'
            · rw [fails.mpr refused] at read
              cases read
      · rw [if_neg short]
        exact iff_of_false (not_error_ok _) (not_or.mpr ⟨long, fun all => short all.2.1⟩)
    · rw [if_neg positive]
      exact iff_of_false (not_error_ok _) (not_or.mpr ⟨long, fun all => positive all.1⟩)

/-- **The length of a body that is returned.** -/
theorem length_of_recvBody {left : List UInt8} {head : Parsed σ} {length : Int} {data : ρ}
    {close : Bool} {result : HttpRequest ρ × HttpSession} (proper : Proper head.wire)
    (parsed : head.nparse ≤ head.data.length)
    (returned : recvBody cfg left head length (fun body => ⟨data, body, close⟩) = .ok result) :
    result.1.body.length = length.toNat := by
  rw [recvBody] at returned
  by_cases long : toInt64 cfg.maxBodySize < length
  · rw [if_pos long] at returned
    cases returned
  · rw [if_neg long] at returned
    by_cases positive : 0 < length
    · rw [if_pos positive] at returned
      by_cases short : head.data.length < length.toNat + head.nparse
      · have missing : 0 < length.toNat - (head.data.length - head.nparse) := by omega
        rw [if_pos short] at returned
        cases read : readFixSize (length.toNat - (head.data.length - head.nparse)) head.wire with
        | none =>
            rw [read] at returned
            cases returned
        | some more =>
            have count := length_of_readFixSize missing proper read
            rw [read] at returned
            cases returned
            dsimp only
            rw [List.length_append, List.length_drop, count]
            omega
      · rw [if_neg short] at returned
        cases returned
        dsimp only
        rw [List.length_take, List.length_drop]
        omega
    · rw [if_neg positive] at returned
      cases returned
      exact (Int.toNat_of_nonpos (Int.not_lt.mp positive)).symm

/-! ### The call -/

section

variable {head rest left : List UInt8} {wire : List (List UInt8)} {state : σ}

/-- The call on a head that is delivered. -/
theorem recvRequest_delivered (accepted : parser.accepts parser.init head = some state)
    (incoming : Incoming cfg.bufferSize head.length head rest left wire) (more : wire ≠ []) :
    recvRequest cfg parser.request ⟨left, wire⟩ = recvBody cfg left
      ⟨state, held cfg.bufferSize head.length left wire, head.length,
        skip (arrive cfg.bufferSize head.length left.length wire - left.length) wire⟩
      (announced (parser.lengthText state)) fun body =>
        ⟨parser.getData state, body,
          isClose ((parser.headers state).getHeader (ascii "connection"))⟩ := by
  have message : Incoming cfg.bufferSize head.length (head ++ []) rest left wire := by
    rw [List.append_nil]
    exact incoming
  have found : readAndParse parser.request.toScanner cfg.bufferSize parser.request.init
      (restoreLeft cfg left) 0 wire = .ok ⟨state, held cfg.bufferSize head.length left wire,
        head.length, skip (arrive cfg.bufferSize head.length left.length wire - left.length) wire⟩ := by
    rw [restoreLeft_of_le (Nat.le_of_lt incoming.room)]
    exact readAndParse_incoming accepted message more
  have same : toInt64 (parser.request.getContentLength state) =
      announced (parser.lengthText state) := by
    show toInt64 (((parser.headers state).find _).elim 0 _) = _
    rw [announced, HeaderParser.lengthText]
    cases (parser.headers state).find (ascii "content-length") <;> rfl
  rw [recvRequest, found]
  dsimp only
  rw [same]
  rfl

/-- **When the call on a delivered head returns no request.** -/
theorem recvRequest_error_iff (accepted : parser.accepts parser.init head = some state)
    (incoming : Incoming cfg.bufferSize head.length head rest left wire) (more : wire ≠ []) :
    (∃ failure, recvRequest cfg parser.request ⟨left, wire⟩ = .error failure) ↔
      toInt64 cfg.maxBodySize < announced (parser.lengthText state) ∨
        0 < announced (parser.lengthText state) ∧
          ¬ Arrives cfg head.length rest left wire (announced (parser.lengthText state)).toNat := by
  have reads := incoming.le_arrive
  have found := incoming.need_le_arrive
  have most := incoming.arrive_le
  have unread : (skip (arrive cfg.bufferSize head.length left.length wire - left.length)
      wire).flatten.length =
      (head ++ rest).length - arrive cfg.bufferSize head.length left.length wire := by
    rw [incoming.flatten_skip_sub reads, List.length_drop]
  rw [recvRequest_delivered accepted incoming more,
    recvBody_error_iff (proper_skip incoming.proper _)]
  dsimp only
  rw [incoming.length_held, unread, Arrives]
  rw [List.length_append] at most ⊢
  generalize arrive cfg.bufferSize head.length left.length wire = got at found most
  generalize (announced (parser.lengthText state)).toNat = length
  refine or_congr_right (and_congr_right fun _ => ?_)
  by_cases short : got < head.length + length
  · have missing : length - (got - head.length) = head.length + length - got := by omega
    have there : head.length + length - got ≤ head.length + rest.length - got ↔
        length ≤ rest.length := by omega
    rw [missing, there]
    exact ⟨fun fails both => fails.2 ⟨both.1, both.2 short⟩,
      fun fails => ⟨by omega, fun both => fails ⟨both.1, fun _ => both.2⟩⟩⟩
  · refine iff_of_false (fun fails => short ?_) (not_not_intro ⟨by omega, fun less => ?_⟩)
    · omega
    · exact absurd less short

/-- **The length of the body** of a request that the call returns. -/
theorem length_of_recvRequest (accepted : parser.accepts parser.init head = some state)
    (incoming : Incoming cfg.bufferSize head.length head rest left wire) (more : wire ≠ [])
    {request : HttpRequest ρ} {next : HttpSession}
    (returned : recvRequest cfg parser.request ⟨left, wire⟩ = .ok (request, next)) :
    request.body.length = (announced (parser.lengthText state)).toNat := by
  rw [recvRequest_delivered accepted incoming more] at returned
  refine length_of_recvBody (proper_skip incoming.proper _) ?_ returned
  rw [incoming.length_held]
  exact incoming.need_le_arrive

/-! ### What the text denotes -/

/-- A decimal number below 2^64 is cast as it is. -/
theorem lexicalCast_of_decimalValue {text : List UInt8} {length : Nat}
    (denotes : decimalValue text = some length) :
    lexicalCast text = if 2 ^ 64 ≤ length then none else some length := by
  rw [decimalValue] at denotes
  split_ifs at denotes with bad
  obtain ⟨nonempty, notAll⟩ := not_or.mp bad
  have each : text.all isDigit = true := Bool.not_eq_false _ ▸ notAll
  cases denotes
  have unsigned : lexicalCast text = Message.unsignedCast text := by
    obtain ⟨first, later, rfl⟩ := List.exists_cons_of_ne_nil nonempty
    have isDigit := (List.all_eq_true.mp each) first List.mem_cons_self
    rw [lexicalCast]
    · rintro _ same
      cases same
      exact absurd isDigit (by decide)
    · rintro _ same
      cases same
      exact absurd isDigit (by decide)
  rw [unsigned, Message.unsignedCast, each]
  simp only [nonempty, Bool.not_true, Bool.or_false, decide_false, Bool.false_or, decide_eq_true_eq]

/-- The length taken from a text that an `int64_t` holds is the one it denotes. -/
theorem announced_of_lt {text : List UInt8} {length : Nat}
    (denotes : decimalValue text = some length) (small : length < 2 ^ 63) :
    announced (some text) = length := by
  rw [announced, Option.bind_some, lexicalCast_of_decimalValue denotes, if_neg (by omega),
    Option.getD_some, toInt64_of_lt small]

/-- The length taken from a larger number is not positive. -/
theorem announced_of_le {text : List UInt8} {length : Nat}
    (denotes : decimalValue text = some length) (large : 2 ^ 63 ≤ length) :
    announced (some text) ≤ 0 := by
  rw [announced, Option.bind_some, lexicalCast_of_decimalValue denotes]
  by_cases huge : 2 ^ 64 ≤ length
  · rw [if_pos huge]
    decide
  · have wraps : toInt64 length = length - 2 ^ 64 := by
      unfold toInt64
      rw [Int.bmod_def]
      omega
    rw [if_neg huge, Option.getD_some, wraps]
    omega

/-- **A request is framed by its `Content-length`** exactly when the text is absent or denotes a number
that an `int64_t` holds, or the number it is cast to is over the limit or does not arrive. -/
theorem content_length_iff (parser : HeaderParser σ ρ)
    (accepted : parser.accepts parser.init head = some state)
    (incoming : Incoming cfg.bufferSize head.length head rest left wire) (more : wire ≠ []) :
    Framed cfg (parser.lengthText state) (recvRequest cfg parser.request ⟨left, wire⟩) ↔
      Countable (parser.lengthText state) ∨
        toInt64 cfg.maxBodySize < announced (parser.lengthText state) ∨
        0 < announced (parser.lengthText state) ∧
          ¬ Arrives cfg head.length rest left wire (announced (parser.lengthText state)).toNat := by
  have fails := @recvRequest_error_iff _ _ cfg parser _ _ _ _ _ accepted incoming more
  have lengths := fun request next => @length_of_recvRequest _ _ cfg parser _ _ _ _ _ accepted
    incoming more request next
  rw [← fails]
  cases isText : parser.lengthText state with
  | none =>
      refine iff_of_true (fun request next returned => ?_) (Or.inl nofun)
      rw [lengths request next returned, isText]
      rfl
  | some text =>
      rw [isText] at lengths fails
      cases denotes : decimalValue text with
      | none =>
          have uncountable : ¬ Countable (some text) := by
            intro countable
            obtain ⟨length, isLength, _⟩ := countable text rfl
            rw [denotes] at isLength
            cases isLength
          simp only [Framed, denotes, uncountable, false_or]
      | some length =>
          simp only [Framed, denotes]
          by_cases small : length < 2 ^ 63
          · have announces := announced_of_lt denotes small
            refine iff_of_true ⟨fun long => fails.mpr (Or.inl ?_), fun request next returned => ?_⟩
              (Or.inl fun value isValue => ?_)
            · rw [announces, toInt64_of_lt (by omega)]
              omega
            · rw [lengths request next returned, announces, Int.toNat_natCast]
            · cases isValue
              exact ⟨length, denotes, small⟩
          · have nothing := announced_of_le denotes (Nat.le_of_not_lt small)
            have uncountable : ¬ Countable (some text) := by
              intro countable
              obtain ⟨length', isLength, small'⟩ := countable text rfl
              rw [denotes] at isLength
              cases isLength
              exact small small'
            simp only [uncountable, false_or]
            constructor
            · rintro ⟨_, framed⟩
              cases result : recvRequest cfg parser.request ⟨left, wire⟩ with
              | error failure => exact ⟨failure, rfl⟩
              | ok returned =>
                  have denoted := framed returned.1 returned.2 result
                  rw [lengths returned.1 returned.2 result] at denoted
                  omega
            · rintro ⟨failure, failed⟩
              refine ⟨fun _ => ⟨failure, failed⟩, fun request next returned => ?_⟩
              rw [failed] at returned
              cases returned

end

/-- `HttpRequestParser`, as the generated machine and its callbacks make it. -/
def messageParser : HeaderParser (Message.MessageParser Message.RequestState Message.HttpRequest)
    Message.HttpRequest where
  toScanner := { (Message.requestMachine false).scanner with failed := Message.MessageParser.hasError }
  init := Message.HttpRequestParser.new
  headers := fun parser => parser.getData.headers
  getData := Message.MessageParser.getData

/-- The head of a request with that `Content-length`. -/
def lengthHead (text : String) : List UInt8 :=
  ascii ("POST /c HTTP/1.1\r\nContent-Length: " ++ text ++ "\r\n\r\n")

/-- The parser's state after that head. -/
def lengthState (text : String) : Message.MessageParser Message.RequestState Message.HttpRequest :=
  (messageParser.accepts messageParser.init (lengthHead text)).getD messageParser.init

theorem accepts_lengthHead {text : String}
    (accepted : (messageParser.accepts messageParser.init (lengthHead text)).isSome = true) :
    messageParser.accepts messageParser.init (lengthHead text) = some (lengthState text) := by
  obtain ⟨state, isState⟩ := Option.isSome_iff_exists.mp accepted
  rw [lengthState, isState, Option.getD_some]

/-- A call on a new connection, on which the head and five more bytes arrive in one segment. -/
def lengthCall (text : String) : Except Failure (HttpRequest Message.HttpRequest × HttpSession) :=
  recvRequest defaultConfig messageParser.request ⟨[], [lengthHead text ++ ascii "hello"]⟩

theorem incoming_lengthHead {text : String}
    (fits : (lengthHead text).length ≤ defaultConfig.bufferSize) :
    Incoming defaultConfig.bufferSize (lengthHead text).length (lengthHead text) (ascii "hello") []
      [lengthHead text ++ ascii "hello"] where
  stream := by rw [List.nil_append, List.flatten_singleton]
  room := by decide
  proper := List.forall_mem_singleton.mpr (List.append_ne_nil_of_right_ne_nil _ (by decide))
  fits := fits
  inside := Nat.le_refl _

theorem content_length_five :
    Framed defaultConfig (messageParser.lengthText (lengthState "5")) (lengthCall "5") := by
  have isText : messageParser.lengthText (lengthState "5") = some (ascii "5") := by decide +kernel
  have countable : Countable (messageParser.lengthText (lengthState "5")) := by
    rw [isText]
    exact fun value isValue => ⟨5, by cases isValue; decide +kernel, by decide⟩
  have accepted := accepts_lengthHead
    (show (messageParser.accepts messageParser.init (lengthHead "5")).isSome = true by
      decide +kernel)
  have incoming := incoming_lengthHead
    (show (lengthHead "5").length ≤ defaultConfig.bufferSize by decide +kernel)
  rw [lengthCall]
  exact (content_length_iff messageParser accepted incoming (List.cons_ne_nil _ _)).mpr
    (Or.inl countable)

/-- **A text that cannot be cast counts as 0**: a request with `Content-Length: 5x` is returned without
a body, and its five bytes are left for the next request. -/
theorem length_defaulted :
    messageParser.lengthText (lengthState "5x") = some (ascii "5x") ∧
      decimalValue (ascii "5x") = none ∧
      (lengthCall "5x").map (fun returned => returned.1.body) = .ok [] ∧
      ¬ Framed defaultConfig (messageParser.lengthText (lengthState "5x")) (lengthCall "5x") := by
  have isText : messageParser.lengthText (lengthState "5x") = some (ascii "5x") := by
    decide +kernel
  have noNumber : decimalValue (ascii "5x") = none := by decide +kernel
  have returned : (lengthCall "5x").map (fun returned => returned.1.body) = .ok [] := by
    decide +kernel
  refine ⟨isText, noNumber, returned, ?_⟩
  generalize lengthCall "5x" = call at returned
  rw [isText]
  simp only [Framed, noNumber]
  rintro ⟨failure, rfl⟩
  cases returned

end Wyze.Http
