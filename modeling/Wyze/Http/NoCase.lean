/-
**Where `strncasecmp` compares a prefix.**

`getIsClose` compares as many characters as the `Connection` header has, and `CharsToHttpMethod` as many
as the name of the method has, so one of them takes every prefix of its word and the other every text
that goes on behind it. `getIsClose_iff` and `method_token_iff` say for which texts they are right.

* `equalNoCase_iff`: what the first characters of two texts have to do with one another.
* `stringToHttpMethod_eq_iff`: the sibling that compares whole texts.
* `behind_method`: the parser behind the token, and whatever it reads from there.
-/
import Wyze.Http.RequestRoundTrip

namespace Wyze.Http.Message

/-- Small letters end no text that did not end. -/
theorem toLower_eq_zero {byte : UInt8} : toLower byte = 0 ↔ byte = 0 := by
  unfold toLower
  split <;> grind

/-- **`strncasecmp` up to the length of the first text**, where the second has no byte 0: the first is
a prefix of the second, or goes on behind it with the byte 0. -/
theorem equalNoCase_iff {first second : List UInt8} (noEnd : (0 : UInt8) ∉ second) :
    equalNoCase first.length first second = true ↔
      first.map toLower <+: second.map toLower ∨ second.map toLower ++ [0] <+: first.map toLower := by
  induction first generalizing second with
  | nil => simp [equalNoCase]
  | cons byte first ih =>
    cases second with
    | nil =>
      rw [List.length_cons, equalNoCase, List.headD_cons, List.headD_nil, show toLower 0 = 0 from rfl]
      by_cases zero : byte = 0
      · subst zero
        simp [toLower]
      · have other : toLower byte ≠ 0 := fun isZero => zero (toLower_eq_zero.mp isZero)
        rw [if_pos other]
        simp [List.cons_prefix_cons, other.symm]
    | cons other second =>
      rw [List.mem_cons, not_or] at noEnd
      obtain ⟨here, later⟩ := noEnd
      rw [List.length_cons, equalNoCase, List.headD_cons, List.headD_cons, List.tail_cons,
        List.tail_cons]
      by_cases same : toLower byte = toLower other
      · have notZero : byte ≠ 0 := by
          rintro rfl
          exact here (toLower_eq_zero.mp same.symm).symm
        simp [same, notZero, ih later]
      · simp [same, List.cons_prefix_cons, eq_comm]

/-- The same where the first text has no byte 0: it is a prefix of the second. -/
theorem equalNoCase_iff_prefix {first second : List UInt8} (noEnd : (0 : UInt8) ∉ first) :
    equalNoCase first.length first second = true ↔
      first.map toLower <+: second.map toLower := by
  induction first generalizing second with
  | nil => simp [equalNoCase]
  | cons byte first ih =>
    rw [List.mem_cons, not_or] at noEnd
    obtain ⟨here, later⟩ := noEnd
    rw [List.length_cons, equalNoCase]
    cases second with
    | nil =>
      have other : toLower byte ≠ 0 := fun isZero => here (toLower_eq_zero.mp isZero).symm
      rw [List.headD_cons, List.headD_nil, show toLower 0 = 0 from rfl, if_pos other]
      simp
    | cons other second =>
      rw [List.headD_cons, List.headD_cons, List.tail_cons, List.tail_cons]
      by_cases same : toLower byte = toLower other
      · have notZero : byte ≠ 0 := fun isZero => here isZero.symm
        simp [same, notZero, ih later]
      · simp [same, List.cons_prefix_cons]

/-! ### `getIsClose` -/

/-- What `getIsClose` sets as `m_close`: as many characters as the header has are compared. -/
def closeFlag (headers : Headers) (name word : List UInt8) : Bool :=
  equalNoCase (headers.getHeader name).length (headers.getHeader name) word

/-- `HttpRequestParser::getIsClose`: the request, and what is returned. -/
def HttpRequestParser.getIsClose (data : HttpRequest) : HttpRequest × Bool :=
  let data := { data with close := closeFlag data.headers (ascii "Connection") (ascii "Close") }
  (data, data.close)

/-- `HttpResponseParser::getIsClose`: the response, and what is returned. -/
def HttpResponseParser.getIsClose (data : HttpResponse) : HttpResponse × Bool :=
  let data := { data with close := closeFlag data.headers (ascii "connection") (ascii "close") }
  (data, data.close)

/-- The `Connection` header is there and is `close`, in letters of either case. -/
def SaysClose (headers : Headers) : Prop :=
  ∃ entry, headers.find (ascii "connection") = some entry ∧ entry.2.map toLower = ascii "close"

/-- A text that is taken for `close`: a proper prefix of it, or one that goes on with the byte 0. -/
def Misread (value : List UInt8) : Prop :=
  value.length < 5 ∧ value.map toLower <+: ascii "close" ∨
    ascii "close" ++ [0] <+: value.map toLower

variable {headers : Headers}

/-- The spelling of the name makes no difference to `find`. -/
theorem getHeader_foldCase {first second : List UInt8} (same : foldCase first = foldCase second) :
    headers.getHeader first = headers.getHeader second := by
  rw [Headers.getHeader, Headers.getHeader, Headers.find, Headers.find, same]

/-- Both parsers set the flag that `Message.getIsClose` gives. -/
theorem closeFlag_eq {name word : List UInt8} (isName : foldCase name = foldCase (ascii "connection"))
    (isWord : word.map toLower = ascii "close") (noEnd : (0 : UInt8) ∉ word) :
    closeFlag headers name word = getIsClose headers := by
  have same (value : List UInt8) :
      equalNoCase value.length value word = equalNoCase value.length value (ascii "close") := by
    rw [Bool.eq_iff_iff, equalNoCase_iff noEnd, equalNoCase_iff (by decide), isWord,
      show (ascii "close").map toLower = ascii "close" by decide]
  rw [closeFlag, getIsClose, isClose, getHeader_foldCase isName, same]

/-- **When `getIsClose` says yes.** -/
theorem getIsClose_eq_true :
    getIsClose headers = true ↔
      (headers.getHeader (ascii "connection")).map toLower = ascii "close" ∨
        Misread (headers.getHeader (ascii "connection")) := by
  rw [getIsClose, isClose, equalNoCase_iff (by decide),
    show (ascii "close").map toLower = ascii "close" by decide, Misread]
  generalize headers.getHeader (ascii "connection") = value
  constructor
  · rintro (front | beyond)
    · by_cases short : value.length < 5
      · exact Or.inr (Or.inl ⟨short, front⟩)
      · refine Or.inl (front.eq_of_length (Nat.le_antisymm front.length_le ?_))
        rw [List.length_map]
        exact Nat.not_lt.mp short
    · exact Or.inr (Or.inr beyond)
  · rintro (same | ⟨_, front⟩ | beyond)
    · exact Or.inl (by simp only [same, List.prefix_rfl])
    · exact Or.inl front
    · exact Or.inr beyond

/-- A misread text is not `close`. -/
theorem not_close_of_misread {value : List UInt8} (misread : Misread value) :
    value.map toLower ≠ ascii "close" := by
  intro same
  have length : value.length = 5 := by rw [← List.length_map toLower, same]; rfl
  rcases misread with ⟨short, _⟩ | beyond
  · omega
  · have := beyond.length_le
    rw [List.length_map, length] at this
    revert this
    decide

/-- An absent header has no value. -/
theorem saysClose_iff :
    SaysClose headers ↔ (headers.getHeader (ascii "connection")).map toLower = ascii "close" := by
  rw [SaysClose, Headers.getHeader]
  cases headers.find (ascii "connection") with
  | none => simp [ascii]
  | some entry => simp

/-- What a parser sets and returns is what the `Connection` header says. -/
def ReportsClose (headers : Headers) (close returned : Bool) : Prop :=
  close = returned ∧ (returned = true ↔ SaysClose headers)

theorem reportsClose_iff (headers : Headers) :
    ReportsClose headers (getIsClose headers) (getIsClose headers) ↔
      ¬ Misread (headers.getHeader (ascii "connection")) := by
  rw [ReportsClose, getIsClose_eq_true, saysClose_iff]
  constructor
  · rintro ⟨_, right⟩ misread
    exact not_close_of_misread misread (right.mp (Or.inr misread))
  · intro other
    exact ⟨rfl, or_iff_left other⟩

/-- **When `getIsClose` is right**, in either parser: exactly if the header is no text that is taken
for `close`. An absent header is the empty text, which is. -/
theorem getIsClose_iff (request : HttpRequest) (response : HttpResponse) :
    (ReportsClose request.headers (HttpRequestParser.getIsClose request).1.close
        (HttpRequestParser.getIsClose request).2 ↔
      ¬ Misread (request.headers.getHeader (ascii "connection"))) ∧
    (ReportsClose response.headers (HttpResponseParser.getIsClose response).1.close
        (HttpResponseParser.getIsClose response).2 ↔
      ¬ Misread (response.headers.getHeader (ascii "connection"))) := by
  have ofRequest : closeFlag request.headers (ascii "Connection") (ascii "Close") =
      getIsClose request.headers := closeFlag_eq (by decide) (by decide) (by decide)
  have ofResponse : closeFlag response.headers (ascii "connection") (ascii "close") =
      getIsClose response.headers := closeFlag_eq rfl (by decide) (by decide)
  constructor
  · rw [HttpRequestParser.getIsClose]
    dsimp only
    rw [ofRequest]
    exact reportsClose_iff request.headers
  · rw [HttpResponseParser.getIsClose]
    dsimp only
    rw [ofResponse]
    exact reportsClose_iff response.headers

/-- A request without a `Connection` header closes its connection. -/
theorem getIsClose_absent :
    (HttpRequestParser.getIsClose HttpRequest.new).2 = true ∧
      ¬ ReportsClose HttpRequest.new.headers (HttpRequestParser.getIsClose HttpRequest.new).1.close
        (HttpRequestParser.getIsClose HttpRequest.new).2 := by
  refine ⟨by decide, ?_⟩
  rintro ⟨_, right⟩
  obtain ⟨entry, found, _⟩ := right.mp (by decide)
  exact absurd found (by rintro ⟨⟩)

/-! ### The methods -/

/-- `StringToHttpMethod`: the whole text is compared. -/
def stringToHttpMethod (text : List UInt8) : HttpMethod :=
  (httpMethods.find? fun method => foldCase (httpMethodToString method) = foldCase text).getD
    .invalidMethod

/-- Every method but the invalid one is in the map. -/
theorem mem_httpMethods {method : HttpMethod} : method ∈ httpMethods ↔ method ≠ .invalidMethod := by
  cases method <;> decide

/-- The bytes of the names: capital letters and the hyphen. -/
theorem bytes_of_httpMethod {method : HttpMethod} (mem : method ∈ httpMethods) {byte : UInt8}
    (here : byte ∈ httpMethodToString method) : 65 ≤ byte ∧ byte ≤ 90 ∨ byte = 45 := by
  have all : ∀ method ∈ httpMethods, ∀ byte ∈ httpMethodToString method,
      65 ≤ byte ∧ byte ≤ 90 ∨ byte = 45 := by decide +kernel
  exact all method mem byte here

/-- No name ends inside another one. -/
theorem eq_of_name_front {first second : HttpMethod} (mem : first ∈ httpMethods)
    (mem' : second ∈ httpMethods) (front : httpMethodToString first <+: httpMethodToString second) :
    first = second := by
  have all : ∀ first ∈ httpMethods, ∀ second ∈ httpMethods,
      httpMethodToString first <+: httpMethodToString second → first = second := by decide
  exact all first mem second mem' front

/-- A map that keeps apart what it meets keeps prefixes. -/
theorem prefix_map_iff {α β : Type} {image : α → β} {first second : List α}
    (apart : ∀ a ∈ first, ∀ b ∈ second, image a = image b → a = b) :
    first.map image <+: second.map image ↔ first <+: second := by
  induction first generalizing second with
  | nil => simp
  | cons a first ih =>
    cases second with
    | nil => simp
    | cons b second =>
      rw [List.map_cons, List.map_cons, List.cons_prefix_cons, List.cons_prefix_cons,
        ih fun a' here b' there => apart a' (List.mem_cons_of_mem _ here) b'
          (List.mem_cons_of_mem _ there)]
      refine and_congr_left fun _ => ⟨apart a List.mem_cons_self b List.mem_cons_self, ?_⟩
      rintro rfl
      rfl

/-- The bytes of a token differ from those of a name in more than their case. -/
theorem toLower_apart {byte other : UInt8} (isName : 65 ≤ byte ∧ byte ≤ 90 ∨ byte = 45)
    (isToken : isMethodByte other = true) (same : toLower byte = toLower other) : byte = other := by
  unfold isMethodByte isDigit at isToken
  unfold toLower at same
  grind

variable {token : List UInt8} {method : HttpMethod}

/-- **A name is found at the beginning of a token** without regard to what comes behind it. -/
theorem equalNoCase_name (mem : method ∈ httpMethods) (text : List UInt8) :
    equalNoCase (httpMethodToString method).length (httpMethodToString method) text = true ↔
      (httpMethodToString method).map toLower <+: text.map toLower := by
  refine equalNoCase_iff_prefix fun isZero => ?_
  have := bytes_of_httpMethod mem isZero
  revert this
  decide

/-- **`CharsToHttpMethod` does not look behind the token**: the space that ends it is in no name. -/
theorem charsToHttpMethod_append (token rest : List UInt8) :
    charsToHttpMethod (token ++ 32 :: rest) = charsToHttpMethod token := by
  have same (method : HttpMethod) (mem : method ∈ httpMethods) :
      equalNoCase (httpMethodToString method).length (httpMethodToString method)
          (token ++ 32 :: rest) =
        equalNoCase (httpMethodToString method).length (httpMethodToString method) token := by
    rw [Bool.eq_iff_iff, equalNoCase_name mem, equalNoCase_name mem, List.map_append]
    refine ⟨fun front => ?_, fun front => front.trans (List.prefix_append _ _)⟩
    by_cases short : (httpMethodToString method).length ≤ token.length
    · exact List.prefix_of_prefix_length_le front (List.prefix_append _ _) (by simpa using short)
    · -- the name would go on with the space
      have beyond : token.map toLower ++ [32] <+: (httpMethodToString method).map toLower := by
        refine List.prefix_of_prefix_length_le ?_ front (by simpa [Nat.succ_le_iff] using short)
        exact ⟨rest.map toLower, by simp [toLower]⟩
      obtain ⟨byte, here, isSpace⟩ := List.mem_map.mp
        (beyond.subset (List.mem_append_right _ (List.mem_singleton.mpr rfl)))
      have := bytes_of_httpMethod mem here
      unfold toLower at isSpace
      grind
  unfold charsToHttpMethod
  rw [← List.head?_filter, ← List.head?_filter, List.filter_congr same]

/-! ### What the two functions make of a token -/

/-- A name in front of a token, with regard to the case, is one without. -/
theorem equalNoCase_token (mem : method ∈ httpMethods)
    (bytes : ∀ byte ∈ token, isMethodByte byte = true) :
    equalNoCase (httpMethodToString method).length (httpMethodToString method) token = true ↔
      httpMethodToString method <+: token := by
  rw [equalNoCase_name mem]
  exact prefix_map_iff fun byte here other there =>
    toLower_apart (bytes_of_httpMethod mem here) (bytes other there)

/-- `CharsToHttpMethod` finds a method of the map at the beginning of the token. -/
theorem prefix_of_charsToHttpMethod (bytes : ∀ byte ∈ token, isMethodByte byte = true)
    (valid : charsToHttpMethod token ≠ .invalidMethod) :
    httpMethodToString (charsToHttpMethod token) <+: token := by
  cases found : httpMethods.find? fun method =>
      equalNoCase (httpMethodToString method).length (httpMethodToString method) token with
  | none =>
    rw [charsToHttpMethod, found] at valid
    exact absurd rfl valid
  | some method =>
    rw [charsToHttpMethod, found]
    exact (equalNoCase_token (List.mem_of_find?_eq_some found) bytes).mp
      (of_decide_eq_true (by simpa using List.find?_some found))

/-- It finds none only where there is none. -/
theorem charsToHttpMethod_eq_invalid (bytes : ∀ byte ∈ token, isMethodByte byte = true) :
    charsToHttpMethod token = .invalidMethod ↔
      ∀ method ∈ httpMethods, ¬ httpMethodToString method <+: token := by
  constructor
  · intro invalid method mem front
    cases found : httpMethods.find? fun method =>
        equalNoCase (httpMethodToString method).length (httpMethodToString method) token with
    | none =>
      have := List.find?_eq_none.mp found method mem
      exact this ((equalNoCase_token mem bytes).mpr front)
    | some other =>
      rw [charsToHttpMethod, found] at invalid
      exact mem_httpMethods.mp (List.mem_of_find?_eq_some found) invalid
  · intro absent
    by_contra valid
    exact absent _ (mem_httpMethods.mpr valid) (prefix_of_charsToHttpMethod bytes valid)

/-- A name and a token that `strcasecmp` does not tell apart are the same. -/
theorem foldCase_token (mem : method ∈ httpMethods)
    (bytes : ∀ byte ∈ token, isMethodByte byte = true) :
    foldCase (httpMethodToString method) = foldCase token ↔ httpMethodToString method = token := by
  refine ⟨fun same => ?_, fun same => by rw [same]⟩
  have name : (httpMethodToString method).takeWhile (· ≠ 0) = httpMethodToString method := by
    refine List.takeWhile_eq_self_iff.mpr fun byte here => ?_
    have := bytes_of_httpMethod mem here
    grind
  have whole : token.takeWhile (· ≠ 0) = token := by
    refine List.takeWhile_eq_self_iff.mpr fun byte here => ?_
    have := bytes byte here
    unfold isMethodByte isDigit at this
    grind
  rw [foldCase, foldCase, name, whole] at same
  have mapped : (httpMethodToString method).map (fun byte => (toLower byte).toNat) <+:
      token.map fun byte => (toLower byte).toNat := by
    simp only [same, List.prefix_rfl]
  have front : httpMethodToString method <+: token := by
    refine (prefix_map_iff fun byte here other there equal => ?_).mp mapped
    exact toLower_apart (bytes_of_httpMethod mem here) (bytes other there) (UInt8.toNat_inj.mp equal)
  exact front.eq_of_length (by simpa using congrArg List.length same)

/-- **`StringToHttpMethod` finds the method whose name the token is.** -/
theorem stringToHttpMethod_eq_iff (bytes : ∀ byte ∈ token, isMethodByte byte = true)
    (valid : method ≠ .invalidMethod) :
    stringToHttpMethod token = method ↔ httpMethodToString method = token := by
  have mem := mem_httpMethods.mpr valid
  cases found : httpMethods.find? fun method =>
      foldCase (httpMethodToString method) = foldCase token with
  | none =>
    rw [stringToHttpMethod, found]
    refine ⟨fun invalid => absurd invalid.symm valid, fun same => ?_⟩
    have := List.find?_eq_none.mp found method mem
    rw [same] at this
    simp at this
  | some other =>
    have otherMem := List.mem_of_find?_eq_some found
    have isName := (foldCase_token otherMem bytes).mp (by simpa using List.find?_some found)
    rw [stringToHttpMethod, found]
    constructor
    · rintro rfl
      exact isName
    · intro same
      show other = method
      exact eq_of_name_front otherMem mem (by simp only [isName, same, List.prefix_rfl])

/-! ### Behind the method -/

/-- The machine is behind the method. -/
def PastMethod : RequestState ⊕ HeaderState → Prop
  | .inl .start | .inl (.method _) => False
  | _ => True

/-- What the callbacks behind the method leave of what it was. -/
def KeepsMethod (first built : BuiltRequest) : Prop :=
  built.data.method = first.data.method ∧
    (built.error = first.error ∨ built.error = 1001 ∨ built.error = 1002)

/-- In the URI. -/
theorem pastMethod_inside (relaxed : Bool) (part : Part) (fresh : Bool) (byte : UInt8) :
    PastMethod (RequestState.insideNext relaxed part fresh byte).2 ∧
      .requestMethod ∉ (RequestState.insideNext relaxed part fresh byte).1 := by
  have enters : Action.requestMethod ∉ (if fresh then part.enter else []) := by
    cases fresh <;> cases part <;> decide
  unfold RequestState.insideNext
  dsimp only
  split
  · exact ⟨trivial, enters⟩
  split
  · exact ⟨trivial, enters⟩
  split
  · rename_i actions state leaves
    have outside : PastMethod (.inl state) ∧ Action.requestMethod ∉ actions := by
      unfold Part.leave at leaves
      split at leaves <;> cases leaves <;> exact ⟨trivial, by decide⟩
    refine ⟨outside.1, fun mem => ?_⟩
    exact (List.mem_append.mp mem).elim enters outside.2
  · exact ⟨trivial, List.not_mem_nil⟩

/-- In the header lines. -/
theorem not_mem_headerNext (grammar : HeaderGrammar) (state : HeaderState) (byte : UInt8) :
    .requestMethod ∉ (state.next grammar byte).1 := by
  have enters (byte : UInt8) : Action.requestMethod ∉ grammar.enter byte := by
    unfold HeaderGrammar.enter
    split <;> decide
  have inName (folded : Bool) (text : List UInt8) (byte : UInt8) :
      Action.requestMethod ∉ (HeaderState.nameNext grammar folded text byte).1 := by
    unfold HeaderState.nameNext
    split
    · exact List.not_mem_nil
    split
    · simp
    · exact List.not_mem_nil
  have finishes (folded : Bool) {enter : List Action} (quiet : .requestMethod ∉ enter) :
      Action.requestMethod ∉ (HeaderState.finish folded enter).1 := by
    unfold HeaderState.finish
    split
    · exact List.not_mem_nil
    · simpa using quiet
  cases state with
  | line folded =>
    rw [HeaderState.next]
    split
    · exact finishes folded (enters byte)
    split
    · exact enters byte
    split
    · exact enters byte
    · exact List.not_mem_nil
  | name folded text => exact inName folded text byte
  | colon folded | value =>
    rw [HeaderState.next]
    split
    · simp
    split
    · simp
    split <;> simp
  | newline folded =>
    rw [HeaderState.next]
    split <;> exact List.not_mem_nil
  | last folded =>
    rw [HeaderState.next]
    split
    · exact finishes folded List.not_mem_nil
    split
    · exact inName folded [13] byte
    · exact List.not_mem_nil
  | done | error | beyond => exact List.not_mem_nil

/-- **One transition behind the method** stays there, without the callback for it. -/
theorem pastMethod_next (relaxed : Bool) {state : RequestState ⊕ HeaderState} (past : PastMethod state)
    (byte : UInt8) : PastMethod ((requestMachine relaxed).next state byte).2 ∧
      .requestMethod ∉ ((requestMachine relaxed).next state byte).1 := by
  cases state with
  | inr state => exact ⟨trivial, not_mem_headerNext _ state byte⟩
  | inl state =>
    show PastMethod (RequestState.next relaxed state byte).2 ∧
      .requestMethod ∉ (RequestState.next relaxed state byte).1
    cases state with
    | start | method => exact past.elim
    | root =>
      rw [RequestState.next]
      split
      · exact ⟨trivial, List.not_mem_nil⟩
      · exact pastMethod_inside relaxed .path false byte
    | inside part fresh => exact pastMethod_inside relaxed part fresh byte
    | target | percent | xdigit | version | minor =>
      rw [RequestState.next]
      split <;> exact ⟨trivial, by simp⟩
    | protocol left =>
      rw [RequestState.next]
      split
      · exact ⟨trivial, List.not_mem_nil⟩
      · split <;> exact ⟨trivial, List.not_mem_nil⟩
    | newline =>
      rw [RequestState.next]
      split
      · exact ⟨trivial, by simp⟩
      · split <;> exact ⟨trivial, by simp⟩

variable {first : BuiltRequest} {relaxed : Bool}

/-- **The other callbacks** leave the method, and an error of theirs is 1001 or 1002. -/
theorem keepsMethod_perform {memory : Memory BuiltRequest} {action : Action}
    (other : action ≠ .requestMethod) (keeps : KeepsMethod first memory.data) :
    KeepsMethod first (requestCallbacks.perform memory action).data := by
  cases action with
  | requestMethod => exact absurd rfl other
  | writeValue =>
    show KeepsMethod first (onHttpField HttpRequest.setHeader _ _ memory.data)
    unfold onHttpField
    split
    · exact ⟨keeps.1, Or.inr (Or.inr rfl)⟩
    · exact keeps
  | httpVersion =>
    show KeepsMethod first (onVersion HttpRequest.setVersion _ memory.data)
    unfold onVersion
    split
    · exact keeps
    split
    · exact keeps
    · exact ⟨keeps.1, Or.inr (Or.inl rfl)⟩
  | mark | startField | writeField | requestUri | fragment | startQuery | queryString
  | requestPath | reasonPhrase | statusCode | done => exact keeps

theorem keepsMethod_foldl {actions : List Action} (others : .requestMethod ∉ actions)
    {memory : Memory BuiltRequest} (keeps : KeepsMethod first memory.data) :
    KeepsMethod first (actions.foldl requestCallbacks.perform memory).data := by
  induction actions generalizing memory with
  | nil => exact keeps
  | cons action actions ih =>
    rw [List.mem_cons, not_or] at others
    exact ih others.2 (keepsMethod_perform (Ne.symm others.1) keeps)

/-- **Whatever the parser reads behind the method**, it keeps it. -/
theorem feed_keepsMethod {state : RequestState ⊕ HeaderState} {memory : Memory BuiltRequest}
    (past : PastMethod state) (rest : List UInt8) :
    KeepsMethod memory.data ((requestMachine relaxed).scanner.feed (state, memory) rest).1.2.data := by
  have kept := @Scanner.feed_invariant _ _ (requestMachine relaxed).scanner (state, memory)
    (fun config => PastMethod config.1 ∧ KeepsMethod memory.data config.2.data) ?_ rest
    ⟨past, rfl, Or.inl rfl⟩
  · exact kept.2
  · rintro config byte ⟨past, keeps⟩
    obtain ⟨later, others⟩ := pastMethod_next relaxed past byte
    exact ⟨later, keepsMethod_foldl others keeps⟩

/-- **The parser behind a token**: the token has been called back, and that stays. -/
theorem behind_method (relaxed : Bool) (some : token ≠ []) (short : token.length ≤ 20)
    (bytes : ∀ byte ∈ token, isMethodByte byte = true) (rest : List UInt8) :
    KeepsMethod (onRequestMethod token ⟨HttpRequest.new, 0⟩)
      (HttpRequestParser.execute relaxed HttpRequestParser.new (token ++ 32 :: rest)).1.2.data ∧
    (HttpRequestParser.execute relaxed HttpRequestParser.new (token ++ [32])).1.2.data =
      onRequestMethod token ⟨HttpRequest.new, 0⟩ := by
  obtain ⟨memory, passed, isData⟩ :=
    @reads_token relaxed token some short bytes ⟨HttpRequest.new, 0⟩ (Memory.init _) rfl
  have fed (rest : List UInt8) :
      (HttpRequestParser.execute relaxed HttpRequestParser.new (token ++ 32 :: rest)).1 =
        ((requestMachine relaxed).scanner.feed (.inl .target, memory) rest).1 := by
    rw [List.append_cons, ← show ascii " " = [32] by decide]
    exact Scanner.feed_of_passes passed rest
  rw [← isData, fed]
  refine ⟨feed_keepsMethod (show PastMethod (.inl .target) from trivial) rest, ?_⟩
  rw [fed []]
  rfl

/-! ### When the parser is right about a token -/

/-- The parser has the method behind the token, and never an error of `on_request_method`. -/
def AcceptsAs (relaxed : Bool) (token : List UInt8) (method : HttpMethod) : Prop :=
  (HttpRequestParser.execute relaxed HttpRequestParser.new (token ++ [32])).1.2.data.error = 0 ∧
    ∀ rest, let built := (HttpRequestParser.execute relaxed HttpRequestParser.new
      (token ++ 32 :: rest)).1.2.data
      built.error ≠ 1000 ∧ built.data.method = method

/-- The parser has the error 1000 behind the token, and an error from there on. -/
def Refuses (relaxed : Bool) (token : List UInt8) : Prop :=
  (HttpRequestParser.execute relaxed HttpRequestParser.new (token ++ [32])).1.2.data.error = 1000 ∧
    ∀ rest, (HttpRequestParser.execute relaxed HttpRequestParser.new
      (token ++ 32 :: rest)).1.hasError = true

theorem acceptsAs_iff (some : token ≠ []) (short : token.length ≤ 20)
    (bytes : ∀ byte ∈ token, isMethodByte byte = true) (valid : method ≠ .invalidMethod) :
    AcceptsAs relaxed token method ↔ charsToHttpMethod token = method := by
  have behind := behind_method relaxed some short bytes
  rw [AcceptsAs, (behind []).2]
  unfold onRequestMethod at behind ⊢
  split
  · rename_i invalid
    rw [invalid]
    exact ⟨fun accepts => absurd accepts.1 (by decide), fun same => absurd same.symm valid⟩
  · rename_i found
    rw [if_neg found] at behind
    constructor
    · rintro ⟨_, later⟩
      exact (behind []).1.1.symm.trans (later []).2
    · intro same
      refine ⟨rfl, fun rest => ?_⟩
      obtain ⟨isMethod, isError⟩ := (behind rest).1
      refine ⟨?_, isMethod.trans same⟩
      rcases isError with none | version | field
      · rw [none]
        exact Nat.zero_ne_add_one 999
      · rw [version]
        decide
      · rw [field]
        decide

theorem refuses_iff (some : token ≠ []) (short : token.length ≤ 20)
    (bytes : ∀ byte ∈ token, isMethodByte byte = true) :
    Refuses relaxed token ↔ charsToHttpMethod token = .invalidMethod := by
  have behind := behind_method relaxed some short bytes
  rw [Refuses, (behind []).2]
  unfold onRequestMethod at behind ⊢
  split
  · rename_i invalid
    rw [if_pos invalid] at behind
    refine iff_of_true ⟨rfl, fun rest => ?_⟩ invalid
    rw [MessageParser.hasError, Bool.or_eq_true, decide_eq_true_eq]
    rcases (behind rest).1.2 with same | version | field
    · exact Or.inl (by rw [same]; decide)
    · exact Or.inl (by rw [version]; decide)
    · exact Or.inl (by rw [field]; decide)
  · rename_i found
    exact iff_of_false (fun refuses => absurd refuses.1 (Nat.zero_ne_add_one 999)) found

/-- **The law of a token**: the parser takes it for the method whose name it is, as `StringToHttpMethod`
does, and has the error 1000 for every other token. -/
structure TokenLaw (relaxed : Bool) (token : List UInt8) : Prop where
  accepts : ∀ method, method ≠ .invalidMethod →
    (AcceptsAs relaxed token method ↔ httpMethodToString method = token)
  agrees : ∀ method, method ≠ .invalidMethod →
    (AcceptsAs relaxed token method ↔ stringToHttpMethod token = method)
  refuses : (∀ method, method ≠ .invalidMethod → httpMethodToString method ≠ token) →
    Refuses relaxed token

/-- **When the law holds of a token**: exactly if it does not go on behind the name of a method. The
callback reads the buffer from the token on, and what lies behind the token makes no difference. -/
theorem method_token_iff (relaxed : Bool) (some : token ≠ []) (short : token.length ≤ 20)
    (bytes : ∀ byte ∈ token, isMethodByte byte = true) :
    (∀ rest built, onRequestMethod (token ++ 32 :: rest) built = onRequestMethod token built) ∧
      (TokenLaw relaxed token ↔ ∀ method, method ≠ .invalidMethod →
        httpMethodToString method <+: token → httpMethodToString method = token) := by
  refine ⟨fun rest built => ?_, fun law method valid front => ?_, fun exactly => ?_⟩
  · unfold onRequestMethod
    rw [charsToHttpMethod_append]
  · -- the method that is found is a name in front of the token, so it is the token
    have found : charsToHttpMethod token ≠ .invalidMethod := fun invalid =>
      (charsToHttpMethod_eq_invalid bytes).mp invalid method (mem_httpMethods.mpr valid) front
    have isToken := (law.accepts _ found).mp ((acceptsAs_iff some short bytes found).mpr rfl)
    rw [← isToken] at front
    rw [eq_of_name_front (mem_httpMethods.mpr valid) (mem_httpMethods.mpr found) front, isToken]
  · have accepts (method : HttpMethod) (valid : method ≠ .invalidMethod) :
        AcceptsAs relaxed token method ↔ httpMethodToString method = token := by
      rw [acceptsAs_iff some short bytes valid]
      constructor
      · rintro rfl
        exact exactly _ valid (prefix_of_charsToHttpMethod bytes valid)
      · rintro rfl
        exact charsToHttpMethod_string valid
    refine ⟨accepts, fun method valid => ?_, fun absent => ?_⟩
    · rw [accepts method valid, stringToHttpMethod_eq_iff bytes valid]
    · refine (refuses_iff some short bytes).mpr ((charsToHttpMethod_eq_invalid bytes).mpr ?_)
      intro method mem front
      have valid := mem_httpMethods.mp mem
      exact absent method valid (exactly method valid front)

/-- The law holds of `PURGE`. -/
theorem method_token_purge : TokenLaw false (ascii "PURGE") := by
  have all : ∀ method ∈ httpMethods, httpMethodToString method <+: ascii "PURGE" →
      httpMethodToString method = ascii "PURGE" := by decide
  exact (method_token_iff false (by decide) (by decide) (forall_mem_of_all (by decide))).2.mpr
    fun method valid => all method (mem_httpMethods.mpr valid)

/-- `GETX` is no method, and the parser takes it for `GET`. -/
theorem method_token_getx :
    AcceptsAs false (ascii "GETX") .get ∧ ¬ TokenLaw false (ascii "GETX") := by
  have accepts : AcceptsAs false (ascii "GETX") .get :=
    (acceptsAs_iff (by decide) (by decide) (forall_mem_of_all (by decide)) (by decide)).mpr (by decide)
  exact ⟨accepts, fun law => absurd ((law.accepts .get (by decide)).mp accepts) (by decide)⟩

end Wyze.Http.Message
