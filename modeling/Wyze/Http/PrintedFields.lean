/-
**The headers of a printed message.**

`dump` prints the headers of a message together with a `connection` and a `content-length` line.
`Printable` are the headers for which that works; `Announces` says what a parser has built of them.

* `announces_setAll`: it has kept every header, in whatever order they came.
* `Announces.connection`, `Announces.contentLength`: what is announced about the message.
* `Announces.given_iff`: without the two lines, the headers are those of the message if and only if
  their values lost nothing.
-/
import Mathlib.Data.List.TakeWhile
import Wyze.Http.HeaderLines

namespace Wyze.Http.Message

/-! ### The printed lines -/

/-- A header with a token as its name, other than the two that `dump` prints itself, and with a value
without line breaks and without a blank in front. -/
structure Printable (entry : List UInt8 × List UInt8) : Prop where
  named : entry.1 ≠ []
  token : ∀ byte ∈ entry.1, isToken byte = true
  notConnection : headerKey entry ≠ foldCase (ascii "connection")
  notLength : headerKey entry ≠ foldCase (ascii "content-length")
  unbroken : ∀ byte ∈ entry.2, byte ≠ 10 ∧ byte ≠ 13
  unpadded : ∀ byte ∈ entry.2.head?, byte ≠ 9 ∧ byte ≠ 32

/-- The `connection` line. -/
def connectionField (flag : List UInt8) : List UInt8 × List UInt8 := (ascii "connection", flag)

/-- The `content-length` line, if there is a body. -/
def lengthField (body : List UInt8) : List (List UInt8 × List UInt8) :=
  if body = [] then [] else [(ascii "content-length", decimal body.length)]

/-- The headers have no `connection`, so all of them are printed. -/
theorem printHeaders_eq {headers : Headers} (printable : ∀ entry ∈ headers.entries, Printable entry) :
    printHeaders headers = headers.entries.flatMap printHeader := by
  rw [printHeaders, List.filter_eq_self.mpr]
  intro entry mem
  exact decide_eq_true (printable entry mem).notConnection

theorem printBody_eq (body : List UInt8) :
    printBody body = (lengthField body).flatMap printHeader ++ crlf ++ body := by
  unfold printBody lengthField
  by_cases empty : body = []
  · rw [if_neg (not_not_intro empty), if_pos empty, empty]
    rfl
  · rw [if_pos empty, if_neg empty, List.flatMap_singleton]
    show _ = (ascii "content-length" ++ ascii ": " ++ decimal body.length ++ crlf) ++ crlf ++ body
    rfl

/-- A printed version is recognised. -/
theorem onVersion_printVersion {μ : Type} {version : UInt8} (known : version = 0x10 ∨ version = 0x11)
    (setVersion : UInt8 → μ → μ) (built : Built μ) :
    onVersion setVersion (printVersion version) built =
      { built with data := setVersion version built.data } := by
  unfold onVersion
  rcases known with rfl | rfl
  · have other :
        equalChars (printVersion 0x10).length (printVersion 0x10) (ascii "HTTP/1.1") = false := by
      decide
    have same : equalChars (printVersion 0x10).length (printVersion 0x10) (ascii "HTTP/1.0") = true := by
      decide
    rw [if_neg (by rw [other]; nofun), if_pos same]
  · have same : equalChars (printVersion 0x11).length (printVersion 0x11) (ascii "HTTP/1.1") = true := by
      decide
    rw [if_pos same]

/-! ### Visible values -/

/-- A byte that is neither blank nor a control character. -/
def Visible (text : List UInt8) : Prop := ∀ byte ∈ text, 33 ≤ byte ∧ byte < 127

theorem visible_decimal (number : Nat) : Visible (decimal number) := by
  intro byte mem
  have isDigit := isDigit_of_mem_decimal mem
  rw [Message.isDigit, Bool.and_eq_true, decide_eq_true_eq, decide_eq_true_eq] at isDigit
  grind

namespace HeaderGrammar

variable {grammar : HeaderGrammar}

/-- A token is a name. -/
theorem token_of_isToken {name : List UInt8} (token : ∀ byte ∈ name, Message.isToken byte = true) :
    ∀ byte ∈ name, grammar.isToken byte = true ∧ byte ≠ 10 ∧ byte ≠ 13 := by
  intro byte mem
  have isToken := token byte mem
  refine ⟨grammar.token byte isToken, ?_, ?_⟩ <;> (rintro rfl; cases isToken)

theorem fits_of_printable {entry : List UInt8 × List UInt8} (printable : Printable entry) :
    grammar.Fits entry :=
  ⟨printable.named, token_of_isToken printable.token, printable.unbroken⟩

/-- A token with a visible value. -/
theorem accepts_of_visible {name value : List UInt8} (named : name ≠ [])
    (token : ∀ byte ∈ name, Message.isToken byte = true) (visible : Visible value) :
    grammar.Accepts (name, value) where
  named := named
  token := token_of_isToken token
  unbroken := by
    intro byte mem
    have low := (visible byte mem).1
    constructor <;> (rintro rfl; exact absurd low (by decide))
  unbarred := by
    intro byte mem
    obtain ⟨low, high⟩ := visible byte mem
    exact (grammar.visible byte low high).2

/-- **Nothing is lost of a value** if and only if it does not begin with a blank. -/
theorem trim_eq_self_iff {entry : List UInt8 × List UInt8} :
    grammar.trim entry = entry ↔ ∀ byte ∈ entry.2.head?, grammar.isBlank byte = false := by
  obtain ⟨name, value⟩ := entry
  rw [trim, Prod.mk.injEq, eq_self, true_and, List.dropWhile_eq_self_iff]
  cases value <;> simp

theorem trim_of_visible {name value : List UInt8} (visible : Visible value) :
    grammar.trim (name, value) = (name, value) := by
  refine trim_eq_self_iff.mpr fun byte mem => ?_
  obtain ⟨low, high⟩ := visible byte (List.mem_of_mem_head? mem)
  exact (grammar.visible byte low high).1

theorem folds_of_visible {name value : List UInt8} (some : value ≠ []) (visible : Visible value) :
    grammar.folds (name, value) = false := by
  rw [folds, trim_of_visible visible, Bool.and_eq_false_iff]
  exact Or.inr (List.isEmpty_eq_false_iff.mpr some)

end HeaderGrammar

/-! ### What is announced -/

/-- **What a parser has built of the printed headers.** -/
structure Announces (grammar : HeaderGrammar) (headers : Headers) (flag body : List UInt8)
    (parsed : Headers) : Prop where
  printable : ∀ entry ∈ headers.entries, Printable entry
  mem : ∀ entry, entry ∈ parsed.entries ↔
    entry ∈ headers.entries.map grammar.trim ∨ entry = connectionField flag ∨
      entry ∈ lengthField body

variable {grammar : HeaderGrammar} {headers parsed : Headers} {flag body : List UInt8}

theorem headerKey_lengthField {entry : List UInt8 × List UInt8} (mem : entry ∈ lengthField body) :
    headerKey entry = foldCase (ascii "content-length") := by
  unfold lengthField at mem
  split at mem
  · cases mem
  · rw [List.mem_singleton.mp mem]
    rfl

theorem fields_differ : foldCase (ascii "content-length") ≠ foldCase (ascii "connection") := by decide

/-- The two lines of `dump` are always read. -/
theorem accepts_own (visible : Visible flag) :
    ∀ entry ∈ connectionField flag :: lengthField body, grammar.Accepts entry := by
  intro entry mem
  rcases List.mem_cons.mp mem with rfl | length
  · exact HeaderGrammar.accepts_of_visible (by decide) (forall_mem_of_all (by decide)) visible
  · unfold lengthField at length
    split at length
    · cases length
    · rw [List.mem_singleton.mp length]
      exact HeaderGrammar.accepts_of_visible (by decide) (forall_mem_of_all (by decide))
        (visible_decimal _)

theorem fits_fields {fields : List (List UInt8 × List UInt8)}
    (perm : fields.Perm (headers.entries ++ connectionField flag :: lengthField body))
    (printable : ∀ entry ∈ headers.entries, Printable entry) (visible : Visible flag) :
    ∀ entry ∈ fields, grammar.Fits entry := by
  intro entry mem
  rcases List.mem_append.mp (perm.mem_iff.mp mem) with given | own
  · exact HeaderGrammar.fits_of_printable (printable entry given)
  · exact (accepts_own visible entry own).toFits

/-- The grammar reads every line that is printed. -/
theorem accepts_fields {fields : List (List UInt8 × List UInt8)}
    (perm : fields.Perm (headers.entries ++ connectionField flag :: lengthField body))
    (printable : ∀ entry ∈ headers.entries, Printable entry) (visible : Visible flag)
    (unbarred : ∀ entry ∈ headers.entries, ∀ byte ∈ entry.2, grammar.isBarred byte = false) :
    ∀ entry ∈ fields, grammar.Accepts entry := by
  intro entry mem
  refine ⟨fits_fields perm printable visible entry mem, ?_⟩
  rcases List.mem_append.mp (perm.mem_iff.mp mem) with given | own
  · exact unbarred entry given
  · exact (accepts_own visible entry own).unbarred

/-- The last line that is printed does not go on. -/
theorem folds_fields (folded : Bool) (some : flag ≠ []) (visible : Visible flag) :
    grammar.foldsLast (connectionField flag :: lengthField body) folded = false := by
  show grammar.foldsLast (lengthField body) (grammar.folds (connectionField flag)) = false
  rw [connectionField, HeaderGrammar.folds_of_visible some visible]
  unfold lengthField
  split
  · rfl
  · exact HeaderGrammar.folds_of_visible (decimal_ne_nil _) (visible_decimal _)

/-- No two of the printed lines have the same name. -/
theorem nodup_headerKey (printable : ∀ entry ∈ headers.entries, Printable entry) :
    ((headers.entries ++ connectionField flag :: lengthField body).map headerKey).Nodup := by
  have given : (headers.entries.map headerKey).Nodup := by
    refine List.pairwise_map.mpr (List.Pairwise.imp (fun {first second} smaller => ?_) headers.ordered)
    exact ne_of_lt smaller
  have printed : ((connectionField flag :: lengthField body).map headerKey).Nodup := by
    rw [List.map_cons, List.nodup_cons]
    constructor
    · intro mem
      obtain ⟨entry, length, same⟩ := List.mem_map.mp mem
      rw [headerKey_lengthField length] at same
      exact absurd same fields_differ
    · unfold lengthField
      split
      · exact List.nodup_nil
      · exact List.pairwise_singleton _ _
  rw [List.map_append]
  refine List.nodup_append.mpr ⟨given, printed, fun key isGiven key' isPrinted => ?_⟩
  obtain ⟨entry, mem, rfl⟩ := List.mem_map.mp isGiven
  obtain ⟨other, mem', rfl⟩ := List.mem_map.mp isPrinted
  rcases List.mem_cons.mp mem' with rfl | length
  · exact (printable entry mem).notConnection
  · rw [headerKey_lengthField length]
    exact (printable entry mem).notLength

/-- **The parser keeps every field.** -/
theorem announces_setAll {fields : List (List UInt8 × List UInt8)}
    (printable : ∀ entry ∈ headers.entries, Printable entry) (visible : Visible flag)
    (perm : fields.Perm (headers.entries ++ connectionField flag :: lengthField body)) :
    Announces grammar headers flag body (Headers.empty.setAll (fields.map grammar.trim)) := by
  refine ⟨printable, fun entry => ?_⟩
  have trimmed : (connectionField flag :: lengthField body).map grammar.trim =
      connectionField flag :: lengthField body := by
    rw [List.map_cons, connectionField, HeaderGrammar.trim_of_visible visible, lengthField]
    split
    · rfl
    · rw [List.map_singleton, HeaderGrammar.trim_of_visible (visible_decimal _)]
  have keys : (fields.map grammar.trim).map headerKey = fields.map headerKey := List.map_map
  have distinct : ((fields.map grammar.trim).map headerKey).Nodup := by
    rw [keys, (perm.map headerKey).nodup_iff]
    exact nodup_headerKey printable
  rw [Headers.mem_setAll distinct fun _ _ => rfl, (perm.map grammar.trim).mem_iff, List.map_append,
    trimmed, List.mem_append, List.mem_cons]
  exact or_iff_right List.not_mem_nil

/-- The flag of the connection. -/
theorem Announces.connection (announces : Announces grammar headers flag body parsed) :
    parsed.getHeader (ascii "connection") = flag := by
  have mem : connectionField flag ∈ parsed.entries := (announces.mem _).mpr (Or.inr (Or.inl rfl))
  have found : parsed.find (ascii "connection") = some (connectionField flag) :=
    Headers.find_eq_some.mpr ⟨mem, rfl⟩
  rw [Headers.getHeader, found]
  rfl

/-- **The size of the body.** -/
theorem Announces.contentLength (announces : Announces grammar headers flag body parsed)
    (fits : body.length < 2 ^ 64) : getContentLength parsed = body.length := by
  unfold getContentLength Headers.getHeaderAs
  by_cases empty : body = []
  · have absent : parsed.find (ascii "content-length") = none := by
      rw [Option.eq_none_iff_forall_ne_some]
      intro entry isFound
      obtain ⟨isEntry, isKey⟩ := Headers.find_eq_some.mp isFound
      rcases (announces.mem entry).mp isEntry with given | rfl | length
      · obtain ⟨entry, isGiven, rfl⟩ := List.mem_map.mp given
        exact (announces.printable entry isGiven).notLength isKey
      · cases isKey
      · rw [lengthField, if_pos empty] at length
        cases length
    rw [absent, empty]
    rfl
  · have mem : (ascii "content-length", decimal body.length) ∈ parsed.entries := by
      refine (announces.mem _).mpr (Or.inr (Or.inr ?_))
      rw [lengthField, if_neg empty]
      exact List.mem_singleton_self _
    rw [Headers.find_eq_some.mpr ⟨mem, rfl⟩]
    show (lexicalCast (decimal body.length)).getD 0 = _
    rw [lexicalCast_decimal fits]
    rfl

/-- The headers without the two lines are the given ones, as they were read. -/
theorem Announces.mem_given (announces : Announces grammar headers flag body parsed)
    (entry : List UInt8 × List UInt8) :
    entry ∈ ((parsed.delHeader (ascii "connection")).delHeader (ascii "content-length")).entries ↔
      entry ∈ headers.entries.map grammar.trim := by
  rw [Headers.mem_delHeader, Headers.mem_delHeader, announces.mem]
  constructor
  · rintro ⟨⟨given | rfl | length, noConnection⟩, noLength⟩
    · exact given
    · exact absurd rfl noConnection
    · exact absurd (headerKey_lengthField length) noLength
  · intro mem
    obtain ⟨given, isGiven, rfl⟩ := List.mem_map.mp mem
    exact ⟨⟨Or.inl mem, (announces.printable given isGiven).notConnection⟩,
      (announces.printable given isGiven).notLength⟩

/-- **The headers come back** if and only if their values lost nothing. -/
theorem Announces.given_iff (announces : Announces grammar headers flag body parsed) :
    (parsed.delHeader (ascii "connection")).delHeader (ascii "content-length") = headers ↔
      ∀ entry ∈ headers.entries, grammar.trim entry = entry := by
  constructor
  · intro same entry mem
    have isTrimmed : grammar.trim entry ∈ headers.entries := by
      rw [← same, announces.mem_given]
      exact List.mem_map_of_mem mem
    have first := Headers.find_eq_some.mpr ⟨isTrimmed, rfl⟩
    have second : headers.find (grammar.trim entry).1 = some entry :=
      Headers.find_eq_some.mpr ⟨mem, rfl⟩
    exact Option.some.inj (first.symm.trans second)
  · intro kept
    refine Headers.ext_mem fun entry => ?_
    rw [announces.mem_given, List.map_congr_left kept, List.map_id']

end Wyze.Http.Message
