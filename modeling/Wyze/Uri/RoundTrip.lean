/-
**`Uri::Create` reads what `Uri::toString` prints.**

In front of the `@` the text after the first colon of an authority may be a port. A digit there moves
the mark, and `save_userinfo` takes the text from that digit on.

* `reads_userinfo`: what is taken of a `userinfo`.
* `create_toString`: what `Create` makes of a printed URI.
* `uri_round_trip_iff`: **printing and reading give the same URI exactly when no digit stands right
  behind the first colon of the `userinfo`, and the path is in the grammar**; `userinfo_cut` is a URI
  that comes back with another `userinfo`.
-/
import Mathlib.Data.List.TakeWhile
import Wyze.Uri.Accepted

namespace Wyze

open Http (ascii strtol)
open Http.Message (decimal digits isAlpha isDigit)

/-! ### The URIs of the grammar -/

/-- A number from 0 to 255 in decimal digits, without leading zeros. -/
def DecOctet (text : List UInt8) : Prop := ∃ number ≤ 255, text = decimal number

/-- Four of them. -/
def Ipv4Address (text : List UInt8) : Prop :=
  ∃ first second third fourth, DecOctet first ∧ DecOctet second ∧ DecOctet third ∧
    DecOctet fourth ∧ text = first ++ 46 :: (second ++ 46 :: (third ++ 46 :: fourth))

namespace Uri

/-- **The parts of the URI are in the grammar**; the path begins with a slash. -/
structure Valid (uri : Uri) : Prop where
  scheme : ∃ first more, uri.scheme = first :: more ∧ isAlpha first = true ∧
    ∀ byte ∈ more, isSchemeByte byte = true
  userinfo : Encoded isUserinfo uri.userinfo
  host : Encoded isRegName uri.host ∨ Ipv4Address uri.host
  port : 0 ≤ uri.port ∧ uri.port ≤ 65535
  path : uri.path = [] ∨ ∃ more, uri.path = 47 :: more
  query : Encoded isQueryByte uri.query
  fragment : Encoded isQueryByte uri.fragment

/-- The seven getters agree. -/
def Agrees (first second : Uri) : Prop :=
  first.scheme = second.scheme ∧ first.userinfo = second.userinfo ∧ first.host = second.host ∧
    first.getPort = second.getPort ∧ first.getPath = second.getPath ∧
    first.query = second.query ∧ first.fragment = second.fragment

/-- A digit stands right behind the first colon. -/
def marksPort (userinfo : List UInt8) : Bool :=
  match userinfo.dropWhile (· ≠ 58) with
  | _ :: digit :: _ => isDigit digit
  | _ => false

/-- What `save_userinfo` takes of a `userinfo`. -/
def keptUserinfo (userinfo : List UInt8) : List UInt8 :=
  if marksPort userinfo then (userinfo.dropWhile (· ≠ 58)).tail else userinfo

end Uri

theorem isRegName_of_mem_decimal {number : Nat} {byte : UInt8} (mem : byte ∈ decimal number) :
    isRegName byte = true :=
  isRegName_of_isDigit (Http.Message.isDigit_of_mem_decimal mem)

/-- **Every IPv4 address is a registered name.** -/
theorem encoded_of_ipv4 {text : List UInt8} (address : Ipv4Address text) :
    Encoded isRegName text := by
  obtain ⟨_, _, _, _, ⟨_, _, rfl⟩, ⟨_, _, rfl⟩, ⟨_, _, rfl⟩, ⟨_, _, rfl⟩, rfl⟩ := address
  have octet : ∀ number, Encoded isRegName (decimal number) := fun number =>
    Encoded.of_forall fun _ mem => isRegName_of_mem_decimal mem
  have dot : isRegName 46 = true := by decide
  exact (octet _).append (Encoded.byte dot ((octet _).append (Encoded.byte dot
    ((octet _).append (Encoded.byte dot (octet _))))))

/-! ### The parts in the machine -/

theorem enters_of_goOn {place target : UriPlace} {may : UInt8 → Bool} {actions : List UriAction}
    {otherwise : UInt8 → List UriAction × UriState}
    (next : ∀ byte, place.next byte = goOn may actions target byte (otherwise byte))
    (plain : may 37 = false) : place.Enters may actions target := by
  refine ⟨fun byte isByte => ?_, by rw [next, goOn, if_pos rfl]⟩
  have other : byte ≠ 37 := by
    rintro rfl
    rw [plain] at isByte
    cases isByte
  rw [next, goOn, if_neg other, if_pos isByte]

theorem enters_regName (named absolute : Bool) :
    (UriPlace.regName named absolute).Enters isRegName [] (.regName named absolute) :=
  enters_of_goOn (fun _ => rfl) (by decide)

theorem enters_authority (named absolute : Bool) :
    (UriPlace.authority named absolute).Enters isRegName [.markh] (.regName named absolute) := by
  refine ⟨fun byte isName => ?_, rfl⟩
  have others : byte ≠ 91 ∧ byte ≠ 37 := by
    refine ⟨?_, ?_⟩ <;>
      rintro rfl <;>
      exact absurd isName (by decide)
  show (if byte = 91 then _ else goOn _ _ _ byte _) = _
  rw [if_neg others.1, goOn, if_neg others.2, if_pos isName]

theorem enters_userinfo (absolute : Bool) :
    (UriPlace.userinfo absolute).Enters isUserinfo [] (.userinfo absolute) :=
  enters_of_goOn (fun _ => rfl) (by decide)

theorem enters_segments : UriPlace.segments.Enters isPathByte [] .segments :=
  enters_of_goOn (fun _ => rfl) (by decide)

theorem enters_query : UriPlace.query.Enters isQueryByte [.marku] .queryText :=
  enters_of_goOn (fun _ => rfl) (by decide)

theorem enters_queryText : UriPlace.queryText.Enters isQueryByte [] .queryText :=
  enters_of_goOn (fun _ => rfl) (by decide)

theorem enters_fragment : UriPlace.fragment.Enters isQueryByte [.marku] .fragmentText :=
  enters_of_goOn (fun _ => rfl) (by decide)

theorem enters_fragmentText : UriPlace.fragmentText.Enters isQueryByte [] .fragmentText :=
  enters_of_goOn (fun _ => rfl) (by decide)

/-- What the machine makes of a text from a place on. -/
def reads (place : UriPlace) (mark : Option (List UInt8)) (uri : Uri) (text : List UInt8) :
    Option (UriState × UriMemory) :=
  uriMachine.scanner.passes (.inside place, ⟨mark, uri, false⟩) text

section Reading

variable {uri : Uri} {mark : Option (List UInt8)}

/-- **The scheme**, up to the authority. -/
theorem reads_scheme {first : UInt8} {more : List UInt8} (alpha : isAlpha first = true)
    (schemeBytes : ∀ byte ∈ more, isSchemeByte byte = true) (rest : List UInt8) :
    reads .start mark uri (first :: more ++ ascii "://" ++ rest) =
      reads (.authority false true) none { uri with scheme := first :: more } rest := by
  have enters : UriPlace.start.next first = ([.marku], .inside .scheme) := if_pos alpha
  have stays : uriMachine.Quiet (.inside .scheme) more (.inside .scheme) :=
    Transducer.Quiet.stay (fun byte mem => if_pos (schemeBytes byte mem)) (runs_uriMachine (by simp))
  have colon : UriPlace.scheme.next 58 = ([.saveScheme], .inside .hier) := by decide
  have slash : UriPlace.hier.next 47 = ([], .inside (.slash true)) := by decide
  have slashes : (UriPlace.slash true).next 47 = ([], .inside (.authority false true)) := by decide
  have punctuation : ascii "://" = [58, 47, 47] := by decide
  rw [reads, List.append_assoc, List.cons_append, passes_next enters (by simp),
    Scanner.passes_of_passes (stays _), punctuation, List.cons_append,
    passes_next colon (by simp), List.cons_append, passes_next slash (by simp), List.cons_append,
    passes_next slashes (by simp), List.nil_append]
  simp [reads, UriMemory.perform, UriMemory.save, UriMemory.consume]

/-- A host, or what may be one, up to a byte that ends it. -/
theorem reads_name {host : List UInt8} (encoded : Encoded isRegName host) (nonempty : host ≠ [])
    (named absolute : Bool) (rest : List UInt8) :
    reads (.authority named absolute) mark uri (host ++ rest) =
      reads (.regName named absolute) (some host) uri rest := by
  rw [reads, enters_text encoded nonempty (enters_authority named absolute)
    (enters_regName named absolute)]
  simp [reads, UriMemory.perform]

/-- **A host**, or what may be one, up to the colon. -/
theorem reads_colon {host : List UInt8} (encoded : Encoded isRegName host) (named absolute : Bool)
    (rest : List UInt8) :
    reads (.authority named absolute) mark uri (host ++ 58 :: rest) =
      reads (.port named absolute) (some (host ++ [58])) { uri with host := host } rest := by
  by_cases empty : host = []
  · subst empty
    have colon : (UriPlace.authority named absolute).next 58 =
        ([.markh, .saveHost], .inside (.port named absolute)) := rfl
    rw [reads, List.nil_append, passes_next colon (by simp)]
    simp [reads, UriMemory.perform, UriMemory.consume]
  · have colon : (UriPlace.regName named absolute).next 58 =
        ([.saveHost], .inside (.port named absolute)) := rfl
    rw [reads_name encoded empty, reads, passes_next colon (by simp)]
    simp [reads, UriMemory.perform, UriMemory.consume]

/-- A host that ends at the path. -/
theorem reads_host {host : List UInt8} (encoded : Encoded isRegName host) (named : Bool)
    (rest : List UInt8) :
    reads (.authority named true) mark uri (host ++ 47 :: rest) =
      reads .segments (some [47]) { uri with host := host } rest := by
  by_cases empty : host = []
  · subst empty
    have slash : (UriPlace.authority named true).next 47 =
        ([.markh, .saveHost], .inside .segments) := by cases named <;> decide
    rw [reads, List.nil_append, passes_next slash (by simp)]
    simp [reads, UriMemory.perform, UriMemory.consume]
  · have slash : (UriPlace.regName named true).next 47 =
        ([.saveHost, .markh], .inside .segments) := by cases named <;> decide
    rw [reads_name encoded empty, reads, passes_next slash (by simp)]
    simp [reads, UriMemory.perform, UriMemory.consume]

/-- **A port** of at least one digit, up to the path. -/
theorem reads_port {number : Nat} (small : number < 2 ^ 31) (named : Bool) (rest : List UInt8) :
    reads (.port named true) mark uri (decimal number ++ 47 :: rest) =
      reads .segments (some [47]) { uri with port := number } rest := by
  have value : Http.toInt32 (strtol (digits (decimal number))) = number := by
    rw [Http.Message.digits_decimal, strtol, min_eq_left (by omega), Http.toInt32_of_lt small]
  have isDigit := fun byte => @Http.Message.isDigit_of_mem_decimal number byte
  have nonempty := Http.Message.decimal_ne_nil number
  cases isText : decimal number with
  | nil => exact absurd isText nonempty
  | cons first more =>
      rw [isText] at isDigit value
      obtain ⟨here, later⟩ := List.forall_mem_cons.mp isDigit
      have enters : (UriPlace.port named true).next first =
          ([.markh], .inside (.portDigits named true)) := if_pos here
      have stays : uriMachine.Quiet (.inside (.portDigits named true)) more
          (.inside (.portDigits named true)) :=
        Transducer.Quiet.stay (fun byte mem => if_pos (later byte mem)) (runs_uriMachine (by simp))
      have slash : (UriPlace.portDigits named true).next 47 =
          ([.savePort, .markh], .inside .segments) := by cases named <;> decide
      rw [reads, List.cons_append, passes_next enters (by simp),
        Scanner.passes_of_passes (stays _), passes_next slash (by simp)]
      simp [reads, UriMemory.perform, UriMemory.save, UriMemory.consume, value]

/-- The `@` behind what may have been a host or a port. -/
theorem passes_atSign {place : UriPlace} {text : List UInt8} {absolute : Bool}
    (atSign : place.next 64 = ([.saveUserinfo], .inside (.authority true absolute)))
    (rest : List UInt8) :
    reads place (some text) uri (64 :: rest) =
      reads (.authority true absolute) none { uri with userinfo := text } rest := by
  rw [reads, passes_next atSign (by simp)]
  simp [reads, UriMemory.perform, UriMemory.consume]

/-- The rest of a `userinfo`, when it cannot be a port. -/
theorem reads_rest (uri : Uri) (kept : List UInt8) {text : List UInt8}
    (encoded : Encoded isUserinfo text) (absolute : Bool) (rest : List UInt8) :
    reads (.userinfo absolute) (some kept) uri (text ++ 64 :: rest) =
      reads (.authority true absolute) none { uri with userinfo := kept ++ text } rest := by
  have stays := reads_text encoded (enters_userinfo absolute)
  have atSign : (UriPlace.userinfo absolute).next 64 =
      ([.saveUserinfo], .inside (.authority true absolute)) := rfl
  rw [reads, Scanner.passes_of_passes (stays _), ← passes_atSign atSign rest]
  simp [reads]

/-- Behind the colon of an authority, where no digit is read, a `userinfo` goes on. -/
def Turns (place : UriPlace) (absolute : Bool) : Prop :=
  ∃ otherwise : UInt8 → List UriAction × UriState, ∀ byte, isDigit byte = false →
    place.next byte = goOn isUserinfo [] (.userinfo absolute) byte
      (if byte = 64 then ([.saveUserinfo], .inside (.authority true absolute)) else otherwise byte)

/-- **What cannot be a port is a `userinfo`**, up to the `@`. -/
theorem reads_other {place : UriPlace} {absolute : Bool} (turns : Turns place absolute)
    {text kept : List UInt8} (encoded : Encoded isUserinfo text)
    (other : ∀ byte ∈ text.head?, isDigit byte = false) (rest : List UInt8) :
    reads place (some kept) uri (text ++ 64 :: rest) =
      reads (.authority true absolute) none { uri with userinfo := kept ++ text } rest := by
  obtain ⟨otherwise, turns⟩ := turns
  cases encoded with
  | nil =>
      have atSign : place.next 64 = ([.saveUserinfo], .inside (.authority true absolute)) :=
        turns 64 (by decide)
      rw [List.nil_append, passes_atSign atSign, List.append_nil]
  | @byte byte text here later =>
      have apart : byte ≠ 37 := by
        rintro rfl
        exact absurd here (by decide)
      have goes : place.next byte = ([], .inside (.userinfo absolute)) := by
        rw [turns byte (other byte rfl), goOn, if_neg apart, if_pos here]
      have restReads := reads_rest uri (kept ++ [byte]) later absolute rest
      rw [reads, List.cons_append, passes_next goes (by simp)]
      simpa [reads, UriMemory.consume] using restReads
  | @escape first second text high low later =>
      have goes : place.next 37 = ([], .percent (.userinfo absolute)) := turns 37 (by decide)
      have restReads :=
        reads_rest uri (kept ++ [37, first, second]) later absolute rest
      rw [reads, List.cons_append, passes_next goes (by simp)]
      have hex : uriMachine.Quiet (.percent (.userinfo absolute)) [first, second]
          (.inside (.userinfo absolute)) := quiet_hex high low
      have hexed := Scanner.passes_of_passes (hex ⟨some (kept ++ [37]), uri, false⟩)
        (text ++ 64 :: rest)
      refine Eq.trans ?_ (hexed.trans ?_)
      · simp [UriMemory.consume]
      · simpa [reads, UriMemory.consume] using restReads

theorem turns_port (absolute : Bool) : Turns (.port false absolute) absolute :=
  ⟨leaveAuthority absolute [.markh, .savePort], fun byte other =>
    if_neg (by rw [other]; exact Bool.false_ne_true)⟩

theorem turns_portDigits (absolute : Bool) : Turns (.portDigits false absolute) absolute :=
  ⟨leaveAuthority absolute [.savePort], fun byte other =>
    if_neg (by rw [other]; exact Bool.false_ne_true)⟩

/-- **A `userinfo` in which digits are read as a port**, up to the `@`. -/
theorem reads_digits (uri : Uri) (absolute : Bool) (kept : List UInt8) {text : List UInt8}
    (encoded : Encoded isUserinfo text) (rest : List UInt8) :
    reads (.portDigits false absolute) (some kept) uri (text ++ 64 :: rest) =
      reads (.authority true absolute) none { uri with userinfo := kept ++ text } rest := by
  induction encoded generalizing kept with
  | nil => exact reads_other (turns_portDigits absolute) Encoded.nil (by simp) rest
  | @byte byte text here later ih =>
      cases digit : isDigit byte with
      | true =>
          have goes : (UriPlace.portDigits false absolute).next byte =
              ([], .inside (.portDigits false absolute)) := if_pos digit
          have restReads := @ih (kept ++ [byte])
          rw [reads, List.cons_append, passes_next goes (by simp)]
          simpa [reads, UriMemory.consume] using restReads
      | false =>
          exact reads_other (turns_portDigits absolute) (Encoded.byte here later)
            (by simpa using digit) rest
  | @escape first second text high low later ih =>
      exact reads_other (turns_portDigits absolute) (Encoded.escape high low later)
        (by simp; decide) rest

/-- What is taken when there is a colon. -/
theorem keptUserinfo_colon {front back : List UInt8} (encoded : Encoded isRegName front) :
    Uri.keptUserinfo (front ++ 58 :: back) =
      if back.head?.any isDigit then back else front ++ 58 :: back := by
  have skipped : (front ++ 58 :: back).dropWhile (· ≠ 58) = 58 :: back := by
    rw [List.dropWhile_append_of_pos]
    · simp
    · intro byte mem
      have apart : byte ≠ 58 := fun same => colon_not_mem encoded (same ▸ mem)
      simpa using apart
  rw [Uri.keptUserinfo, Uri.marksPort, skipped]
  cases back with
  | nil => rfl
  | cons digit back => rfl

/-- What is taken when there is none. -/
theorem keptUserinfo_name {text : List UInt8} (encoded : Encoded isRegName text) :
    Uri.keptUserinfo text = text := by
  have skipped : text.dropWhile (· ≠ 58) = [] := by
    rw [List.dropWhile_eq_nil_iff]
    intro byte mem
    have apart : byte ≠ 58 := fun same => colon_not_mem encoded (same ▸ mem)
    simpa using apart
  rw [Uri.keptUserinfo, Uri.marksPort, skipped]
  rfl

/-- **What is taken of a `userinfo`.** A host that it seemed to be is there, too. -/
theorem reads_userinfo (mark : Option (List UInt8)) (uri : Uri) {userinfo : List UInt8}
    (encoded : Encoded isUserinfo userinfo) (nonempty : userinfo ≠ []) (absolute : Bool)
    (rest : List UInt8) : ∃ host,
    reads (.authority false absolute) mark uri (userinfo ++ 64 :: rest) =
      reads (.authority true absolute) none
        { uri with userinfo := Uri.keptUserinfo userinfo, host := host } rest := by
  rcases encoded_split encoded with named | ⟨front, back, rfl, named, info⟩
  · have atSign : (UriPlace.regName false absolute).next 64 =
        ([.saveUserinfo], .inside (.authority true absolute)) := rfl
    refine ⟨uri.host, ?_⟩
    rw [reads_name named nonempty, passes_atSign atSign, keptUserinfo_name named]
  · refine ⟨front, ?_⟩
    rw [List.append_assoc, List.cons_append, reads_colon named, keptUserinfo_colon named]
    cases digit : back.head?.any isDigit with
    | false =>
        have other : ∀ byte ∈ back.head?, isDigit byte = false := by
          intro byte mem
          rw [mem] at digit
          exact digit
        rw [reads_other (turns_port absolute) info other, if_neg Bool.false_ne_true]
        simp
    | true =>
        cases info with
        | nil => cases digit
        | @byte byte back here later =>
            have enters : (UriPlace.port false absolute).next byte =
                ([.markh], .inside (.portDigits false absolute)) := if_pos digit
            have restReads := reads_digits { uri with host := front } absolute [byte] later rest
            rw [reads, List.cons_append, passes_next enters (by simp), if_pos rfl]
            simpa [reads, UriMemory.perform, UriMemory.consume] using restReads
        | escape high low later => exact absurd (show isDigit 37 = true from digit) (by decide)

/-- A host and what is printed of a port, up to the path. -/
theorem reads_hostPort {printed : Uri} (valid : printed.Valid) (named : Bool) (rest : List UInt8) :
    reads (.authority named true) mark uri
        (printed.host ++ ((if printed.isDefaultPort then [] else ascii ":" ++
          Uri.printInt printed.port) ++ 47 :: rest)) =
      reads .segments (some [47])
        { uri with
          host := printed.host
          port := if printed.isDefaultPort then uri.port else printed.port } rest := by
  have encoded : Encoded isRegName printed.host := valid.host.elim id encoded_of_ipv4
  obtain ⟨nonneg, small⟩ := valid.port
  cases printed.isDefaultPort with
  | true => exact reads_host encoded named rest
  | false =>
      have text : ascii ":" ++ Uri.printInt printed.port = 58 :: decimal printed.port.toNat := by
        have absolute : printed.port.natAbs = printed.port.toNat := by omega
        rw [Uri.printInt, if_neg (by omega), absolute]
        rfl
      have value : ((printed.port.toNat : Nat) : Int) = printed.port := Int.toNat_of_nonneg nonneg
      rw [if_neg Bool.false_ne_true, text, List.cons_append, reads_colon encoded,
        reads_port (by omega)]
      simp [value]

/-! ### The end of the text -/

/-- **The fragment**, behind what `save` saves. -/
theorem finish_fragment (saved : Uri) {place : UriPlace} {save : UriAction}
    (ends : place.final = some [save]) (hash : place.next 35 = ([save], .inside .fragment))
    (saves : UriMemory.perform ⟨mark, uri, false⟩ save = ⟨none, saved, false⟩)
    (fresh : saved.fragment = []) {fragment : List UInt8} (encoded : Encoded isQueryByte fragment) :
    Uri.finish (reads place mark uri
        ((if fragment.isEmpty then [] else ascii "#") ++ fragment)) =
      .uri { saved with fragment := fragment } := by
  by_cases empty : fragment = []
  · subst empty
    have same : { saved with fragment := [] } = saved := by
      cases saved
      simpa using fresh.symm
    show Uri.finish (some (.inside place, ⟨mark, uri, false⟩)) = _
    rw [Uri.finish, ends, same]
    simp [UriMemory.created, saves]
  · have entered : uriMachine.scanner.passes (.inside .fragment, ⟨none, saved, false⟩)
        (fragment ++ []) = _ :=
      enters_text encoded empty enters_fragment enters_fragmentText []
    rw [List.append_nil] at entered
    have sign : ascii "#" = [35] := by decide
    rw [if_neg (by simpa using empty), sign, List.singleton_append, reads,
      passes_next hash (by simp), List.foldl_cons, List.foldl_nil, saves]
    show Uri.finish (uriMachine.scanner.passes (_, ⟨none, saved, false⟩) fragment) = _
    rw [entered]
    simp [Uri.finish, Scanner.passes, UriPlace.final, UriMemory.perform, UriMemory.save,
      UriMemory.created]

/-- **The path, the query and the fragment.** -/
theorem finish_path {more query fragment : List UInt8} (path : Encoded isPathByte more)
    (encoded : Encoded isQueryByte query) (fragments : Encoded isQueryByte fragment)
    (freshQuery : uri.query = []) (freshFragment : uri.fragment = []) :
    Uri.finish (reads .segments (some [47]) uri
        (more ++ ((if query.isEmpty then [] else ascii "?") ++ (query ++
          ((if fragment.isEmpty then [] else ascii "#") ++ fragment))))) =
      .uri { uri with path := 47 :: more, query := query, fragment := fragment } := by
  have stays := Scanner.passes_of_passes
    (reads_text path enters_segments ⟨some [47], uri, false⟩)
  rw [reads, stays]
  simp only [uriMachine_consume, foldl_consume, Option.map_some, List.singleton_append]
  by_cases empty : query = []
  · subst empty
    have same : { uri with path := 47 :: more, query := [], fragment := fragment } =
        ({ uri with path := 47 :: more, fragment := fragment } : Uri) := by
      rw [← freshQuery]
    rw [same]
    exact finish_fragment { uri with path := 47 :: more } rfl rfl rfl freshFragment fragments
  · have question : UriPlace.segments.next 63 = ([.savePath], .inside .query) := by decide
    have sign : ascii "?" = [63] := by decide
    rw [if_neg (by simpa using empty), sign, List.singleton_append,
      passes_next question (by simp),
      enters_text encoded empty enters_query enters_queryText]
    simp only [List.foldl_cons, List.foldl_nil, UriMemory.perform, UriMemory.save,
      UriMemory.consume, foldl_consume, Option.map_some, Option.map_none, List.nil_append]
    exact finish_fragment { uri with path := 47 :: more, query := query } rfl rfl rfl freshFragment
      fragments

end Reading

/-! ### The round trip -/

/-- **What `Create` makes of a printed URI.** -/
theorem create_toString {uri : Uri} (valid : uri.Valid) (path : Encoded isPathByte uri.path) :
    Uri.create uri.toString =
      .uri { uri with
        userinfo := Uri.keptUserinfo uri.userinfo
        path := uri.getPath
        port := if uri.isDefaultPort then 0 else uri.port } := by
  obtain ⟨first, more, isScheme, alpha, schemeBytes⟩ := valid.scheme
  obtain ⟨segments, isPath, encoded⟩ : ∃ segments, uri.getPath = 47 :: segments ∧
      Encoded isPathByte segments := by
    rcases valid.path with empty | ⟨segments, slashed⟩
    · exact ⟨[], by rw [Uri.getPath, empty]; rfl, Encoded.nil⟩
    · rw [slashed] at path
      cases path with
      | byte _ later => exact ⟨segments, by rw [Uri.getPath, slashed]; rfl, later⟩
  have shape : uri.toString = first :: more ++ ascii "://" ++ (uri.userinfo ++
      ((if uri.userinfo.isEmpty then [] else ascii "@") ++ (uri.host ++
        ((if uri.isDefaultPort then [] else ascii ":" ++ Uri.printInt uri.port) ++
          47 :: (segments ++ ((if uri.query.isEmpty then [] else ascii "?") ++ (uri.query ++
            ((if uri.fragment.isEmpty then [] else ascii "#") ++ uri.fragment)))))))) := by
    simp [Uri.toString, isScheme, isPath]
  have starts : (UriState.inside .start, UriMemory.init) =
      (UriState.inside .start, (⟨none, Uri.new, false⟩ : UriMemory)) := rfl
  rw [Uri.create, shape, starts, ← reads, reads_scheme alpha schemeBytes, isPath]
  by_cases empty : uri.userinfo = []
  · rw [empty, List.nil_append, List.isEmpty_nil, if_pos rfl, List.nil_append,
      reads_hostPort valid false,
      finish_path encoded valid.query valid.fragment rfl rfl]
    simp [Uri.new, isScheme, Uri.keptUserinfo, Uri.marksPort]
  · have sign : ascii "@" = [64] := by decide
    rw [if_neg (by simpa using empty), sign, List.singleton_append]
    obtain ⟨host, taken⟩ := reads_userinfo none { Uri.new with scheme := first :: more }
      valid.userinfo empty true (uri.host ++
        ((if uri.isDefaultPort then [] else ascii ":" ++ Uri.printInt uri.port) ++
          47 :: (segments ++ ((if uri.query.isEmpty then [] else ascii "?") ++ (uri.query ++
            ((if uri.fragment.isEmpty then [] else ascii "#") ++ uri.fragment))))))
    rw [taken, reads_hostPort valid true,
      finish_path encoded valid.query valid.fragment rfl rfl]
    simp [Uri.new, isScheme]

theorem keptUserinfo_eq_iff (userinfo : List UInt8) :
    Uri.keptUserinfo userinfo = userinfo ↔ Uri.marksPort userinfo = false := by
  rw [Uri.keptUserinfo]
  cases marks : Uri.marksPort userinfo with
  | false => simp
  | true =>
      -- the text before the digit, with the colon, is lost
      have colon : userinfo.dropWhile (· ≠ 58) ≠ [] := by
        intro none
        rw [Uri.marksPort, none] at marks
        cases marks
      have shorter : (userinfo.dropWhile (· ≠ 58)).tail.length < userinfo.length := by
        have part := (List.dropWhile_suffix (l := userinfo) (· ≠ 58)).length_le
        have pos := List.length_pos_of_ne_nil colon
        rw [List.length_tail]
        omega
      rw [if_pos rfl]
      refine ⟨fun same => absurd (congrArg List.length same) (by omega), fun never => by cases never⟩

theorem getPort_default (uri : Uri) :
    Uri.getPort { uri with
      userinfo := Uri.keptUserinfo uri.userinfo
      path := uri.getPath
      port := if uri.isDefaultPort then 0 else uri.port } = uri.getPort := by
  by_cases zero : uri.port = 0
  · simp [Uri.getPort, Uri.isDefaultPort, zero]
  · simp only [Uri.getPort, Uri.isDefaultPort]
    split_ifs <;> simp_all

/-- **A printed URI is read back exactly when no digit stands right behind the first colon of its
`userinfo`, and its path is in the grammar.** -/
theorem uri_round_trip_iff (uri : Uri) (valid : uri.Valid) :
    (∃ read, Uri.create uri.toString = .uri read ∧ uri.Agrees read) ↔
      Uri.marksPort uri.userinfo = false ∧ Encoded isPathByte uri.path := by
  constructor
  · rintro ⟨read, created, agrees⟩
    have path : Encoded isPathByte uri.path := by
      have accepted : Encoded isPathByte read.getPath := by
        rw [Uri.getPath]
        split
        · exact Encoded.byte (by decide) Encoded.nil
        · exact path_of_create created
      rcases valid.path with empty | ⟨more, slashed⟩
      · rw [empty]
        exact Encoded.nil
      · have own : uri.getPath = uri.path := by rw [Uri.getPath, slashed]; rfl
        rw [← own, agrees.2.2.2.2.1]
        exact accepted
    refine ⟨?_, path⟩
    rw [create_toString valid path] at created
    cases created
    exact (keptUserinfo_eq_iff _).mp agrees.2.1.symm
  · rintro ⟨marks, path⟩
    refine ⟨_, create_toString valid path, rfl, ?_, rfl, ?_, ?_, rfl, rfl⟩
    · exact ((keptUserinfo_eq_iff _).mpr marks).symm
    · exact (getPort_default uri).symm
    · rcases valid.path with empty | ⟨more, slashed⟩
      · simp [Uri.getPath, empty, ascii]
      · simp [Uri.getPath, slashed]

/-- A URI with each of its parts. -/
def serviceUri (userinfo : String) : Uri where
  scheme := ascii "http"
  userinfo := ascii userinfo
  host := ascii "127.0.0.1"
  path := ascii "/v1/%7Eme"
  query := ascii "a=1"
  fragment := ascii "top"
  port := 8080

theorem valid_serviceUri {userinfo : String} (encoded : Encoded isUserinfo (ascii userinfo)) :
    (serviceUri userinfo).Valid :=
  have host : Encoded isRegName (ascii "127.0.0.1") :=
    Encoded.of_forall (Http.Message.forall_mem_of_all (by decide))
  have query : Encoded isQueryByte (ascii "a=1") :=
    Encoded.of_forall (Http.Message.forall_mem_of_all (by decide))
  have fragment : Encoded isQueryByte (ascii "top") :=
    Encoded.of_forall (Http.Message.forall_mem_of_all (by decide))
  have port : (0 : Int) ≤ 8080 ∧ (8080 : Int) ≤ 65535 := by decide
  ⟨⟨104, ascii "ttp", rfl, rfl, Http.Message.forall_mem_of_all (by decide)⟩, encoded, Or.inl host,
    port, Or.inr ⟨ascii "v1/%7Eme", rfl⟩, query, fragment⟩

theorem path_serviceUri (userinfo : String) : Encoded isPathByte (serviceUri userinfo).path :=
  have front : Encoded isPathByte (ascii "/v1/") :=
    Encoded.of_forall (Http.Message.forall_mem_of_all (by decide))
  have back : Encoded isPathByte (ascii "me") :=
    Encoded.of_forall (Http.Message.forall_mem_of_all (by decide))
  front.append (Encoded.escape (by decide) (by decide) back)

/-- A password that begins with a letter. -/
theorem uri_read_back : ∃ read, Uri.create (serviceUri "me:pass1").toString = .uri read ∧
    (serviceUri "me:pass1").Agrees read :=
  (uri_round_trip_iff (serviceUri "me:pass1")
    (valid_serviceUri (Encoded.of_forall (Http.Message.forall_mem_of_all (by decide))))).mpr
    ⟨by decide, path_serviceUri _⟩

/-- **A password that begins with a digit**: `save_userinfo` takes the password only. -/
theorem userinfo_cut : (serviceUri "me:1pass").Valid ∧
    Encoded isPathByte (serviceUri "me:1pass").path ∧
    Uri.create (serviceUri "me:1pass").toString =
      .uri { serviceUri "me:1pass" with userinfo := ascii "1pass" } ∧
    ¬ ∃ read, Uri.create (serviceUri "me:1pass").toString = .uri read ∧
      (serviceUri "me:1pass").Agrees read := by
  have valid : (serviceUri "me:1pass").Valid :=
    valid_serviceUri (Encoded.of_forall (Http.Message.forall_mem_of_all (by decide)))
  have path := path_serviceUri "me:1pass"
  have created : Uri.create (serviceUri "me:1pass").toString =
      .uri { serviceUri "me:1pass" with userinfo := ascii "1pass" } := by
    rw [create_toString valid path]
    decide
  refine ⟨valid, path, created, ?_⟩
  rintro ⟨read, again, agrees⟩
  rw [created] at again
  cases again
  exact absurd agrees.2.1 (by decide)

end Wyze
