/-
**`Uri`: the machine of `uri_parser`, `Create` and `toString`.**

The machine records the parts of a text with the one pointer `mark`. After the colon of an authority
both the rest of a `userinfo` and a `port` can follow, and the machine runs the actions of both.

What is not modelled of the grammar is the state `beyond`, in which the machine stays: `IP_literal`,
and the `dec_octet` that begins with the byte 2.

* `encoded_split`: a `userinfo` is a `reg_name`, or has one before its first colon.
* `reads_text`, `enters_text`: the machine stays in a part of the text.
-/
import Wyze.Http.ChunkSizes

namespace Wyze

open Http (ascii strtol)
open Http.Message (decimal digits isAlpha isDigit isXdigit)

/-! ### Texts of the grammar -/

/-- `unreserved`. -/
def isUnreserved (byte : UInt8) : Bool := isAlpha byte || isDigit byte || (ascii "-._~").contains byte

/-- `sub_delims`. -/
def isSubDelim (byte : UInt8) : Bool := (ascii "!$&'()*+,;=").contains byte

/-- The bytes of a `scheme` after the first. -/
def isSchemeByte (byte : UInt8) : Bool := isAlpha byte || isDigit byte || (ascii "+-.").contains byte

/-- The bytes of a `reg_name`. -/
def isRegName (byte : UInt8) : Bool := isUnreserved byte || isSubDelim byte

/-- The bytes of a `userinfo`. -/
def isUserinfo (byte : UInt8) : Bool := isRegName byte || byte = 58

/-- `pchar`, which includes the bytes outside ASCII. -/
def isPchar (byte : UInt8) : Bool := isUserinfo byte || byte = 64 || 128 ≤ byte

/-- The bytes of a path. -/
def isPathByte (byte : UInt8) : Bool := isPchar byte || byte = 47

/-- The bytes of a `query` and of a `fragment`. -/
def isQueryByte (byte : UInt8) : Bool := isPathByte byte || byte = 63

/-- **A text of the grammar**: bytes of one kind, and `pct_encoded`. -/
inductive Encoded (may : UInt8 → Bool) : List UInt8 → Prop
  | nil : Encoded may []
  | byte {byte : UInt8} {text : List UInt8} (here : may byte = true) (later : Encoded may text) :
      Encoded may (byte :: text)
  | escape {first second : UInt8} {text : List UInt8} (high : isXdigit first = true)
      (low : isXdigit second = true) (later : Encoded may text) :
      Encoded may (37 :: first :: second :: text)

/-! ### `Uri` -/

/-- The members of `Uri`. -/
structure Uri where
  scheme : List UInt8
  userinfo : List UInt8
  host : List UInt8
  path : List UInt8
  query : List UInt8
  fragment : List UInt8
  port : Int
  deriving DecidableEq, Repr

namespace Uri

/-- The constructor. -/
def new : Uri := ⟨[], [], [], [], [], [], 0⟩

def isDefaultPort (uri : Uri) : Bool :=
  if uri.port = 0 then true
  else if uri.scheme = ascii "http" then uri.port = 80
  else if uri.scheme = ascii "https" then uri.port = 443
  else false

def getPath (uri : Uri) : List UInt8 := if uri.path.isEmpty then ascii "/" else uri.path

def getPort (uri : Uri) : Int :=
  if uri.port ≠ 0 then uri.port
  else if uri.scheme = ascii "http" then 80
  else if uri.scheme = ascii "https" then 443
  else uri.port

/-- `std::to_string`. -/
def printInt (value : Int) : List UInt8 :=
  if value < 0 then 45 :: decimal value.natAbs else decimal value.natAbs

/-- `dump`, and so `toString`. -/
def toString (uri : Uri) : List UInt8 :=
  uri.scheme ++ ascii "://" ++ uri.userinfo ++ (if uri.userinfo.isEmpty then [] else ascii "@") ++
    uri.host ++ (if uri.isDefaultPort then [] else ascii ":" ++ printInt uri.port) ++
    uri.getPath ++ (if uri.query.isEmpty then [] else ascii "?") ++ uri.query ++
    (if uri.fragment.isEmpty then [] else ascii "#") ++ uri.fragment

end Uri

/-! ### `uri_parser` -/

/-- The actions of the grammar. -/
inductive UriAction where
  | marku | markh
  | saveScheme | savePort | saveUserinfo | saveHost | savePath | saveQuery | saveFragment
  deriving DecidableEq, Repr

/-- The mark, as the text since it, the URI, and whether a null mark has been read as a text. -/
structure UriMemory where
  mark : Option (List UInt8)
  uri : Uri
  fault : Bool
  deriving DecidableEq, Repr

namespace UriMemory

/-- The start of `Create`. -/
def init : UriMemory := ⟨none, Uri.new, false⟩

/-- `std::string(mark, fpc - mark)` goes into the URI, and the mark is null again. -/
def save (memory : UriMemory) (store : List UInt8 → Uri) : UriMemory :=
  match memory.mark with
  | none => { memory with fault := true }
  | some text => { memory with mark := none, uri := store text }

/-- What an action does. -/
def perform (memory : UriMemory) : UriAction → UriMemory
  | .marku => { memory with mark := some [] }
  | .markh => { memory with mark := some [] }
  | .saveScheme => memory.save fun text => { memory.uri with scheme := text }
  | .savePort =>
    -- the text since the mark holds digits only, at which `atoi` stops
    memory.save fun text =>
      if text.isEmpty then memory.uri
      else { memory.uri with port := Http.toInt32 (strtol (digits text)) }
  | .saveUserinfo =>
    match memory.mark with
    | none => memory
    | some text => { memory with mark := none, uri := { memory.uri with userinfo := text } }
  | .saveHost =>
    match memory.mark with
    | none => memory
    | some text => { memory with uri := { memory.uri with host := text } }
  | .savePath => memory.save fun text => { memory.uri with path := text }
  | .saveQuery => memory.save fun text => { memory.uri with query := text }
  | .saveFragment => memory.save fun text => { memory.uri with fragment := text }

/-- One more byte is behind the mark. -/
def consume (memory : UriMemory) (byte : UInt8) : UriMemory :=
  { memory with mark := memory.mark.map (· ++ [byte]) }

end UriMemory

/-- Where the machine is. In the places of an authority, `absolute` is set after a scheme, where the
path is saved; `named` is set behind the `@`, where what is read is no `userinfo`. -/
inductive UriPlace where
  | start | noscheme | scheme | hier | slash (absolute : Bool) | rootless
  | authority (named absolute : Bool) | regName (named absolute : Bool)
  | port (named absolute : Bool) | portDigits (named absolute : Bool) | userinfo (absolute : Bool)
  | segments | query | queryText | fragment | fragmentText
  deriving DecidableEq, Repr

/-- The state: at a place, or inside a `pct_encoded`. -/
inductive UriState where
  | inside (place : UriPlace)
  | percent (place : UriPlace)
  | hex (place : UriPlace)
  | error
  | beyond
  deriving DecidableEq, Repr

/-- **Actions on one transition.** An action stands there once, where it stands first. -/
def embed (actions later : List UriAction) : List UriAction :=
  actions ++ later.filter fun action => !actions.contains action

/-- The text goes on in a place, or else. -/
def goOn (may : UInt8 → Bool) (enter : List UriAction) (place : UriPlace) (byte : UInt8)
    (otherwise : List UriAction × UriState) : List UriAction × UriState :=
  if byte = 37 then (enter, .percent place)
  else if may byte then (enter, .inside place)
  else otherwise

/-- `( "?" query )? ( "#" fragment )?`. -/
def ending (leave : List UriAction) (byte : UInt8) : List UriAction × UriState :=
  if byte = 63 then (leave, .inside .query)
  else if byte = 35 then (leave, .inside .fragment)
  else ([], .error)

/-- The end of a path, which has begun without a scheme. -/
def pathEnding (byte : UInt8) : List UriAction × UriState :=
  if byte = 47 then ([], .inside .rootless) else ending [] byte

/-- The end of an authority. -/
def leaveAuthority (absolute : Bool) (leave : List UriAction) (byte : UInt8) :
    List UriAction × UriState :=
  if byte = 47 then
    if absolute then (embed leave [.markh], .inside .segments) else (leave, .inside .rootless)
  else ending (if absolute then embed leave [.markh, .savePath] else leave) byte

/-- The end of a `host`. -/
def leaveHost (named absolute : Bool) (enter : List UriAction) (byte : UInt8) :
    List UriAction × UriState :=
  if byte = 58 then (enter ++ [.saveHost], .inside (.port named absolute))
  else if byte = 64 && !named then (enter ++ [.saveUserinfo], .inside (.authority true absolute))
  else if byte = 2 then ([], .beyond)
  else leaveAuthority absolute (enter ++ [.saveHost]) byte

/-- Between a colon and the `@`, when it is a `userinfo`. -/
def leavePort (named absolute : Bool) (leave : List UriAction) (byte : UInt8) :
    List UriAction × UriState :=
  if named then leaveAuthority absolute leave byte
  else
    goOn isUserinfo [] (.userinfo absolute) byte
      (if byte = 64 then ([.saveUserinfo], .inside (.authority true absolute))
      else leaveAuthority absolute leave byte)

/-- The transitions. -/
def UriPlace.next : UriPlace → UInt8 → List UriAction × UriState
  | .start, byte =>
    if isAlpha byte then ([.marku], .inside .scheme)
    else if byte = 47 then ([], .inside (.slash false))
    else if byte = 58 then ([], .error)
    else goOn isPchar [] .noscheme byte (ending [] byte)
  | .noscheme, byte =>
    if byte = 58 then ([], .error) else goOn isPchar [] .noscheme byte (pathEnding byte)
  | .scheme, byte =>
    if isSchemeByte byte then ([], .inside .scheme)
    else if byte = 58 then ([.saveScheme], .inside .hier)
    else goOn isPchar [] .noscheme byte (pathEnding byte)
  | .hier, byte =>
    if byte = 47 then ([], .inside (.slash true))
    else goOn isPchar [] .rootless byte (ending [] byte)
  | .slash absolute, byte =>
    if byte = 47 then ([], .inside (.authority false absolute))
    else goOn isPchar [] .rootless byte (ending [] byte)
  | .rootless, byte => goOn isPathByte [] .rootless byte (ending [] byte)
  | .authority named absolute, byte =>
    if byte = 91 then ([], .beyond)
    else
      goOn isRegName [.markh] (.regName named absolute) byte
        (leaveHost named absolute [.markh] byte)
  | .regName named absolute, byte =>
    goOn isRegName [] (.regName named absolute) byte (leaveHost named absolute [] byte)
  | .port named absolute, byte =>
    if isDigit byte then ([.markh], .inside (.portDigits named absolute))
    else leavePort named absolute [.markh, .savePort] byte
  | .portDigits named absolute, byte =>
    if isDigit byte then ([], .inside (.portDigits named absolute))
    else leavePort named absolute [.savePort] byte
  | .userinfo absolute, byte =>
    goOn isUserinfo [] (.userinfo absolute) byte
      (if byte = 64 then ([.saveUserinfo], .inside (.authority true absolute)) else ([], .error))
  | .segments, byte => goOn isPathByte [] .segments byte (ending [.savePath] byte)
  | .query, byte =>
    goOn isQueryByte [.marku] .queryText byte
      (if byte = 35 then ([.marku, .saveQuery], .inside .fragment) else ([], .error))
  | .queryText, byte =>
    goOn isQueryByte [] .queryText byte
      (if byte = 35 then ([.saveQuery], .inside .fragment) else ([], .error))
  | .fragment, byte => goOn isQueryByte [.marku] .fragmentText byte ([], .error)
  | .fragmentText, byte => goOn isQueryByte [] .fragmentText byte ([], .error)

/-- The transitions, those inside a `pct_encoded` included. -/
def UriState.next : UriState → UInt8 → List UriAction × UriState
  | .inside place, byte => place.next byte
  | .percent place, byte => ([], if isXdigit byte then .hex place else .error)
  | .hex place, byte => ([], if isXdigit byte then .inside place else .error)
  | .error, _ => ([], .error)
  | .beyond, _ => ([], .beyond)

/-- The actions at the end of the text, in the states in which it may end. -/
def UriPlace.final : UriPlace → Option (List UriAction)
  | .start | .noscheme | .scheme | .hier | .slash _ | .rootless => some []
  | .authority _ absolute => some (leaveAll absolute [.markh, .saveHost])
  | .regName _ absolute => some (leaveAll absolute [.saveHost])
  | .port _ absolute => some (leaveAll absolute [.markh, .savePort])
  | .portDigits _ absolute => some (leaveAll absolute [.savePort])
  | .userinfo _ => none
  | .segments => some [.savePath]
  | .query => some [.marku, .saveQuery]
  | .queryText => some [.saveQuery]
  | .fragment => some [.marku, .saveFragment]
  | .fragmentText => some [.saveFragment]
where
  /-- With an empty path. -/
  leaveAll (absolute : Bool) (leave : List UriAction) : List UriAction :=
    if absolute then embed leave [.markh, .savePath] else leave

/-- The generated machine. -/
def uriMachine : Transducer UriState UInt8 UriAction UriMemory where
  next := UriState.next
  perform := UriMemory.perform
  consume := UriMemory.consume
  finished := fun _ => false
  failed := (· = .error)

/-- What `Create` comes to: a URI, `nullptr`, or a null pointer read as a text. -/
inductive Created where
  | uri (uri : Uri)
  | null
  | fault
  deriving DecidableEq, Repr

/-- The end of `Create`. -/
def UriMemory.created (memory : UriMemory) : Created :=
  if memory.fault then .fault else .uri memory.uri

/-- The end of the text. -/
def Uri.finish : Option (UriState × UriMemory) → Created
  | some (.inside place, memory) =>
    match place.final with
    | some actions => (actions.foldl UriMemory.perform memory).created
    | none => .null
  | _ => .null

/-- `Create`. -/
def Uri.create (text : List UInt8) : Created :=
  finish (uriMachine.scanner.passes (.inside .start, UriMemory.init) text)

/-! ### Texts in the machine -/

namespace Encoded

variable {may : UInt8 → Bool} {text : List UInt8}

theorem append {back : List UInt8} (front : Encoded may text) (later : Encoded may back) :
    Encoded may (text ++ back) := by
  induction front with
  | nil => exact later
  | byte here _ ih => exact Encoded.byte here ih
  | escape high low _ ih => exact Encoded.escape high low ih

theorem mono {wider : UInt8 → Bool} (encoded : Encoded may text)
    (widens : ∀ byte, may byte = true → wider byte = true) : Encoded wider text := by
  induction encoded with
  | nil => exact Encoded.nil
  | byte here _ ih => exact Encoded.byte (widens _ here) ih
  | escape high low _ ih => exact Encoded.escape high low ih

theorem of_forall (bytes : ∀ byte ∈ text, may byte = true) : Encoded may text := by
  induction text with
  | nil => exact Encoded.nil
  | cons byte text ih =>
      obtain ⟨here, later⟩ := List.forall_mem_cons.mp bytes
      exact Encoded.byte here (ih later)

end Encoded

theorem isRegName_of_isXdigit {byte : UInt8} (isDigit : isXdigit byte = true) :
    isRegName byte = true := by
  simp only [isXdigit, isRegName, isUnreserved, isAlpha, Bool.or_eq_true, Bool.and_eq_true,
    decide_eq_true_eq] at isDigit ⊢
  grind

theorem isRegName_of_isDigit {byte : UInt8} (isDigit : Http.Message.isDigit byte = true) :
    isRegName byte = true := by
  simp [isRegName, isUnreserved, isDigit]

/-- **A `userinfo` is a `reg_name`, or has one before its first colon.** -/
theorem encoded_split {text : List UInt8} (encoded : Encoded isUserinfo text) :
    Encoded isRegName text ∨ ∃ front back, text = front ++ 58 :: back ∧
      Encoded isRegName front ∧ Encoded isUserinfo back := by
  induction encoded with
  | nil => exact Or.inl Encoded.nil
  | @byte byte text here later ih =>
      by_cases colon : byte = 58
      · subst colon
        exact Or.inr ⟨[], text, rfl, Encoded.nil, later⟩
      · have isName : isRegName byte = true := by simpa [isUserinfo, colon] using here
        rcases ih with named | ⟨front, back, rfl, named, info⟩
        · exact Or.inl (Encoded.byte isName named)
        · exact Or.inr ⟨byte :: front, back, rfl, Encoded.byte isName named, info⟩
  | @escape first second text high low later ih =>
      rcases ih with named | ⟨front, back, rfl, named, info⟩
      · exact Or.inl (Encoded.escape high low named)
      · exact Or.inr
          ⟨37 :: first :: second :: front, back, rfl, Encoded.escape high low named, info⟩

theorem colon_not_mem {text : List UInt8} (encoded : Encoded isRegName text) : (58 : UInt8) ∉ text := by
  have apart : ∀ byte, isRegName byte = true → (58 : UInt8) ≠ byte := by
    rintro byte isName rfl
    exact absurd isName (by decide)
  induction encoded with
  | nil => exact List.not_mem_nil
  | byte here _ ih => exact List.not_mem_cons_of_ne_of_not_mem (apart _ here) ih
  | escape high low _ ih =>
      simp only [List.mem_cons, not_or]
      exact ⟨by decide, apart _ (isRegName_of_isXdigit high), apart _ (isRegName_of_isXdigit low), ih⟩

@[simp] theorem uriMachine_consume : uriMachine.consume = UriMemory.consume := rfl

@[simp] theorem foldl_consume (memory : UriMemory) (text : List UInt8) :
    text.foldl UriMemory.consume memory =
      { memory with mark := memory.mark.map (· ++ text) } := by
  induction text generalizing memory with
  | nil => cases memory; simp
  | cons byte text ih =>
      rw [List.foldl_cons, ih]
      simp [UriMemory.consume, Function.comp_def]

/-- **Texts of one kind lead to a place**, with these actions at their first byte. -/
def UriPlace.Enters (place : UriPlace) (may : UInt8 → Bool) (actions : List UriAction)
    (target : UriPlace) : Prop :=
  (∀ byte, may byte = true → place.next byte = (actions, .inside target)) ∧
    place.next 37 = (actions, .percent target)

section Reading

variable {place target : UriPlace} {may : UInt8 → Bool} {actions : List UriAction}
  {memory : UriMemory} {text : List UInt8}

theorem runs_uriMachine {state : UriState} (fine : state ≠ .error) : uriMachine.runs state := by
  refine ⟨rfl, ?_⟩
  show decide (state = UriState.error) = false
  simp [fine]

/-- **One byte.** -/
theorem passes_next {state : UriState} {byte : UInt8}
    (moves : place.next byte = (actions, state)) (fine : state ≠ .error) (rest : List UInt8) :
    uriMachine.scanner.passes (.inside place, memory) (byte :: rest) =
      uriMachine.scanner.passes (state, (actions.foldl UriMemory.perform memory).consume byte)
        rest := by
  have step : uriMachine.next (.inside place) byte = (actions, state) := moves
  exact Transducer.passes_step step (runs_uriMachine fine) rest

/-- Two hexadecimal digits. -/
theorem quiet_hex {first second : UInt8} (high : isXdigit first = true)
    (low : isXdigit second = true) :
    uriMachine.Quiet (.percent place) [first, second] (.inside place) := by
  have firstMove : uriMachine.next (.percent place) first = ([], .hex place) := by
    show ([], if isXdigit first then _ else _) = _
    rw [if_pos high]
  have secondMove : uriMachine.next (.hex place) second = ([], .inside place) := by
    show ([], if isXdigit second then _ else _) = _
    rw [if_pos low]
  exact Transducer.Quiet.cons firstMove (runs_uriMachine (by simp))
    (Transducer.Quiet.cons secondMove (runs_uriMachine (by simp)) (Transducer.Quiet.nil _))

/-- **The machine stays in a part of the text.** -/
theorem reads_text (encoded : Encoded may text) (stays : place.Enters may [] place) :
    uriMachine.Quiet (.inside place) text (.inside place) := by
  induction encoded with
  | nil => exact Transducer.Quiet.nil _
  | byte here _ ih => exact Transducer.Quiet.cons (stays.1 _ here) (runs_uriMachine (by simp)) ih
  | @escape first second text high low _ ih =>
      have rest : uriMachine.Quiet (.percent place) ([first, second] ++ text) (.inside place) :=
        (quiet_hex high low).append ih
      exact Transducer.Quiet.cons stays.2 (runs_uriMachine (by simp)) rest

/-- A part of the text, from its first byte on. -/
theorem enters_text (encoded : Encoded may text) (some : text ≠ [])
    (enters : place.Enters may actions target) (stays : target.Enters may [] target)
    (rest : List UInt8) :
    uriMachine.scanner.passes (.inside place, memory) (text ++ rest) =
      uriMachine.scanner.passes
        (.inside target, text.foldl UriMemory.consume (actions.foldl UriMemory.perform memory))
        rest := by
  cases encoded with
  | nil => exact absurd rfl some
  | byte here later =>
      rw [List.cons_append, passes_next (enters.1 _ here) (by simp)]
      exact Scanner.passes_of_passes (reads_text later stays _) rest
  | escape high low later =>
      rw [List.cons_append, passes_next enters.2 (by simp)]
      exact Scanner.passes_of_passes
        ((quiet_hex high low).append (reads_text later stays) _) rest

end Reading

end Wyze
