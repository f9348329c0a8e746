/-
**`Uri` with address literals.**

`IP_literal` of `uri.rl`, which `uriMachine` leaves out: between the brackets the generated machine
follows what is left of the expression `IPv6address | IPvFuture`. The lines of `IPv6address` are written
once, for any repetition of the groups in front of `"::"` and any `dec_octet`: that of `uri.rl` repeats
them an exact number of times.

* `passes_outside`, `create_eq`: where no literal is read the machine is `uriMachine`.
* `create_literal`: a literal is the host exactly when its expression takes it.
-/
import Wyze.Lib.Grammar
import Wyze.Uri.RoundTrip

namespace Wyze

open Grammar RegularExpression
open Http (ascii)
open Http.Message (isDigit isXdigit)

namespace UriGrammar

/-! ### The grammar -/

/-- The bytes. -/
def bytes : List UInt8 := (List.range 256).map Nat.toUInt8

theorem mem_bytes (byte : UInt8) : byte ∈ bytes :=
  List.mem_map.mpr ⟨byte.toNat, List.mem_range.mpr byte.toNat_lt, UInt8.ofNat_toNat⟩

/-- A byte of one kind. -/
def kind (may : UInt8 → Bool) : RegularExpression UInt8 := oneOf (bytes.filter may)

/-- `[low-high]`. -/
def range (low high : UInt8) : RegularExpression UInt8 := kind fun byte => low ≤ byte && byte ≤ high

def digit : RegularExpression UInt8 := kind isDigit

def xdigit : RegularExpression UInt8 := kind isXdigit

/-- `dec_octet`, for the byte in front of `[0-4] digit`. -/
def octetWith (two : UInt8) : RegularExpression UInt8 :=
  digit + range 49 57 * digit + char 49 * digit ^ 2 + char two * (range 48 52 * digit) +
    word (ascii "25") * range 48 53

/-- `dec_octet`: a 2 without quotes is the byte 2. -/
def decOctet : RegularExpression UInt8 := octetWith 2

/-- `IPv4address`, for a `dec_octet`: three of them with a dot and one without. -/
def ipv4address (octet : RegularExpression UInt8) : RegularExpression UInt8 :=
  (octet * char 46) ^ 3 * octet

/-- `xdigit{1,4}`. -/
def h16 : RegularExpression UInt8 := between xdigit 1 3

/-- `h16 ":"`. -/
def h16c : RegularExpression UInt8 := h16 * char 58

def ls32 (octet : RegularExpression UInt8) : RegularExpression UInt8 := h16c * h16 + ipv4address octet

/-- `"::"`. -/
def gap : RegularExpression UInt8 := word (ascii "::")

/-- **`IPv6address`**, for a repetition `times` of the groups in front of `"::"` and a `dec_octet`. -/
def ipv6With (times : RegularExpression UInt8 → Nat → RegularExpression UInt8)
    (octet : RegularExpression UInt8) : RegularExpression UInt8 :=
  h16c ^ 6 * ls32 octet +
  gap * (h16c ^ 5 * ls32 octet) +
  opt h16 * gap * (h16c ^ 4 * ls32 octet) +
  opt (times h16c 1 * h16) * gap * (h16c ^ 3 * ls32 octet) +
  opt (times h16c 2 * h16) * gap * (h16c ^ 2 * ls32 octet) +
  opt (times h16c 3 * h16) * gap * (h16c ^ 1 * ls32 octet) +
  opt (times h16c 4 * h16) * gap * ls32 octet +
  opt (times h16c 5 * h16) * gap * h16 +
  opt (times h16c 6 * h16) * gap

/-- `IPv6address`: every repetition is exact. -/
def ipv6address : RegularExpression UInt8 := ipv6With (· ^ ·) decOctet

/-- `IPvFuture`. -/
def ipvFuture : RegularExpression UInt8 :=
  char 118 * (xdigit * xdigit.star) * char 46 * (kind isUserinfo * (kind isUserinfo).star)

/-- What stands between the brackets of an `IP_literal`. -/
def bracketed : RegularExpression UInt8 := ipv6address + ipvFuture

end UriGrammar

/-! ### The machine -/

/-- The states: those of `uriMachine`, inside the brackets with what is left of the expression, and
behind the closing one. -/
inductive LiteralState where
  | outside (state : UriState)
  | literal (left : RegularExpression UInt8) (absolute : Bool)
  | closed (absolute : Bool)

namespace LiteralState

def outward (target : List UriAction × UriState) : List UriAction × LiteralState :=
  (target.1, .outside target.2)

/-- The transitions. An expression that nothing can match any more stays until the closing bracket,
where it is refused. -/
def next : LiteralState → UInt8 → List UriAction × LiteralState
  | .outside (.inside (.authority named absolute)), byte =>
    if byte = 91 then ([.markh], .literal UriGrammar.bracketed absolute)
    else outward ((UriPlace.authority named absolute).next byte)
  | .outside state, byte => outward (state.next byte)
  | .literal left absolute, byte =>
    if byte = 93 then ([], if left.matchEpsilon then .closed absolute else .outside .error)
    else ([], .literal (left.deriv byte) absolute)
  | .closed absolute, byte =>
    -- behind the bracket there is a port or the end of the authority, and no `userinfo`
    if byte = 58 then ([.saveHost], .outside (.inside (.port true absolute)))
    else outward (leaveAuthority absolute [.saveHost] byte)

def isError : LiteralState → Bool
  | .outside state => state = .error
  | _ => false

end LiteralState

/-- The generated machine. -/
def literalMachine : Transducer LiteralState UInt8 UriAction UriMemory where
  next := LiteralState.next
  perform := UriMemory.perform
  consume := UriMemory.consume
  finished := fun _ => false
  failed := LiteralState.isError

namespace IpLiteral

/-- The end of the text. -/
def finish : Option (LiteralState × UriMemory) → Created
  | some (.outside state, memory) => Uri.finish (some (state, memory))
  | some (.closed absolute, memory) =>
    ((UriPlace.final.leaveAll absolute [.saveHost]).foldl UriMemory.perform memory).created
  | _ => .null

/-- `Create`. -/
def create (text : List UInt8) : Created :=
  finish (literalMachine.scanner.passes (.outside (.inside .start), UriMemory.init) text)

/-! ### Outside of the brackets -/

theorem runs_literal (left : RegularExpression UInt8) (absolute : Bool) :
    literalMachine.runs (.literal left absolute) := ⟨rfl, rfl⟩

theorem runs_closed (absolute : Bool) : literalMachine.runs (.closed absolute) := ⟨rfl, rfl⟩

theorem runs_outside {state : UriState} (fine : state ≠ .error) :
    literalMachine.runs (.outside state) := by
  refine ⟨rfl, ?_⟩
  show decide (state = UriState.error) = false
  simp [fine]

/-- `uriMachine` does not come back from where it has not been modelled. -/
theorem passes_beyond (text : List UInt8) (memory : UriMemory) :
    ∃ memory', uriMachine.scanner.passes (.beyond, memory) text = some (.beyond, memory') := by
  induction text generalizing memory with
  | nil => exact ⟨memory, rfl⟩
  | cons byte text ih =>
    obtain ⟨memory', passed⟩ := ih (memory.consume byte)
    have moves : uriMachine.next .beyond byte = ([], .beyond) := rfl
    exact ⟨memory', (Transducer.passes_step moves (runs_uriMachine (by simp)) text).trans passed⟩

/-- One transition of `uriMachine` to a state that is modelled. -/
theorem next_outside {state : UriState} {byte : UInt8} (known : (state.next byte).2 ≠ .beyond) :
    LiteralState.next (.outside state) byte = LiteralState.outward (state.next byte) := by
  unfold LiteralState.next
  split
  · rename_i named absolute _ here
    cases here
    split
    · rename_i bracket
      exact absurd (by rw [bracket]; rfl) known
    · rfl
  · rename_i here
    cases here
    rfl
  · rename_i here
    cases here
  · rename_i here
    cases here

/-- **Where no literal is read the machine is `uriMachine`.** -/
theorem passes_outside {text : List UInt8} {state : UriState} {memory : UriMemory}
    (known : ∀ memory', uriMachine.scanner.passes (state, memory) text ≠ some (.beyond, memory')) :
    literalMachine.scanner.passes (.outside state, memory) text =
      (uriMachine.scanner.passes (state, memory) text).map fun config =>
        (.outside config.1, config.2) := by
  induction text generalizing state memory with
  | nil => rfl
  | cons byte text ih =>
    have stays : (state.next byte).2 ≠ .beyond := by
      intro leaves
      obtain ⟨memory', passed⟩ := passes_beyond text
        (((state.next byte).1.foldl UriMemory.perform memory).consume byte)
      have moves : uriMachine.next state byte = ((state.next byte).1, .beyond) :=
        Prod.ext rfl leaves
      exact known memory' ((Transducer.passes_step moves (runs_uriMachine (by simp)) text).trans passed)
    have moves := next_outside stays
    by_cases fails : (state.next byte).2 = .error
    · have stops : uriMachine.scanner.halted (uriMachine.scanner.step (state, memory) byte) = true := by
        show (false || decide ((state.next byte).2 = UriState.error)) = true
        simp [fails]
      have stops' : literalMachine.scanner.halted
          (literalMachine.scanner.step (.outside state, memory) byte) = true := by
        show (false || (LiteralState.next (.outside state) byte).2.isError) = true
        rw [moves]
        exact stops
      rw [Scanner.passes, if_pos stops', Scanner.passes, if_pos stops]
      rfl
    · have here : uriMachine.next state byte = ((state.next byte).1, (state.next byte).2) := rfl
      rw [Transducer.passes_step here (runs_uriMachine fails)] at known ⊢
      rw [Transducer.passes_step moves (runs_outside fails)]
      exact ih known

/-- **Where no literal is read** `create` is `Uri.create`. -/
theorem create_eq {text : List UInt8}
    (known : ∀ memory, uriMachine.scanner.passes (.inside .start, UriMemory.init) text ≠
      some (.beyond, memory)) : create text = Uri.create text := by
  rw [create, Uri.create, passes_outside known]
  rcases uriMachine.scanner.passes (.inside .start, UriMemory.init) text with _ | ⟨state, memory⟩
  · rfl
  · rfl

/-! ### Inside of the brackets -/

/-- The machine follows the expression. -/
theorem passes_literal {text : List UInt8} (inside : (93 : UInt8) ∉ text)
    (left : RegularExpression UInt8) (absolute : Bool) (memory : UriMemory) :
    literalMachine.scanner.passes (.literal left absolute, memory) text =
      some (.literal (follow left text) absolute, text.foldl UriMemory.consume memory) := by
  induction text generalizing left memory with
  | nil => rfl
  | cons byte text ih =>
    obtain ⟨here, later⟩ := not_or.mp (mt List.mem_cons.mpr inside)
    have moves : literalMachine.next (.literal left absolute) byte =
        ([], .literal (left.deriv byte) absolute) := if_neg fun same => here same.symm
    rw [Transducer.passes_step moves (runs_literal _ absolute)]
    exact ih later _ _

/-- What `Create` makes of a literal that it takes. -/
def uriOf (literal : List UInt8) : Uri :=
  { Uri.new with
    scheme := ascii "http"
    host := ascii "[" ++ literal ++ ascii "]"
    path := ascii "/" }

/-- **A literal between brackets** is the host, brackets included, exactly when the expression takes it;
else there is no URI. -/
theorem create_literal {literal : List UInt8} (inside : (93 : UInt8) ∉ literal) :
    create (ascii "http://[" ++ literal ++ ascii "]/") =
      if literal ∈ UriGrammar.bracketed.matches' then .uri (uriOf literal) else .null := by
  have text : ascii "http://[" ++ literal ++ ascii "]/" =
      ascii "http://" ++ (91 :: (literal ++ [93, 47])) := by
    have front : ascii "http://[" = ascii "http://" ++ [91] := by decide
    have back : ascii "]/" = [93, 47] := by decide
    rw [front, back, List.append_assoc, List.append_assoc]
    rfl
  have scheme : literalMachine.scanner.passes (.outside (.inside .start), UriMemory.init)
      (ascii "http://") =
        some (.outside (.inside (.authority false true)),
          ⟨none, { Uri.new with scheme := ascii "http" }, false⟩) := by
    have passed : uriMachine.scanner.passes (.inside .start, UriMemory.init) (ascii "http://") =
        some (.inside (.authority false true),
          ⟨none, { Uri.new with scheme := ascii "http" }, false⟩) := by decide
    rw [passes_outside (by rw [passed]; simp), passed]
    rfl
  have opens : literalMachine.next (.outside (.inside (.authority false true))) 91 =
      ([.markh], .literal UriGrammar.bracketed true) := rfl
  rw [create, text, Scanner.passes_of_passes scheme,
    Transducer.passes_step opens (runs_literal _ true),
    Scanner.passes_of_passes (passes_literal inside _ true _)]
  by_cases taken : literal ∈ UriGrammar.bracketed.matches'
  · have ends := (matchEpsilon_follow UriGrammar.bracketed literal).mpr taken
    have closes : literalMachine.next (.literal (follow UriGrammar.bracketed literal) true) 93 =
        ([], .closed true) := by
      show ([], if _ then _ else _) = _
      rw [if_pos ends]
    have slash : literalMachine.next (.closed true) 47 =
        ([.saveHost, .markh], .outside (.inside .segments)) := rfl
    rw [Transducer.passes_step closes (runs_closed true),
      Transducer.passes_step slash (runs_outside (by simp)), if_pos taken]
    simp [literalMachine, Scanner.passes, finish, Uri.finish, UriPlace.final, UriMemory.perform,
      UriMemory.save, UriMemory.consume, UriMemory.created, uriOf, ascii]
  · have ends : ¬ (follow UriGrammar.bracketed literal).matchEpsilon = true :=
      fun ends => taken ((matchEpsilon_follow UriGrammar.bracketed literal).mp ends)
    have refused : ∀ memory, literalMachine.scanner.passes
        (.literal (follow UriGrammar.bracketed literal) true, memory) [93, 47] = none := by
      intro memory
      have moves : LiteralState.next (.literal (follow UriGrammar.bracketed literal) true) 93 =
          ([], .outside .error) := by
        show ([], if _ then _ else _) = _
        rw [if_neg ends]
      rw [Scanner.passes, if_pos]
      show (false || (LiteralState.next _ 93).2.isError) = true
      rw [moves]
      rfl
    rw [refused, if_neg taken]
    rfl

end IpLiteral

end Wyze
