/-
**The chunk sizes of `HttpConnection::recvResponse`.**

The machine of `httpclient_parser` reads a chunk-size line and turns its digits into `content_len`:
`strtol` stops at the largest `long`, and the conversion to `int` keeps 32 bits. The loop over the
chunks then works with `content_len + 2` as an `int` and with `content_len` as a `size_t`. Here is the
machine of `Chunked_Header`, and the loop with these conversions and with the accesses it makes.

* `chunkRounds_fuel`: the loop ends.
* `chunkedCall_eq_recvResponse`: the call with its rounds is the call of `recvResponse`.
* `chunk_sizes_iff`: **no size is wrapped or negative, no access goes beyond the bytes present, and no
  size that does not fit leads to a response, exactly when every size that the loop reads, with the
  end of the line, fits an `int`**; `size_wrapped` and `size_negative` are sizes that do not.
-/
import Wyze.Http.Accesses
import Wyze.Http.Machine

namespace Wyze.Http

open Segments

/-! ### `Chunked_Header` -/

/-- The number that a text of digits denotes. -/
def denotes (base : Nat) (text : List UInt8) : Nat :=
  text.foldl (fun total byte => total * base + (LineParser.hexValue byte).getD 0) 0

/-- `strtol` of a text of digits: at most `LONG_MAX`. -/
def strtol (number : Nat) : Nat := min number (2 ^ 63 - 1)

/-- The actions of a chunk-size line. -/
inductive SizeAction where
  | mark | chunkSize | startField | writeField | writeValue
  deriving DecidableEq, Repr

/-- Where the machine is in a chunk-size line. -/
inductive SizeMode where
  | start | digits | newline | extension | name | equals | value | done | error
  deriving DecidableEq, Repr

/-- The end of an extension. -/
def endExtension (actions : List SizeAction) (byte : UInt8) : List SizeAction × SizeMode :=
  if byte = 10 then (actions, .done)
  else if byte = 13 then (actions, .newline)
  else if byte = 59 then (actions, .extension)
  else ([], .error)

/-- The transitions of `Chunked_Header`. -/
def SizeMode.next : SizeMode → UInt8 → List SizeAction × SizeMode
  | .start, byte => if Message.isXdigit byte then ([.mark], .digits) else ([], .error)
  | .digits, byte =>
    if Message.isXdigit byte then ([], .digits) else endExtension [.chunkSize] byte
  | .newline, byte => if byte = 10 then ([], .done) else ([], .error)
  | .extension, byte => if Message.isToken byte then ([.startField], .name) else ([], .error)
  | .name, byte =>
    if Message.isToken byte then ([], .name)
    else if byte = 61 then ([.writeField, .mark], .equals)
    else endExtension [.writeField, .mark, .writeValue] byte
  | .equals, byte => if Message.isToken byte then ([.mark], .value) else ([], .error)
  | .value, byte =>
    if Message.isToken byte then ([], .value) else endExtension [.writeValue] byte
  | .done, _ => ([], .error)
  | .error, _ => ([], .error)

/-- The alternative `Response` of the machine, with the digits from which `write_content_len` has set
`content_len`, if it has, and the callback `http_field`, which the extensions of a chunk call too. -/
structure StatusParser (σ ρ : Type*) extends Scanner σ UInt8 where
  init : σ
  reset : σ → σ
  httpField : List UInt8 → List UInt8 → σ → σ
  lengthDigits : σ → Option (List UInt8)
  getData : σ → ρ
  chunked : σ → Bool
  getContentLength : σ → Nat
  connection : σ → List UInt8

/-- The marks of a chunk-size line, each as the text since it, the digits that `chunk_size` has read,
and the state of the response. -/
structure SizeMemory (σ : Type*) where
  mark : List UInt8
  fieldStart : List UInt8
  fieldLen : Nat
  digits : Option (List UInt8)
  status : σ
  deriving DecidableEq

/-- The state of the whole machine. -/
inductive ClientState (σ : Type*) where
  | start (status : σ)
  | response (status : σ)
  | size (config : SizeMode × SizeMemory σ)
  deriving DecidableEq

variable {σ ρ : Type*}

/-- What an action does. The callbacks for the size and for the last chunk are empty. -/
def SizeMemory.perform (status : StatusParser σ ρ) (memory : SizeMemory σ) :
    SizeAction → SizeMemory σ
  | .mark => { memory with mark := [] }
  | .chunkSize => { memory with digits := some memory.mark }
  | .startField => { memory with fieldStart := [] }
  | .writeField => { memory with fieldLen := memory.fieldStart.length }
  | .writeValue =>
    { memory with
      status :=
        status.httpField (memory.fieldStart.take memory.fieldLen) memory.mark memory.status }

/-- One more byte is behind every mark. -/
def SizeMemory.consume (memory : SizeMemory σ) (byte : UInt8) : SizeMemory σ :=
  { memory with mark := memory.mark ++ [byte], fieldStart := memory.fieldStart ++ [byte] }

/-- The machine of a chunk-size line. -/
def sizeMachine (status : StatusParser σ ρ) : Transducer SizeMode UInt8 SizeAction (SizeMemory σ) where
  next := SizeMode.next
  perform := SizeMemory.perform status
  consume := SizeMemory.consume
  finished := (· = .done)
  failed := (· = .error)

/-- `content_len`: -1, or what the digits denote as a `long` and then as an `int`. -/
def contentLen : Option Nat → Int
  | none => -1
  | some number => toInt32 (strtol number)

namespace ClientState

/-- The state of the response. -/
def status : ClientState σ → σ
  | start status => status
  | response status => status
  | size config => config.2.status

/-- The number that the digits denote from which `content_len` has been set, if it has. -/
def number (parser : StatusParser σ ρ) : ClientState σ → Option Nat
  | start _ => none
  | response status => (parser.lengthDigits status).map (denotes 10)
  | size config => config.2.digits.map (denotes 16)

end ClientState

/-- `main := (Response | Chunked_Header) @done`: the first byte decides between the two. -/
def client (parser : StatusParser σ ρ) : ResponseParser (ClientState σ) ρ where
  init := .start parser.init
  reset := fun state => .start (parser.reset state.status)
  step := fun state byte =>
    match state with
    | .start status =>
      if Message.isXdigit byte then
        .size ((sizeMachine parser).step (.start, ⟨[], [], 0, none, status⟩) byte)
      else .response (parser.step status byte)
    | .response status => .response (parser.step status byte)
    | .size config => .size ((sizeMachine parser).step config byte)
  finished := fun state =>
    match state with
    | .start _ => false
    | .response status => parser.finished status
    | .size config => config.1 = .done
  failed := fun state =>
    match state with
    | .start _ => false
    | .response status => parser.failed status
    | .size config => config.1 = .error
  getData := fun state => parser.getData state.status
  chunked := fun state =>
    match state with
    | .start _ => false
    | .response status => parser.chunked status
    | .size config => config.2.digits.isSome
  contentLen := fun state => contentLen (state.number parser)
  chunksDone := fun state =>
    match state with
    | .size config => config.2.digits.isSome && contentLen (state.number parser) ≤ 0
    | _ => false
  getContentLength := fun state => parser.getContentLength state.status
  connection := fun state => parser.connection state.status

/-! ### The loop with its conversions -/

/-- The conversion of an `int` to `size_t`. -/
def toSize (value : Int) : Nat := (value % 2 ^ 64).toNat

/-- A round of the loop: the number that the size line denotes, and the accesses. -/
structure ChunkRound where
  number : Option Nat
  accesses : List Access
  deriving DecidableEq

section

variable (cfg : Config)

/-- The data of a chunk and the end of its line, after its size line. The sum `content_len + 2` of
`int`s may overflow, which is undefined; an `append` of a negative size throws, and so does a
`resize` to one. -/
def takeBytes (contentLen : Int) (body : List UInt8) (line : Parsed σ) :
    List Access × Except Failure (List UInt8 × Parsed σ) :=
  let offset := line.data.length
  let present := offset - line.nparse
  if 2 ^ 31 ≤ contentLen + 2 then ([], .error .fault)
  else if contentLen + 2 ≤ present then
    ([.append line.nparse offset (toSize contentLen)],
      if contentLen < 0 then .error .fault
      else .ok (body ++ (line.data.drop line.nparse).take contentLen.toNat,
        ⟨line.state, line.data, line.nparse + (contentLen.toNat + 2), line.wire⟩))
  else
    let left := (contentLen + 2 - present).toNat
    let before := [.append line.nparse offset present, .read 0 cfg.bufferSize (min left cfg.bufferSize)]
    match fill cfg.bufferSize left left line.wire with
    | none => (before, .error .closed)
    | some (more, wire) =>
      let whole := body ++ line.data.drop line.nparse ++ more
      (before ++ [.cut whole.length 2],
        if whole.length < 2 then .error .fault else .ok (dropEnding whole, ⟨line.state, [], 0, wire⟩))

/-- The loop over the chunks, with its rounds. -/
def chunkRounds (parser : StatusParser σ ρ) : Nat → List UInt8 → Parsed (ClientState σ) →
    List ChunkRound × Except Failure (List UInt8 × Parsed (ClientState σ))
  | 0, _, _ => ([], .error .closed)
  | fuel + 1, body, head =>
    match readAndParse (client parser).toScanner cfg.bufferSize ((client parser).reset head.state)
        (head.data.drop head.nparse) 0 head.wire with
    | .error failure => ([], .error failure)
    | .ok line =>
      let taken := takeBytes cfg (contentLen (line.state.number parser)) body line
      let moved := .copy head.nparse head.data.length 0 cfg.bufferSize
        (head.data.length - head.nparse)
      let round : ChunkRound := ⟨line.state.number parser, moved :: taken.1⟩
      match taken.2 with
      | .error failure => ([round], .error failure)
      | .ok (body, last) =>
        if cfg.maxBodySize < body.length then ([round], .error .bodyTooLong)
        else if (client parser).chunksDone last.state then ([round], .ok (body, last))
        else
          let later := chunkRounds parser fuel body last
          (round :: later.1, later.2)

/-- A call of `recvResponse` with the rounds of its loop. -/
def chunkedCall (parser : StatusParser σ ρ) (connection : HttpConnection) :
    List ChunkRound × Except Failure (HttpResponse ρ × HttpConnection) :=
  match readAndParse (client parser).toScanner cfg.bufferSize (client parser).init
      (restoreLeft cfg connection.left) 0 connection.wire with
  | .error failure => ([], .error failure)
  | .ok head =>
    if (client parser).chunked head.state then
      let run := chunkRounds cfg parser (head.wire.flatten.length + 1) [] head
      (run.1, run.2.map fun done =>
        ((client parser).response done.2.state done.1,
          ⟨saveLeftData done.2.data done.2.data.length done.2.nparse, done.2.wire⟩))
    else ([], recvSized cfg connection.left head
      (toInt64 ((client parser).getContentLength head.state)) ((client parser).response head.state))

end

variable {cfg : Config} {parser : StatusParser σ ρ}

/-! ### Size lines -/

/-- The digits of a size line are collected. -/
theorem accepts_digits {digits : List UInt8} (each : ∀ byte ∈ digits, Message.isXdigit byte = true)
    (memory : SizeMemory σ) (rest : List UInt8) :
    (client parser).accepts (.size (.digits, memory)) (digits ++ rest) =
      (client parser).accepts (.size (.digits, digits.foldl SizeMemory.consume memory)) rest := by
  induction digits generalizing memory with
  | nil => rfl
  | cons digit digits ih =>
      obtain ⟨isDigit, others⟩ := List.forall_mem_cons.mp each
      have stepped : (client parser).step (.size (.digits, memory)) digit =
          .size (.digits, memory.consume digit) := by
        show ClientState.size ((sizeMachine parser).step (.digits, memory) digit) = _
        rw [@Transducer.step_eq _ _ _ _ (sizeMachine parser) .digits .digits memory [] digit
          (if_pos isDigit)]
        rfl
      have goesOn : (client parser).halted (.size (.digits, memory.consume digit)) = false := rfl
      rw [List.cons_append, Scanner.accepts, stepped, goesOn, if_neg Bool.false_ne_true, ih others]
      rfl

theorem foldl_consume (bytes : List UInt8) (memory : SizeMemory σ) :
    bytes.foldl SizeMemory.consume memory = { memory with
      mark := memory.mark ++ bytes
      fieldStart := memory.fieldStart ++ bytes } := by
  induction bytes generalizing memory with
  | nil => rw [List.foldl_nil, List.append_nil, List.append_nil]
  | cons byte bytes ih =>
      rw [List.foldl_cons, ih, SizeMemory.consume]
      simp only [List.append_assoc, List.singleton_append]

/-- **A size line of any number of digits** is accepted, and its number is the one it denotes. -/
theorem accepts_sizeLine {digits : List UInt8} (nonempty : digits ≠ [])
    (each : ∀ byte ∈ digits, Message.isXdigit byte = true) (status : σ) :
    ∃ final, (client parser).accepts (.start status) (digits ++ [13, 10]) = some final ∧
      final.number parser = some (denotes 16 digits) ∧ final.status = status := by
  obtain ⟨digit, later, rfl⟩ := List.exists_cons_of_ne_nil nonempty
  obtain ⟨isDigit, others⟩ := List.forall_mem_cons.mp each
  have begun : (client parser).step (.start status) digit =
      .size (.digits, ⟨[digit], [digit], 0, none, status⟩) := by
    refine (if_pos isDigit).trans ?_
    rw [@Transducer.step_eq _ _ _ _ (sizeMachine parser) .start .digits _ [.mark] digit
      (if_pos isDigit)]
    rfl
  have goesOn : (client parser).halted (.size (.digits, ⟨[digit], [digit], 0, none, status⟩)) =
      false := rfl
  refine ⟨.size (.done, ⟨digit :: later ++ [13] ++ [10], digit :: later ++ [13] ++ [10], 0,
    some (digit :: later), status⟩), ?_, rfl, rfl⟩
  rw [List.cons_append, Scanner.accepts, begun, goesOn, if_neg Bool.false_ne_true,
    accepts_digits others, foldl_consume]
  rfl

/-! ### The conversions -/

/-- The size of a chunk with the end of its line fits an `int`. -/
def ChunkRound.Fits (round : ChunkRound) : Prop :=
  ∃ number, round.number = some number ∧ number + 2 < 2 ^ 31

instance (round : ChunkRound) : Decidable round.Fits :=
  decidable_of_iff (∃ number ∈ round.number, number + 2 < 2 ^ 31) Iff.rfl

/-- **The size is used as it is denoted**: `content_len` is the number of the size line, neither
wrapped nor negative. -/
def ChunkRound.Unwrapped (round : ChunkRound) : Prop :=
  ∃ number : Nat, round.number = some number ∧ contentLen round.number = number

theorem contentLen_of_lt {number : Nat} (small : number < 2 ^ 31) :
    contentLen (some number) = number := by
  have saturated : strtol number = number := Nat.min_eq_left (by omega)
  rw [contentLen, saturated, toInt32_of_lt small]

theorem ChunkRound.Fits.unwrapped {round : ChunkRound} (fits : round.Fits) : round.Unwrapped := by
  obtain ⟨number, isNumber, small⟩ := fits
  refine ⟨number, isNumber, ?_⟩
  rw [isNumber, contentLen_of_lt (by omega)]

/-- A size that is used as it is denoted fits, unless the sum with the end of the line overflows. -/
theorem ChunkRound.Unwrapped.fits_or {round : ChunkRound} (unwrapped : round.Unwrapped) :
    round.Fits ∨ ∃ number, round.number = some number ∧ 2 ^ 31 ≤ number + 2 ∧
      2 ^ 31 ≤ contentLen round.number + 2 := by
  obtain ⟨number, isNumber, same⟩ := unwrapped
  by_cases small : number + 2 < 2 ^ 31
  · exact Or.inl ⟨number, isNumber, small⟩
  · exact Or.inr ⟨number, isNumber, by omega, by rw [same]; omega⟩

theorem ChunkRound.Fits.bounds {round : ChunkRound} (fits : round.Fits) :
    0 ≤ contentLen round.number ∧ contentLen round.number + 2 < 2 ^ 31 := by
  obtain ⟨number, isNumber, small⟩ := fits
  rw [isNumber, contentLen_of_lt (by omega)]
  omega

/-! ### One round -/

variable {size : Int} {body : List UInt8} {line : Parsed σ}

/-- The sum overflows. -/
theorem takeBytes_overflow (overflows : 2 ^ 31 ≤ size + 2) :
    (takeBytes cfg size body line).2 = .error .fault := by
  simp only [takeBytes, if_pos overflows]

/-- **The accesses of a size that fits** keep their bounds. -/
theorem takeBytes_inside (nonneg : 0 ≤ size) (small : size + 2 < 2 ^ 31)
    (parsed : line.nparse ≤ line.data.length) (proper : Proper line.wire) :
    ∀ access ∈ (takeBytes cfg size body line).1, access.Inside := by
  have converts : toSize size = size.toNat := by
    rw [toSize, Int.emod_eq_of_lt nonneg (by omega)]
  simp only [takeBytes, if_neg (Int.not_le.mpr small)]
  by_cases enough : size + 2 ≤ (line.data.length - line.nparse : Nat)
  · rw [if_pos enough, List.forall_mem_singleton, Access.Inside, converts]
    omega
  · rw [if_neg enough]
    obtain ⟨left, isLeft⟩ :
        ∃ left, (size + 2 - (line.data.length - line.nparse : Nat)).toNat = left := ⟨_, rfl⟩
    rw [isLeft]
    have before : ∀ access ∈ [Access.append line.nparse line.data.length
        (line.data.length - line.nparse), .read 0 cfg.bufferSize (min left cfg.bufferSize)],
        access.Inside := by
      rw [List.forall_mem_cons, List.forall_mem_singleton, Access.Inside, Access.Inside]
      omega
    cases filled : fill cfg.bufferSize left left line.wire with
    | none => exact before
    | some result =>
        obtain ⟨count, _⟩ := eq_of_fill cfg.bufferSize_pos (Nat.le_refl _) proper filled
        refine List.forall_mem_append.mpr ⟨before, ?_⟩
        rw [List.forall_mem_singleton, Access.Inside, List.length_append, List.length_append,
          List.length_drop, count]
        omega

/-- Apart from the accesses, the bytes are taken as `takeChunk` takes them. -/
theorem takeBytes_eq_takeChunk : (takeBytes cfg size body line).2 = takeChunk cfg size body line := by
  simp only [takeBytes, takeChunk]
  split_ifs
  · rfl
  · rfl
  · rfl
  · cases fill cfg.bufferSize (size + 2 - (line.data.length - line.nparse : Nat)).toNat
      (size + 2 - (line.data.length - line.nparse : Nat)).toNat line.wire with
    | none => rfl
    | some result => rfl

/-- What a round leaves in the buffer lies in it, and it puts nothing back on the socket. -/
theorem takeBytes_bounds (parsed : line.nparse ≤ line.data.length)
    (room : line.data.length ≤ cfg.bufferSize) (proper : Proper line.wire)
    {result : List UInt8 × Parsed σ} (taken : (takeBytes cfg size body line).2 = .ok result) :
    (result.2.nparse ≤ result.2.data.length ∧ result.2.data.length ≤ cfg.bufferSize) ∧
      result.2.wire.flatten.length ≤ line.wire.flatten.length ∧ Proper result.2.wire := by
  rw [takeBytes_eq_takeChunk] at taken
  refine ⟨?_, takeChunk_le proper taken⟩
  simp only [takeChunk] at taken
  split_ifs at taken with overflows enough negative
  · cases taken
    exact ⟨by dsimp only; omega, room⟩
  · cases filled : fill cfg.bufferSize (size + 2 - (line.data.length - line.nparse : Nat)).toNat
        (size + 2 - (line.data.length - line.nparse : Nat)).toNat line.wire with
    | none =>
        rw [filled] at taken
        cases taken
    | some more =>
        rw [filled] at taken
        dsimp only at taken
        split_ifs at taken
        cases taken
        exact ⟨Nat.le_refl _, Nat.zero_le _⟩

/-! ### The rounds of the loop -/

variable {head : Parsed (ClientState σ)}

/-- The buffer behind a chunk-size line that was read into it. -/
theorem line_bounds {line : Parsed (ClientState σ)} (room : head.data.length ≤ cfg.bufferSize)
    (proper : Proper head.wire)
    (found : readAndParse (client parser).toScanner cfg.bufferSize ((client parser).reset head.state)
      (head.data.drop head.nparse) 0 head.wire = .ok line) :
    line.nparse ≤ line.data.length ∧ line.data.length ≤ cfg.bufferSize ∧
      line.wire.flatten.length < head.wire.flatten.length ∧ Proper line.wire := by
  have smaller : (head.data.drop head.nparse).length ≤ cfg.bufferSize := by
    rw [List.length_drop]
    omega
  obtain ⟨parsedLine, roomLine⟩ := readAndParse_bounds (Nat.zero_le _) smaller found
  obtain ⟨shorter, properLine⟩ := readAndParse_shorter proper found
  exact ⟨parsedLine, roomLine, shorter, properLine⟩

/-- **The rounds of a run**: what holds of a round over every buffer in bounds holds of all of them. -/
theorem forall_chunkRounds {holds : ChunkRound → Prop}
    (each : ∀ (body : List UInt8) (head line : Parsed (ClientState σ)),
      head.nparse ≤ head.data.length → head.data.length ≤ cfg.bufferSize →
      line.nparse ≤ line.data.length → Proper line.wire →
      holds ⟨line.state.number parser, .copy head.nparse head.data.length 0 cfg.bufferSize
        (head.data.length - head.nparse) ::
          (takeBytes cfg (contentLen (line.state.number parser)) body line).1⟩)
    (fuel : Nat) : ∀ (body : List UInt8) (head : Parsed (ClientState σ)),
      head.nparse ≤ head.data.length → head.data.length ≤ cfg.bufferSize → Proper head.wire →
      ∀ round ∈ (chunkRounds cfg parser fuel body head).1, holds round := by
  induction fuel with
  | zero => exact fun _ _ _ _ _ => List.forall_mem_nil _
  | succ fuel ih =>
      intro body head parsed room proper
      rw [chunkRounds]
      cases found : readAndParse (client parser).toScanner cfg.bufferSize
          ((client parser).reset head.state) (head.data.drop head.nparse) 0 head.wire with
      | error failure => exact List.forall_mem_nil _
      | ok line =>
          obtain ⟨parsedLine, roomLine, _, properLine⟩ := line_bounds room proper found
          have here := each body head line parsed room parsedLine properLine
          dsimp only
          cases taken : (takeBytes cfg (contentLen (line.state.number parser)) body line).2 with
          | error failure => exact List.forall_mem_singleton.mpr here
          | ok result =>
              obtain ⟨bounds, _, properLast⟩ := takeBytes_bounds parsedLine roomLine properLine taken
              dsimp only
              split_ifs
              · exact List.forall_mem_singleton.mpr here
              · exact List.forall_mem_singleton.mpr here
              · exact List.forall_mem_cons.mpr ⟨here, ih _ _ bounds.1 bounds.2 properLast⟩

/-- A round whose sum overflows ends the call with a fault. -/
theorem fault_of_overflow (fuel : Nat) : ∀ (body : List UInt8) (head : Parsed (ClientState σ)),
    ∀ round ∈ (chunkRounds cfg parser fuel body head).1,
      2 ^ 31 ≤ contentLen round.number + 2 →
      (chunkRounds cfg parser fuel body head).2 = .error .fault := by
  induction fuel with
  | zero => exact fun _ _ => List.forall_mem_nil _
  | succ fuel ih =>
      intro body head round member overflows
      rw [chunkRounds] at member ⊢
      cases found : readAndParse (client parser).toScanner cfg.bufferSize
          ((client parser).reset head.state) (head.data.drop head.nparse) 0 head.wire with
      | error failure =>
          rw [found] at member
          cases member
      | ok line =>
          rw [found] at member
          dsimp only at member ⊢
          cases taken : (takeBytes cfg (contentLen (line.state.number parser)) body line).2 with
          | error failure =>
              rw [taken] at member
              cases List.mem_singleton.mp member
              rw [takeBytes_overflow overflows] at taken
              cases taken
              rfl
          | ok result =>
              rw [taken] at member
              have noOverflow : ¬ 2 ^ 31 ≤ contentLen (line.state.number parser) + 2 := by
                intro overflows'
                rw [takeBytes_overflow overflows'] at taken
                cases taken
              dsimp only at member ⊢
              split_ifs at member ⊢
              · cases List.mem_singleton.mp member
                exact absurd overflows noOverflow
              · cases List.mem_singleton.mp member
                exact absurd overflows noOverflow
              · rcases List.mem_cons.mp member with rfl | later
                · exact absurd overflows noOverflow
                · exact ih _ _ round later overflows

/-- **The fuel is enough**: with more than one unit for each unread byte the loop does the same with
any amount of fuel, since every round reads a byte. -/
theorem chunkRounds_fuel (fuel : Nat) : ∀ (other : Nat) (body : List UInt8)
    (head : Parsed (ClientState σ)), head.nparse ≤ head.data.length →
    head.data.length ≤ cfg.bufferSize → Proper head.wire → head.wire.flatten.length < fuel →
    head.wire.flatten.length < other →
    chunkRounds cfg parser fuel body head = chunkRounds cfg parser other body head := by
  induction fuel with
  | zero => exact fun _ _ _ _ _ _ absurd => (Nat.not_lt_zero _ absurd).elim
  | succ fuel ih =>
      intro other body head parsed room proper enough enough'
      obtain ⟨other, rfl⟩ := Nat.exists_eq_succ_of_ne_zero (Nat.ne_zero_of_lt enough')
      rw [chunkRounds, chunkRounds]
      cases found : readAndParse (client parser).toScanner cfg.bufferSize
          ((client parser).reset head.state) (head.data.drop head.nparse) 0 head.wire with
      | error failure => rfl
      | ok line =>
          obtain ⟨parsedLine, roomLine, shorter, properLine⟩ := line_bounds room proper found
          dsimp only
          cases taken : (takeBytes cfg (contentLen (line.state.number parser)) body line).2 with
          | error failure => rfl
          | ok result =>
              obtain ⟨bounds, less, properLast⟩ := takeBytes_bounds parsedLine roomLine properLine taken
              dsimp only
              rw [ih other result.1 result.2 bounds.1 bounds.2 properLast (by omega) (by omega)]

/-- Apart from its rounds, the loop is the loop of `recvResponse`. -/
theorem chunkRounds_eq_recvChunks (fuel : Nat) : ∀ (body : List UInt8)
    (head : Parsed (ClientState σ)),
    (chunkRounds cfg parser fuel body head).2 = recvChunks cfg (client parser) fuel body head := by
  induction fuel with
  | zero => exact fun _ _ => rfl
  | succ fuel ih =>
      intro body head
      rw [chunkRounds, recvChunks]
      cases found : readAndParse (client parser).toScanner cfg.bufferSize
          ((client parser).reset head.state) (head.data.drop head.nparse) 0 head.wire with
      | error failure => rfl
      | ok line =>
          have same : (client parser).contentLen line.state = contentLen (line.state.number parser) :=
            rfl
          dsimp only
          rw [same, takeBytes_eq_takeChunk]
          cases takeChunk cfg (contentLen (line.state.number parser)) body line with
          | error failure => rfl
          | ok result =>
              obtain ⟨body', last⟩ := result
              dsimp only
              split_ifs
              · rfl
              · rfl
              · exact ih body' last

/-! ### The call -/

theorem restoreLeft_le (cfg : Config) (left : List UInt8) :
    (restoreLeft cfg left).length ≤ cfg.bufferSize := by
  unfold restoreLeft
  split
  · exact Nat.zero_le _
  · omega

/-- **The call with its rounds** is the call of `recvResponse`. -/
theorem chunkedCall_eq_recvResponse (connection : HttpConnection) :
    (chunkedCall cfg parser connection).2 = recvResponse cfg (client parser) connection := by
  rw [chunkedCall, recvResponse]
  cases found : readAndParse (client parser).toScanner cfg.bufferSize (client parser).init
      (restoreLeft cfg connection.left) 0 connection.wire with
  | error failure => rfl
  | ok head =>
      dsimp only
      by_cases chunks : (client parser).chunked head.state = true
      · rw [if_pos chunks, if_pos chunks]
        dsimp only
        rw [chunkRounds_eq_recvChunks]
        cases recvChunks cfg (client parser) (head.wire.flatten.length + 1) [] head with
        | error failure => rfl
        | ok done => rfl
      · rw [if_neg chunks, if_neg chunks]

/-- The rounds of a call are those of the loop behind a head that announces chunks. -/
theorem chunkedCall_rounds (cfg : Config) (parser : StatusParser σ ρ) (connection : HttpConnection) :
    (chunkedCall cfg parser connection).1 = [] ∨
    ∃ head, readAndParse (client parser).toScanner cfg.bufferSize (client parser).init
        (restoreLeft cfg connection.left) 0 connection.wire = .ok head ∧
      let run := chunkRounds cfg parser (head.wire.flatten.length + 1) [] head
      chunkedCall cfg parser connection = (run.1, run.2.map fun done =>
        ((client parser).response done.2.state done.1,
          ⟨saveLeftData done.2.data done.2.data.length done.2.nparse, done.2.wire⟩)) := by
  rw [chunkedCall]
  cases found : readAndParse (client parser).toScanner cfg.bufferSize (client parser).init
      (restoreLeft cfg connection.left) 0 connection.wire with
  | error failure => exact Or.inl rfl
  | ok head =>
      dsimp only
      by_cases chunks : (client parser).chunked head.state = true
      · exact Or.inr ⟨head, rfl, if_pos chunks⟩
      · rw [if_neg chunks]
        exact Or.inl rfl

/-- **The accesses of a round whose size fits** keep their bounds. -/
theorem inside_of_fits {connection : HttpConnection} (proper : Proper connection.wire) :
    ∀ round ∈ (chunkedCall cfg parser connection).1, round.Fits →
      ∀ access ∈ round.accesses, access.Inside := by
  obtain nobody | ⟨head, found, called⟩ := chunkedCall_rounds cfg parser connection
  · rw [nobody]
    exact List.forall_mem_nil _
  · obtain ⟨parsed, room⟩ := readAndParse_bounds (Nat.zero_le _) (restoreLeft_le cfg _) found
    obtain ⟨_, properHead⟩ := readAndParse_shorter proper found
    rw [called]
    refine forall_chunkRounds (fun body head line parsed room parsedLine properLine fits => ?_)
      _ [] head parsed room properHead
    refine List.forall_mem_cons.mpr ⟨?_, takeBytes_inside fits.bounds.1 fits.bounds.2 parsedLine
      properLine⟩
    rw [Access.Inside]
    omega

/-- A round whose sum overflows ends the call with a fault. -/
theorem chunkedCall_overflow {connection : HttpConnection} :
    ∀ round ∈ (chunkedCall cfg parser connection).1, 2 ^ 31 ≤ contentLen round.number + 2 →
      (chunkedCall cfg parser connection).2 = .error .fault := by
  obtain nobody | ⟨head, found, called⟩ := chunkedCall_rounds cfg parser connection
  · rw [nobody]
    exact List.forall_mem_nil _
  · rw [called]
    intro round member overflows
    dsimp only at member ⊢
    rw [fault_of_overflow _ _ _ round member overflows]
    rfl

/-- **The chunk sizes of a call** are used as they are denoted, the accesses of its rounds keep their
bounds, and a size that with the end of the line does not fit an `int` makes the call return no
response, exactly when every size that the loop reads fits. -/
theorem chunk_sizes_iff (parser : StatusParser σ ρ) (connection : HttpConnection)
    (proper : Proper connection.wire) :
    ((∀ round ∈ (chunkedCall cfg parser connection).1,
        round.Unwrapped ∧ ∀ access ∈ round.accesses, access.Inside) ∧
      ∀ round ∈ (chunkedCall cfg parser connection).1, ∀ number, round.number = some number →
        2 ^ 31 ≤ number + 2 →
        ∃ failure, (chunkedCall cfg parser connection).2 = .error failure ∧ failure ≠ .fault) ↔
      ∀ round ∈ (chunkedCall cfg parser connection).1, round.Fits := by
  constructor
  · rintro ⟨safe, refused⟩ round member
    rcases (safe round member).1.fits_or with fits | ⟨number, isNumber, large, overflows⟩
    · exact fits
    · obtain ⟨failure, failed, harmless⟩ := refused round member number isNumber large
      rw [chunkedCall_overflow round member overflows] at failed
      cases failed
      exact absurd rfl harmless
  · intro fit
    refine ⟨fun round member => ⟨(fit round member).unwrapped,
      inside_of_fits proper round member (fit round member)⟩, ?_⟩
    intro round member number isNumber large
    obtain ⟨number', isNumber', small⟩ := fit round member
    rw [isNumber] at isNumber'
    cases isNumber'
    exact absurd small (Nat.not_lt.mpr large)

/-- The line parser as the alternative `Response`. -/
def lineStatus : StatusParser LineParser.State (List (List UInt8)) where
  toScanner := LineParser.request.toScanner
  init := LineParser.init
  reset := LineParser.reset
  httpField := fun field value state =>
    { state with lines := state.lines ++ [field ++ ascii ": " ++ value] }
  lengthDigits := fun state => LineParser.header (ascii "content-length") state.lines
  getData := LineParser.State.lines
  chunked := LineParser.State.chunked
  getContentLength := LineParser.response.getContentLength
  connection := LineParser.response.connection

/-- A call on a chunked response whose size lines and data come in segments of their own. -/
def chunkedCallOf (segments : List String) :
    List ChunkRound × Except Failure (HttpResponse (List (List UInt8)) × HttpConnection) :=
  chunkedCall defaultConfig lineStatus ⟨[], hello.head :: segments.map ascii⟩

theorem chunk_sizes_hello :
    (∀ round ∈ (chunkedCallOf ["5;a=b\r\n", "hello\r\n", "0\r\n", "\r\n"]).1,
        round.Unwrapped ∧ ∀ access ∈ round.accesses, access.Inside) ∧
      ∀ round ∈ (chunkedCallOf ["5;a=b\r\n", "hello\r\n", "0\r\n", "\r\n"]).1, ∀ number,
        round.number = some number → 2 ^ 31 ≤ number + 2 →
        ∃ failure, (chunkedCallOf ["5;a=b\r\n", "hello\r\n", "0\r\n", "\r\n"]).2 =
          .error failure ∧ failure ≠ .fault :=
  (chunk_sizes_iff lineStatus ⟨[], hello.head :: ["5;a=b\r\n", "hello\r\n", "0\r\n",
    "\r\n"].map ascii⟩ (by decide +kernel)).mpr (by decide +kernel)

/-- **A wrapped size**: 2^32 + 5 is taken for 5, and the response is returned. -/
theorem size_wrapped :
    (chunkedCallOf ["100000005\r\n", "hello\r\n", "0\r\n", "\r\n"]).1.map ChunkRound.number =
        [some 4294967301, some 0] ∧
      contentLen (some 4294967301) = 5 ∧
      (chunkedCallOf ["100000005\r\n", "hello\r\n", "0\r\n", "\r\n"]).2.map
        (fun done => done.1.body) = .ok (ascii "hello") := by
  decide +kernel

/-- **A negative size**: 2^31 becomes -2^31, and more bytes than there are in memory are appended. -/
theorem size_negative :
    contentLen (some 2147483648) = -2147483648 ∧
      chunkedCallOf ["80000000\r\n", "hello\r\n"] =
        ([⟨some 2147483648, [.copy 71 71 0 4096 0, .append 10 10 18446744071562067968]⟩],
          .error .fault) ∧
      ¬ (Access.append 10 10 18446744071562067968).Inside := by
  decide +kernel

end Wyze.Http
