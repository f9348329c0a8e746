/-
**Chunked responses.**

A chunked response is a head and then chunks: a size line, the data and the end of the line, up to a
chunk without data. Before each size line the loop of `recvResponse` reads from the socket, also when
it already holds the line, so how the response is cut decides whether it is received. The loop also
takes what is no chunk: behind a line with the size -1, one byte, in place of the last byte of the body.

* `recvChunks_ok`, `recvChunks_error`: the loop returns exactly when it has `Taken` all parts of what is
  to come; chunks are taken when every one of them is `Delivered`, that is, some byte is still unread
  when its turn comes.
* `chunked_response_iff`: **a chunked response is returned exactly when its head and its chunks are
  delivered so**; one that arrives in a single segment never is.
-/
import Wyze.Http.Connection

namespace Wyze.Http

open Segments

/-- A chunk: its size line, up to the line feed, its data, and the two bytes of the end of the line
after it, which the loop does not look at. -/
structure Chunk where
  line : List UInt8
  data : List UInt8
  ending : List UInt8
  ended : ending.length = 2
  deriving DecidableEq, Repr

/-- The bytes of a chunk. -/
def Chunk.bytes (chunk : Chunk) : List UInt8 := chunk.line ++ (chunk.data ++ chunk.ending)

/-- The bytes of a sequence of chunks. -/
def chunkBytes (chunks : List Chunk) : List UInt8 := (chunks.map Chunk.bytes).flatten

/-- The data of a sequence of chunks. -/
def chunkData (chunks : List Chunk) : List UInt8 := (chunks.map Chunk.data).flatten

/-- What the loop takes in a round: a line, and the bytes behind it. -/
structure Part where
  line : List UInt8
  taken : List UInt8
  deriving DecidableEq, Repr

/-- The bytes of a part. -/
def Part.bytes (part : Part) : List UInt8 := part.line ++ part.taken

/-- The bytes of a sequence of parts. -/
def partBytes (parts : List Part) : List UInt8 := (parts.map Part.bytes).flatten

/-- The body behind a part. -/
def Part.extend (body : List UInt8) (part : Part) : List UInt8 := dropEnding (body ++ part.taken)

/-- A chunk as the loop takes it. -/
def Chunk.part (chunk : Chunk) : Part := ⟨chunk.line, chunk.data ++ chunk.ending⟩

variable {σ ρ : Type*} {cfg : Config} {parser : ResponseParser σ ρ}

/-- **The chunks of a response**, for a parser that is started again for each of them: the size lines
are accepted and give the lengths of the data (with the end of the line an `int`), and the last chunk,
which a sender makes the one without data, is the first that the parser takes for it. -/
inductive Chunks (parser : ResponseParser σ ρ) : σ → List Chunk → σ → Prop
  | last {state final : σ} {chunk : Chunk}
      (accepted : parser.accepts (parser.reset state) chunk.line = some final)
      (size : parser.contentLen final = chunk.data.length)
      (small : chunk.data.length + 2 < 2 ^ 31) (done : parser.chunksDone final = true) :
      Chunks parser state [chunk] final
  | more {state next final : σ} {chunk : Chunk} {chunks : List Chunk}
      (accepted : parser.accepts (parser.reset state) chunk.line = some next)
      (size : parser.contentLen next = chunk.data.length)
      (small : chunk.data.length + 2 < 2 ^ 31) (goesOn : parser.chunksDone next = false)
      (later : Chunks parser next chunks final) : Chunks parser state (chunk :: chunks) final

/-- **The parts that the loop takes for chunks**: the size of a line, with the end of a line, is the
number of the bytes taken behind it. A size of -1 is that of a part with one byte. -/
inductive Parts (parser : ResponseParser σ ρ) : σ → List Part → σ → Prop
  | last {state final : σ} {part : Part}
      (accepted : parser.accepts (parser.reset state) part.line = some final)
      (size : parser.contentLen final + 2 = part.taken.length) (some : part.taken ≠ [])
      (small : part.taken.length < 2 ^ 31) (done : parser.chunksDone final = true) :
      Parts parser state [part] final
  | more {state next final : σ} {part : Part} {parts : List Part}
      (accepted : parser.accepts (parser.reset state) part.line = some next)
      (size : parser.contentLen next + 2 = part.taken.length) (some : part.taken ≠ [])
      (small : part.taken.length < 2 ^ 31) (goesOn : parser.chunksDone next = false)
      (later : Parts parser next parts final) : Parts parser state (part :: parts) final

/-- Where the reception of a chunked body stands: what `saveLeftData` would now save, what it should
save, and the segments unread. -/
structure Standing where
  saved : List UInt8
  kept : List UInt8
  wire : List (List UInt8)
  deriving DecidableEq, Repr

/-- Where the loop over the chunks stands. -/
def Parsed.standing (head : Parsed σ) : Standing :=
  ⟨saveLeftData head.data head.data.length head.nparse, head.data.drop head.nparse, head.wire⟩

/-- The standing when a part of the response has been read: its first `need` bytes are the head or
the size line that the parser reads, and it has `size` bytes. -/
def Standing.pass (cfg : Config) (need size : Nat) (now : Standing) : Standing :=
  let buffer := held cfg.bufferSize need now.kept now.wire
  ⟨buffer.take (buffer.length - size), buffer.drop size,
    behind cfg.bufferSize need size now.kept now.wire⟩

/-- The standing after one more part. -/
def Standing.next (cfg : Config) (now : Standing) (part : Part) : Standing :=
  now.pass cfg part.line.length part.bytes.length

/-- The bytes the buffer holds when the line of a part has been read. -/
def Standing.buffer (cfg : Config) (now : Standing) (part : Part) : List UInt8 :=
  held cfg.bufferSize part.line.length now.kept now.wire

theorem Standing.next_eq (now : Standing) (part : Part) : now.next cfg part =
    ⟨(now.buffer cfg part).take ((now.buffer cfg part).length - part.bytes.length),
      (now.buffer cfg part).drop part.bytes.length,
      behind cfg.bufferSize part.line.length part.bytes.length now.kept now.wire⟩ := rfl

/-- **Every part is delivered**: when its turn comes a byte is still unread, and its line fits the
buffer. -/
def Delivered (cfg : Config) : List Part → Standing → Prop
  | [], _ => True
  | part :: parts, now =>
    now.wire ≠ [] ∧ part.line.length ≤ cfg.bufferSize ∧ Delivered cfg parts (now.next cfg part)

/-- The bytes behind the line can be taken: a single one only from the socket, and only if there is a
byte of the body to go with it. -/
def Takes (cfg : Config) (part : Part) (body : List UInt8) (now : Standing) : Prop :=
  part.taken.length = 1 → (now.buffer cfg part).length = part.line.length ∧ body ≠ []

instance (cfg : Config) (part : Part) (body : List UInt8) (now : Standing) :
    Decidable (Takes cfg part body now) :=
  inferInstanceAs (Decidable (_ → _))

/-- **Every part is taken**: it is delivered, its bytes can be taken, and the body with it is within the
limit. -/
def Taken (cfg : Config) : List Part → List UInt8 → Standing → Prop
  | [], _, _ => True
  | part :: parts, body, now =>
    (now.wire ≠ [] ∧ part.line.length ≤ cfg.bufferSize) ∧ Takes cfg part body now ∧
      (part.extend body).length ≤ cfg.maxBodySize ∧
      Taken cfg parts (part.extend body) (now.next cfg part)

/-! ### One part -/

variable {part : Part} {kept rest : List UInt8} {wire : List (List UInt8)}

theorem Part.length_bytes (part : Part) :
    part.bytes.length = part.line.length + part.taken.length := List.length_append

theorem Part.line_le_bytes (part : Part) : part.line.length ≤ part.bytes.length := by
  rw [part.length_bytes]
  exact Nat.le_add_right _ _

theorem dropEnding_append (body : List UInt8) {ending : List UInt8} (two : ending.length = 2) :
    dropEnding (body ++ ending) = body := by
  unfold dropEnding
  rw [List.length_append, two]
  exact List.take_left

/-- The end of the line that a chunk has with its data. -/
theorem Part.extend_eq (part : Part) (body : List UInt8) (two : 2 ≤ part.taken.length) :
    part.extend body = body ++ part.taken.take (part.taken.length - 2) := by
  have split : body ++ part.taken = body ++ part.taken.take (part.taken.length - 2) ++
      part.taken.drop (part.taken.length - 2) := by
    rw [List.append_assoc, List.take_append_drop]
  unfold Part.extend
  rw [split]
  apply dropEnding_append
  rw [List.length_drop]
  omega

/-- What a round of the loop is to read: a part, and then the rest of the stream. -/
abbrev Round (cfg : Config) (part : Part) (rest : List UInt8) (now : Standing) : Prop :=
  Incoming cfg.bufferSize part.line.length part.bytes rest now.kept now.wire

/-- What a round of the loop has in the buffer when the line of its part has been read. -/
def Standing.found (cfg : Config) (now : Standing) (part : Part) (state : σ) : Parsed σ :=
  ⟨state, now.buffer cfg part, part.line.length,
    skip ((now.buffer cfg part).length - now.kept.length) now.wire⟩

@[simp] theorem Standing.found_state (now : Standing) (state : σ) :
    (now.found cfg part state).state = state :=
  rfl

/-- The bytes of a part are in the buffer. A single one is not taken there. -/
theorem takeChunk_held {now : Standing} (round : Round cfg part rest now) {size : Int}
    (isSize : size + 2 = part.taken.length) (some : part.taken ≠ [])
    (small : part.taken.length < 2 ^ 31) (body : List UInt8) (state : σ)
    (whole : part.bytes.length ≤ (now.buffer cfg part).length) :
    takeChunk cfg size body (now.found cfg part state) =
      if Takes cfg part body now then
        .ok (part.extend body, { now.found cfg part state with nparse := part.bytes.length })
      else .error .fault := by
  have bytes := part.length_bytes
  have pos := List.length_pos_iff.mpr some
  have after : part.bytes.drop part.line.length = part.taken := List.drop_left
  have length : (now.buffer cfg part).length =
      arrive cfg.bufferSize part.line.length now.kept.length now.wire := round.length_held
  unfold Standing.found
  simp only [takeChunk]
  rw [if_neg (by omega), if_pos (by omega)]
  by_cases negative : size < 0
  · have single : ¬ Takes cfg part body now := fun takes => by
      have nothing := (takes (by omega)).1
      omega
    rw [if_pos negative, if_neg single]
  · have takes : Takes cfg part body now := fun single => by omega
    have data : ((now.buffer cfg part).drop part.line.length).take size.toNat =
        part.taken.take (part.taken.length - 2) := by
      apply (round.take_drop_held (length ▸ whole) (by omega)).trans
      rw [after]
      congr 1
      omega
    have next : part.line.length + (size.toNat + 2) = part.bytes.length := by omega
    rw [if_neg negative, if_pos takes, data, part.extend_eq body (by omega), next]

/-- Bytes of a part are missing in the buffer, and are read from the socket. -/
theorem takeChunk_missing {now : Standing} (round : Round cfg part rest now) {size : Int}
    (isSize : size + 2 = part.taken.length) (small : part.taken.length < 2 ^ 31)
    (body : List UInt8) (state : σ) (short : (now.buffer cfg part).length < part.bytes.length) :
    takeChunk cfg size body (now.found cfg part state) =
      if Takes cfg part body now then
        .ok (part.extend body, ⟨state, [], 0, behind cfg.bufferSize part.line.length
          part.bytes.length now.kept now.wire⟩)
      else .error .fault := by
  have bytes := part.length_bytes
  have after : part.bytes.drop part.line.length = part.taken := List.drop_left
  have length : (now.buffer cfg part).length =
      arrive cfg.bufferSize part.line.length now.kept.length now.wire := round.length_held
  have found := round.need_le_arrive
  have missing : (size + 2 - ((now.buffer cfg part).length - part.line.length : Nat)).toNat =
      part.bytes.length - (now.buffer cfg part).length := by omega
  have there : part.bytes.length - (now.buffer cfg part).length ≤
      (skip ((now.buffer cfg part).length - now.kept.length) now.wire).flatten.length := by
    rw [length]
    exact round.missing_le
  have data : (now.buffer cfg part).drop part.line.length ++
      (skip ((now.buffer cfg part).length - now.kept.length) now.wire).flatten.take
        (part.bytes.length - (now.buffer cfg part).length) = part.taken := by
    rw [length]
    exact (round.drop_held_append (by omega)).trans after
  unfold Standing.found
  simp only [takeChunk]
  rw [if_neg (by omega), if_neg (by omega), missing, fill_eq_some cfg.bufferSize_pos (Nat.le_refl _)
    (proper_skip round.proper _) there]
  dsimp only
  rw [List.append_assoc body, data, length, round.skip_missing (by omega)]
  by_cases few : (body ++ part.taken).length < 2
  · have lone : ¬ Takes cfg part body now := fun takes => by
      rw [List.length_append] at few
      have more := List.length_pos_iff.mpr (takes (by omega)).2
      omega
    rw [if_pos few, if_neg lone]
  · have takes : Takes cfg part body now := fun single => by
      rw [List.length_append] at few
      exact ⟨by omega, List.length_pos_iff.mp (by omega)⟩
    rw [if_neg few, if_pos takes]
    rfl

/-- **The bytes of a part are taken**, from the buffer or from the buffer and the socket. -/
theorem takeChunk_eq {now : Standing} (round : Round cfg part rest now) {size : Int}
    (isSize : size + 2 = part.taken.length) (some : part.taken ≠ [])
    (small : part.taken.length < 2 ^ 31) (body : List UInt8) (state : σ) :
    ∃ last : Parsed σ, takeChunk cfg size body (now.found cfg part state) =
        (if Takes cfg part body now then .ok (part.extend body, last) else .error .fault) ∧
      last.state = state ∧ last.standing = now.next cfg part := by
  have length : (now.buffer cfg part).length =
      arrive cfg.bufferSize part.line.length now.kept.length now.wire := round.length_held
  by_cases whole : part.bytes.length ≤ (now.buffer cfg part).length
  · refine ⟨_, takeChunk_held round isSize some small body state whole, rfl, ?_⟩
    rw [Standing.next_eq, Parsed.standing, saveLeftData]
    dsimp only [Standing.found]
    rw [length, ← Incoming.skip_held (length ▸ whole)]
  · have short := Nat.lt_of_not_le whole
    have nothing : (now.buffer cfg part).drop part.bytes.length = [] :=
      round.nothing_beyond (by omega)
    have none : (now.buffer cfg part).length - part.bytes.length = 0 := by omega
    refine ⟨_, takeChunk_missing round isSize small body state short, rfl, ?_⟩
    rw [Standing.next_eq, Parsed.standing, saveLeftData]
    rw [nothing, none]
    rfl

/-- **A round of the loop** over a part whose line is delivered. -/
theorem recvChunks_round {head : Parsed σ} {next : σ} {fuel : Nat} {body : List UInt8}
    (accepted : parser.accepts (parser.reset head.state) part.line = some next)
    (size : parser.contentLen next + 2 = part.taken.length) (some : part.taken ≠ [])
    (small : part.taken.length < 2 ^ 31) (round : Round cfg part rest head.standing)
    (more : head.wire ≠ []) :
    ∃ last : Parsed σ, last.state = next ∧ last.standing = head.standing.next cfg part ∧
      recvChunks cfg parser (fuel + 1) body head =
        if Takes cfg part body head.standing then
          if cfg.maxBodySize < (part.extend body).length then .error .bodyTooLong
          else if parser.chunksDone next then .ok (part.extend body, last)
          else recvChunks cfg parser fuel (part.extend body) last
        else .error .fault := by
  obtain ⟨last, taken, same, standing⟩ := takeChunk_eq round size some small body next
  have found : readAndParse parser.toScanner cfg.bufferSize (parser.reset head.state)
      (head.data.drop head.nparse) 0 head.wire =
      .ok (head.standing.found cfg part next) := by
    unfold Standing.found
    rw [show (head.standing.buffer cfg part).length = _ from round.length_held]
    exact readAndParse_incoming accepted round more
  refine ⟨last, same, standing, ?_⟩
  rw [recvChunks, found]
  dsimp only
  rw [Standing.found_state, taken]
  by_cases takes : Takes cfg part body head.standing
  · rw [if_pos takes, if_pos takes]
    dsimp only
    rw [same]
  · rw [if_neg takes, if_neg takes]

/-! ### The loop -/

/-- A line that is delivered can be read in a round of the loop. -/
theorem round_of_stream {now : Standing} {parts : List Part}
    (stream : now.kept ++ now.wire.flatten = partBytes (part :: parts) ++ rest)
    (room : now.kept.length < cfg.bufferSize) (proper : Proper now.wire)
    (fits : part.line.length ≤ cfg.bufferSize) :
    Round cfg part (partBytes parts ++ rest) now := by
  refine ⟨?_, room, proper, fits, part.line_le_bytes⟩
  rw [stream, ← List.append_assoc]
  rfl

/-- A round of the loop that fails at its line. -/
theorem recvChunks_line {head : Parsed σ} {next : σ} {fuel : Nat} {body : List UInt8}
    {parts : List Part} (accepted : parser.accepts (parser.reset head.state) part.line = some next)
    (stream : head.standing.kept ++ head.standing.wire.flatten =
      partBytes (part :: parts) ++ rest)
    (room : head.standing.kept.length < cfg.bufferSize) (proper : Proper head.standing.wire)
    (fails : ¬ (head.wire ≠ [] ∧ part.line.length ≤ cfg.bufferSize)) :
    ∃ failure, recvChunks cfg parser (fuel + 1) body head = .error failure ∧ failure ≠ .fault := by
  rw [recvChunks]
  by_cases more : head.wire = []
  · rw [more]
    exact ⟨.closed, rfl, by decide⟩
  · have large : cfg.bufferSize < part.line.length := by
      by_contra fits
      exact fails ⟨more, by omega⟩
    have bytes : (head.data.drop head.nparse).drop 0 ++ head.wire.flatten =
        part.line ++ (part.taken ++ (partBytes parts ++ rest)) := by
      rw [List.drop_zero, ← List.append_assoc part.line, ← List.append_assoc]
      exact stream
    have full : readAndParse parser.toScanner cfg.bufferSize (parser.reset head.state)
        (head.data.drop head.nparse) 0 head.wire = .error .bufferFull :=
      readAndParse_full accepted (Nat.zero_le _) room proper (by omega) bytes
    rw [full]
    exact ⟨.bufferFull, rfl, by decide⟩

/-- What is known of the stream when a round begins, is known after it. -/
theorem standing_next {now : Standing} (round : Round cfg part rest now)
    (pos : 0 < part.line.length) :
    (now.next cfg part).kept ++ (now.next cfg part).wire.flatten = rest ∧
      (now.next cfg part).kept.length < cfg.bufferSize ∧ Proper (now.next cfg part).wire :=
  ⟨round.rest_eq.symm, round.room_beyond pos, round.proper_behind⟩

/-- **The loop returns what it has taken** when it takes every part. -/
theorem recvChunks_ok {state final : σ} {parts : List Part}
    (wellFormed : Parts parser state parts final) :
    ∀ (fuel : Nat) (body : List UInt8) (head : Parsed σ), head.state = state →
      head.standing.kept ++ head.standing.wire.flatten = partBytes parts ++ rest →
      head.standing.kept.length < cfg.bufferSize → Proper head.standing.wire →
      head.standing.wire.flatten.length < fuel → Taken cfg parts body head.standing →
      ∃ last, recvChunks cfg parser fuel body head = .ok (parts.foldl Part.extend body, last) ∧
        last.state = final ∧ last.standing = parts.foldl (Standing.next cfg) head.standing := by
  induction wellFormed with
  | @last state final part accepted size some small done =>
      rintro fuel body head rfl stream room proper enough ⟨⟨more, fits⟩, takes, within, _⟩
      obtain ⟨fuel, rfl⟩ := Nat.exists_eq_succ_of_ne_zero (Nat.ne_zero_of_lt enough)
      have round := round_of_stream stream room proper fits
      obtain ⟨last, same, standing, result⟩ := @recvChunks_round _ _ cfg parser part _ head final
        fuel body accepted size some small round more
      refine ⟨last, ?_, same, standing⟩
      rw [result, if_pos takes, if_neg (Nat.not_lt.mpr within), if_pos done]
      rfl
  | @more state next final part parts accepted size some small goesOn later ih =>
      rintro fuel body head rfl stream room proper enough ⟨⟨more, fits⟩, takes, within, others⟩
      obtain ⟨fuel, rfl⟩ := Nat.exists_eq_succ_of_ne_zero (Nat.ne_zero_of_lt enough)
      have round := round_of_stream stream room proper fits
      obtain ⟨last, same, standing, result⟩ := @recvChunks_round _ _ cfg parser part _ head next
        fuel body accepted size some small round more
      obtain ⟨stream', room', proper'⟩ :=
        standing_next round (Scanner.length_pos_of_accepts accepted)
      have less : (head.standing.next cfg part).wire.flatten.length <
          head.standing.wire.flatten.length := round.length_behind_lt more
      rw [← standing] at stream' room' proper' others less
      obtain ⟨end', returned, reached, stands⟩ := ih fuel (part.extend body) last same stream'
        room' proper' (by omega) others
      refine ⟨end', ?_, reached, ?_⟩
      · rw [result, if_pos takes, if_neg (Nat.not_lt.mpr within),
          if_neg (by rw [goesOn]; exact Bool.false_ne_true), returned]
        rfl
      · rw [stands, standing, List.foldl_cons]

/-- Where the bytes after the parts are when the loop has read them. -/
theorem standing_parts {state final : σ} {parts : List Part}
    (wellFormed : Parts parser state parts final) :
    ∀ (body : List UInt8) (now : Standing),
      now.kept ++ now.wire.flatten = partBytes parts ++ rest →
      now.kept.length < cfg.bufferSize → Proper now.wire → Taken cfg parts body now →
      (parts.foldl (Standing.next cfg) now).kept ++
          (parts.foldl (Standing.next cfg) now).wire.flatten = rest ∧
        (parts.foldl (Standing.next cfg) now).kept.length < cfg.bufferSize ∧
        Proper (parts.foldl (Standing.next cfg) now).wire := by
  induction wellFormed with
  | last accepted size some small done =>
      rintro body now stream room proper ⟨⟨_, fits⟩, _⟩
      exact standing_next (round_of_stream stream room proper fits)
        (Scanner.length_pos_of_accepts accepted)
  | more accepted size some small goesOn later ih =>
      rintro body now stream room proper ⟨⟨_, fits⟩, _, _, others⟩
      obtain ⟨stream', room', proper'⟩ := standing_next
        (round_of_stream stream room proper fits) (Scanner.length_pos_of_accepts accepted)
      exact ih _ _ stream' room' proper' others

/-- **Otherwise it fails**, but over chunks never writes or reads outside its memory. -/
theorem recvChunks_error {state final : σ} {parts : List Part}
    (wellFormed : Parts parser state parts final) :
    ∀ (fuel : Nat) (body : List UInt8) (head : Parsed σ), head.state = state →
      head.standing.kept ++ head.standing.wire.flatten = partBytes parts ++ rest →
      head.standing.kept.length < cfg.bufferSize → Proper head.standing.wire →
      head.standing.wire.flatten.length < fuel → ¬ Taken cfg parts body head.standing →
      ∃ failure, recvChunks cfg parser fuel body head = .error failure ∧
        ((∀ part ∈ parts, part.taken.length ≠ 1) → failure ≠ .fault) := by
  induction wellFormed with
  | @last state final part accepted size some small done =>
      rintro fuel body head rfl stream room proper enough fails
      obtain ⟨fuel, rfl⟩ := Nat.exists_eq_succ_of_ne_zero (Nat.ne_zero_of_lt enough)
      by_cases delivered : head.wire ≠ [] ∧ part.line.length ≤ cfg.bufferSize
      · have round := round_of_stream stream room proper delivered.2
        obtain ⟨last, _, _, result⟩ := @recvChunks_round _ _ cfg parser part _ head final fuel body
          accepted size some small round delivered.1
        by_cases takes : Takes cfg part body head.standing
        · have long : cfg.maxBodySize < (part.extend body).length := by
            by_contra within
            exact fails ⟨delivered, takes, Nat.not_lt.mp within, trivial⟩
          rw [result, if_pos takes, if_pos long]
          exact ⟨.bodyTooLong, rfl, fun _ => by decide⟩
        · rw [result, if_neg takes]
          refine ⟨.fault, rfl, fun chunks => ?_⟩
          exact absurd (fun single => absurd single (chunks part List.mem_cons_self)) takes
      · obtain ⟨failure, failed, harmless⟩ := recvChunks_line accepted stream room proper delivered
        exact ⟨failure, failed, fun _ => harmless⟩
  | @more state next final part parts accepted size some small goesOn later ih =>
      rintro fuel body head rfl stream room proper enough fails
      obtain ⟨fuel, rfl⟩ := Nat.exists_eq_succ_of_ne_zero (Nat.ne_zero_of_lt enough)
      by_cases delivered : head.wire ≠ [] ∧ part.line.length ≤ cfg.bufferSize
      · have round := round_of_stream stream room proper delivered.2
        obtain ⟨last, same, standing, result⟩ := @recvChunks_round _ _ cfg parser part _ head next
          fuel body accepted size some small round delivered.1
        by_cases takes : Takes cfg part body head.standing
        · by_cases long : cfg.maxBodySize < (part.extend body).length
          · rw [result, if_pos takes, if_pos long]
            exact ⟨.bodyTooLong, rfl, fun _ => by decide⟩
          · obtain ⟨stream', room', proper'⟩ :=
              standing_next round (Scanner.length_pos_of_accepts accepted)
            have less : (head.standing.next cfg part).wire.flatten.length <
                head.standing.wire.flatten.length := round.length_behind_lt delivered.1
            rw [result, if_pos takes, if_neg long, if_neg (by rw [goesOn]; exact Bool.false_ne_true)]
            rw [← standing] at stream' room' proper' less
            obtain ⟨failure, failed, harmless⟩ := ih fuel (part.extend body) last same stream' room'
              proper' (by omega) fun others =>
                fails ⟨delivered, takes, Nat.not_lt.mp long, standing ▸ others⟩
            exact ⟨failure, failed, fun chunks =>
              harmless fun other member => chunks other (List.mem_cons_of_mem _ member)⟩
        · rw [result, if_neg takes]
          refine ⟨.fault, rfl, fun chunks => ?_⟩
          exact absurd (fun single => absurd single (chunks part List.mem_cons_self)) takes
      · obtain ⟨failure, failed, harmless⟩ := recvChunks_line accepted stream room proper delivered
        exact ⟨failure, failed, fun _ => harmless⟩

/-! ### What the loop has found -/

/-- Bytes that could be taken are there. -/
theorem length_of_takeChunk {contentLen : Int} {body : List UInt8} {line : Parsed σ}
    (proper : Proper line.wire) {result : List UInt8 × Parsed σ}
    (taken : takeChunk cfg contentLen body line = .ok result) :
    -1 ≤ contentLen ∧ contentLen + 2 < 2 ^ 31 ∧
      (contentLen + 2).toNat ≤ line.data.length - line.nparse + line.wire.flatten.length := by
  simp only [takeChunk] at taken
  split_ifs at taken with overflows enough negative
  · omega
  · refine ⟨by omega, by omega, ?_⟩
    by_contra short
    rw [fill_eq_none proper (by omega)] at taken
    cases taken

/-- The part that a line announces, in the bytes that follow the line. -/
theorem part_of_line (line : List UInt8) {count : Nat} {bytes : List UInt8}
    (there : count ≤ bytes.length) : ∃ part : Part, part.line = line ∧
      part.taken.length = count ∧ part.bytes ++ bytes.drop count = line ++ bytes := by
  refine ⟨⟨line, bytes.take count⟩, rfl, List.length_take_of_le there, ?_⟩
  show line ++ bytes.take count ++ bytes.drop count = _
  rw [List.append_assoc, List.take_append_drop]

/-- **A loop that returns has taken parts** at the beginning of what was to come. -/
theorem parts_of_recvChunks (fuel : Nat) :
    ∀ (body : List UInt8) (head : Parsed σ) (result : List UInt8 × Parsed σ), Proper head.wire →
      recvChunks cfg parser fuel body head = .ok result →
      ∃ parts rest, Parts parser head.state parts result.2.state ∧
        head.standing.kept ++ head.standing.wire.flatten = partBytes parts ++ rest := by
  induction fuel with
  | zero =>
      intro body head result _ returned
      cases returned
  | succ fuel ih =>
      intro body head result proper returned
      cases found : readAndParse parser.toScanner cfg.bufferSize (parser.reset head.state)
          (head.data.drop head.nparse) 0 head.wire with
      | error failure =>
          rw [recvChunks, found] at returned
          cases returned
      | ok line =>
          obtain ⟨bytes, rest, accepted, incoming, more, reached⟩ :=
            incoming_of_readAndParse proper found
          cases taken : takeChunk cfg (parser.contentLen line.state) body line with
          | error failure =>
              rw [recvChunks, found] at returned
              dsimp only at returned
              rw [taken] at returned
              cases returned
          | ok taking =>
              -- the bytes after the line, of which the part takes the first ones
              obtain ⟨_, properLine⟩ := readAndParse_shorter proper found
              obtain ⟨atLeast, small, there⟩ := length_of_takeChunk properLine taken
              have enough : (parser.contentLen line.state + 2).toNat ≤ rest.length := by
                have after := congrArg List.length incoming.rest_eq
                rw [← Incoming.skip_held (by rw [List.append_nil]; exact incoming.need_le_arrive),
                  List.append_nil, List.length_append, List.length_drop] at after
                rw [reached] at there ⊢
                dsimp only at there ⊢
                omega
              obtain ⟨part, isLine, isTaken, split⟩ := part_of_line bytes enough
              have stream : head.standing.kept ++ head.standing.wire.flatten = part.bytes ++
                  rest.drop (parser.contentLen line.state + 2).toNat := by
                rw [split, ← List.append_nil bytes]
                exact incoming.stream
              have round : Round cfg part (rest.drop (parser.contentLen line.state + 2).toNat)
                  head.standing :=
                ⟨stream, incoming.room, proper, isLine ▸ incoming.fits, part.line_le_bytes⟩
              have some : part.taken ≠ [] := List.length_pos_iff.mp (by omega)
              rw [← isLine] at accepted
              obtain ⟨last, same, standing, result'⟩ := @recvChunks_round _ _ cfg parser part _ head
                line.state fuel body accepted (by omega) some (by omega) round more
              rw [result'] at returned
              split_ifs at returned with takes long done
              · cases returned
                refine ⟨[part], rest.drop (parser.contentLen line.state + 2).toNat, ?_, ?_⟩
                · rw [same]
                  exact .last accepted (by omega) some (by omega) done
                · rw [stream]
                  unfold partBytes
                  rw [List.map_singleton, List.flatten_singleton]
              · have properLast : Proper last.wire := by
                  rw [show last.wire = last.standing.wire from rfl, standing]
                  exact round.proper_behind
                obtain ⟨parts, later, wellFormed, bytes'⟩ := ih _ last result properLast returned
                rw [standing, show (head.standing.next cfg part).kept ++
                  (head.standing.next cfg part).wire.flatten = _ from round.rest_eq.symm] at bytes'
                rw [same] at wellFormed
                refine ⟨part :: parts, later, .more accepted (by omega) some (by omega)
                  (Bool.eq_false_iff.mpr done) wellFormed, ?_⟩
                rw [stream, bytes', ← List.append_assoc]
                rfl

/-! ### The call -/

/-- **A head that does not fit** fills the buffer. -/
theorem recvResponse_full {head rest left : List UInt8} {state : σ}
    (accepted : parser.accepts parser.init head = some state)
    (stream : left ++ wire.flatten = head ++ rest) (room : left.length < cfg.bufferSize)
    (proper : Proper wire) (large : cfg.bufferSize < head.length) :
    recvResponse cfg parser ⟨left, wire⟩ = .error .bufferFull := by
  have full := readAndParse_full accepted (Nat.zero_le _) room proper (by omega) stream
  unfold recvResponse
  rw [restoreLeft_of_le (Nat.le_of_lt room), full]

/-- What the call takes for a chunked response: a head that the parser accepts as one, and parts that
the loop takes for chunks. -/
structure PartedReply (parser : ResponseParser σ ρ) where
  head : List UInt8
  parts : List Part
  state : σ
  final : σ
  accepted : parser.accepts parser.init head = some state
  chunked : parser.chunked state = true
  framed : Parts parser state parts final

namespace PartedReply

variable {left : List UInt8} (reply : PartedReply parser)

/-- The bytes of the response on the wire. -/
def bytes : List UInt8 := reply.head ++ partBytes reply.parts

/-- The body the receiver is to return. -/
def body : List UInt8 := reply.parts.foldl Part.extend []

/-- The response the receiver is to return. -/
def response : HttpResponse ρ := parser.response reply.final reply.body

/-- No part takes a single byte, which only the size -1 makes it do. -/
def WellFormed : Prop := ∀ part ∈ reply.parts, part.taken.length ≠ 1

/-- The standing when the head has been read. -/
def headRead (cfg : Config) (left : List UInt8) (wire : List (List UInt8)) : Standing :=
  (Standing.mk [] left wire).pass cfg reply.head.length reply.head.length

/-- The standing when the response has been read. -/
def allRead (cfg : Config) (left : List UInt8) (wire : List (List UInt8)) : Standing :=
  reply.parts.foldl (Standing.next cfg) (reply.headRead cfg left wire)

/-- **The response is returned**: the head is delivered and fits the buffer, and every part is taken. -/
def Returned (cfg : Config) (left : List UInt8) (wire : List (List UInt8)) : Prop :=
  wire ≠ [] ∧ reply.head.length ≤ cfg.bufferSize ∧
    Taken cfg reply.parts [] (reply.headRead cfg left wire)

variable {reply}

theorem bytes_append (rest : List UInt8) :
    reply.bytes ++ rest = reply.head ++ (partBytes reply.parts ++ rest) :=
  List.append_assoc _ _ _

theorem incoming_of_stream (stream : left ++ wire.flatten = reply.bytes ++ rest)
    (room : left.length < cfg.bufferSize) (proper : Proper wire)
    (fits : reply.head.length ≤ cfg.bufferSize) :
    Incoming cfg.bufferSize reply.head.length reply.head (partBytes reply.parts ++ rest) left
      wire := by
  refine ⟨?_, room, proper, fits, Nat.le_refl _⟩
  rw [stream, bytes_append]

/-- The loop of the head, when the head is delivered. -/
theorem head_found (incoming : Incoming cfg.bufferSize reply.head.length reply.head
      (partBytes reply.parts ++ rest) left wire) (more : wire ≠ []) :
    ∃ head : Parsed σ, readAndParse parser.toScanner cfg.bufferSize parser.init
        (restoreLeft cfg left) 0 wire = .ok head ∧
      head.state = reply.state ∧ head.standing = reply.headRead cfg left wire := by
  have message : Incoming cfg.bufferSize reply.head.length (reply.head ++ [])
      (partBytes reply.parts ++ rest) left wire := by
    rw [List.append_nil]
    exact incoming
  rw [restoreLeft_of_le (Nat.le_of_lt incoming.room)]
  refine ⟨_, readAndParse_incoming reply.accepted message more, rfl, ?_⟩
  show Standing.mk _ _ _ = Standing.mk _ _ _
  rw [Incoming.skip_held incoming.need_le_arrive]
  rfl

/-- Behind the head the parts are ahead, on a wire in order and with room in the buffer. -/
theorem parts_ahead (stream : left ++ wire.flatten = reply.bytes ++ rest)
    (room : left.length < cfg.bufferSize) (proper : Proper wire) (more : wire ≠ [])
    (fits : reply.head.length ≤ cfg.bufferSize) :
    ∃ head : Parsed σ, readAndParse parser.toScanner cfg.bufferSize parser.init
        (restoreLeft cfg left) 0 wire = .ok head ∧
      head.state = reply.state ∧ head.standing = reply.headRead cfg left wire ∧
      head.standing.kept ++ head.standing.wire.flatten = partBytes reply.parts ++ rest ∧
      head.standing.kept.length < cfg.bufferSize ∧ Proper head.standing.wire := by
  have incoming := incoming_of_stream stream room proper fits
  obtain ⟨head, found, same, standing⟩ := head_found incoming more
  refine ⟨head, found, same, standing, ?_⟩
  rw [standing]
  exact ⟨incoming.rest_eq.symm, incoming.room_beyond (Scanner.length_pos_of_accepts reply.accepted),
    incoming.proper_behind⟩

/-- **A chunked response that is taken is returned**, and the call saves the left-over that the loop
over the chunks ends with. -/
theorem recvResponse_parted (stream : left ++ wire.flatten = reply.bytes ++ rest)
    (room : left.length < cfg.bufferSize) (proper : Proper wire)
    (returned : reply.Returned cfg left wire) :
    recvResponse cfg parser ⟨left, wire⟩ = .ok (reply.response,
      ⟨(reply.allRead cfg left wire).saved, (reply.allRead cfg left wire).wire⟩) := by
  obtain ⟨more, fits, taken⟩ := returned
  obtain ⟨head, found, same, standing, after, beyond, properAfter⟩ :=
    parts_ahead stream room proper more fits
  rw [← standing] at taken
  obtain ⟨last, result, reached, stands⟩ := recvChunks_ok reply.framed
    (head.wire.flatten.length + 1) [] head same after beyond properAfter (Nat.lt_succ_self _) taken
  have saved : last.standing = reply.allRead cfg left wire := by
    rw [stands, standing]
    rfl
  unfold recvResponse
  rw [found]
  dsimp only
  rw [same, reply.chunked, if_pos rfl, result, ← saved]
  dsimp only
  rw [reached]
  rfl

/-- **Otherwise the call fails**, and over chunks without a write or a read outside its memory. -/
theorem recvResponse_parted_error (stream : left ++ wire.flatten = reply.bytes ++ rest)
    (room : left.length < cfg.bufferSize) (proper : Proper wire)
    (fails : ¬ reply.Returned cfg left wire) :
    ∃ failure, recvResponse cfg parser ⟨left, wire⟩ = .error failure ∧
      (reply.WellFormed → failure ≠ .fault) := by
  by_cases more : wire = []
  · subst more
    exact ⟨.closed, rfl, fun _ => by decide⟩
  · by_cases fits : reply.head.length ≤ cfg.bufferSize
    · obtain ⟨head, found, same, standing, after, beyond, properAfter⟩ :=
        parts_ahead stream room proper more fits
      have refused : ¬ Taken cfg reply.parts [] head.standing := fun taken =>
        fails ⟨more, fits, standing ▸ taken⟩
      obtain ⟨failure, result, harmless⟩ := recvChunks_error reply.framed
        (head.wire.flatten.length + 1) [] head same after beyond properAfter (Nat.lt_succ_self _)
        refused
      refine ⟨failure, ?_, harmless⟩
      unfold recvResponse
      rw [found]
      dsimp only
      rw [same, reply.chunked, if_pos rfl, result]
    · rw [bytes_append] at stream
      exact ⟨.bufferFull, recvResponse_full reply.accepted stream room proper (Nat.lt_of_not_le fits),
        fun _ => by decide⟩

/-- Where the bytes after a returned response are. -/
theorem allRead_rest (stream : left ++ wire.flatten = reply.bytes ++ rest)
    (room : left.length < cfg.bufferSize) (proper : Proper wire)
    (returned : reply.Returned cfg left wire) :
    (reply.allRead cfg left wire).kept ++ (reply.allRead cfg left wire).wire.flatten = rest ∧
      (reply.allRead cfg left wire).kept.length < cfg.bufferSize ∧
      Proper (reply.allRead cfg left wire).wire := by
  obtain ⟨_, fits, taken⟩ := returned
  have incoming := incoming_of_stream stream room proper fits
  exact standing_parts reply.framed [] _ incoming.rest_eq.symm
    (incoming.room_beyond (Scanner.length_pos_of_accepts reply.accepted)) incoming.proper_behind
    taken

end PartedReply

/-! ### Chunks -/

/-- A chunk is two bytes longer than its data. -/
theorem Chunk.length_taken (chunk : Chunk) : chunk.part.taken.length = chunk.data.length + 2 := by
  show (chunk.data ++ chunk.ending).length = _
  rw [List.length_append, chunk.ended]

/-- A chunk gives the body its data. -/
theorem Chunk.extend_part (chunk : Chunk) (body : List UInt8) :
    chunk.part.extend body = body ++ chunk.data := by
  show dropEnding (body ++ (chunk.data ++ chunk.ending)) = _
  rw [← List.append_assoc]
  exact dropEnding_append _ chunk.ended

/-- The loop takes chunks for what they are. -/
theorem Chunks.parts {state final : σ} {chunks : List Chunk}
    (wellFormed : Chunks parser state chunks final) :
    Parts parser state (chunks.map Chunk.part) final := by
  induction wellFormed with
  | @last _ _ chunk accepted size small done =>
      have length := chunk.length_taken
      exact .last accepted (by omega) (List.length_pos_iff.mp (by omega)) (by omega) done
  | @more _ _ _ chunk _ accepted size small goesOn _ ih =>
      have length := chunk.length_taken
      exact .more accepted (by omega) (List.length_pos_iff.mp (by omega)) (by omega) goesOn ih

/-- The body that chunks are put together to. -/
theorem foldl_extend_chunks (chunks : List Chunk) : ∀ body : List UInt8,
    (chunks.map Chunk.part).foldl Part.extend body = body ++ chunkData chunks := by
  induction chunks with
  | nil => exact fun body => (List.append_nil body).symm
  | cons chunk chunks ih =>
      intro body
      rw [List.map_cons, List.foldl_cons, ih, chunk.extend_part, List.append_assoc]
      rfl

/-- **Chunks are taken** when they are delivered, and the body they make is within the limit. -/
theorem taken_chunks (chunks : List Chunk) : ∀ (body : List UInt8) (now : Standing),
    (body ++ chunkData chunks).length ≤ cfg.maxBodySize →
      (Taken cfg (chunks.map Chunk.part) body now ↔ Delivered cfg (chunks.map Chunk.part) now) := by
  induction chunks with
  | nil => exact fun _ _ _ => Iff.rfl
  | cons chunk chunks ih =>
      intro body now limit
      have whole : body ++ chunkData (chunk :: chunks) =
          chunk.part.extend body ++ chunkData chunks := by
        rw [chunk.extend_part, List.append_assoc]
        rfl
      have takes : Takes cfg chunk.part body now := fun single => by
        have length := chunk.length_taken
        omega
      rw [whole] at limit
      have within : (chunk.part.extend body).length ≤ cfg.maxBodySize := by
        rw [List.length_append] at limit
        omega
      have later := ih (chunk.part.extend body) (now.next cfg chunk.part) limit
      constructor
      · rintro ⟨⟨more, fits⟩, _, _, others⟩
        exact ⟨more, fits, later.mp others⟩
      · rintro ⟨more, fits, others⟩
        exact ⟨⟨more, fits⟩, takes, within, later.mpr others⟩

/-- A well-formed chunked response: a head that the parser accepts as such, and chunks. -/
structure ChunkedReply (parser : ResponseParser σ ρ) where
  head : List UInt8
  chunks : List Chunk
  state : σ
  final : σ
  accepted : parser.accepts parser.init head = some state
  chunked : parser.chunked state = true
  framed : Chunks parser state chunks final

namespace ChunkedReply

variable (reply : ChunkedReply parser)

/-- The response as the call takes it. -/
def parted : PartedReply parser where
  head := reply.head
  parts := reply.chunks.map Chunk.part
  state := reply.state
  final := reply.final
  accepted := reply.accepted
  chunked := reply.chunked
  framed := reply.framed.parts

/-- The bytes of the response on the wire. -/
def bytes : List UInt8 := reply.head ++ chunkBytes reply.chunks

/-- The body the receiver is to return. -/
def body : List UInt8 := chunkData reply.chunks

variable {reply}

theorem bytes_parted : reply.parted.bytes = reply.bytes := by
  unfold PartedReply.bytes partBytes bytes chunkBytes
  rw [show reply.parted.parts = reply.chunks.map Chunk.part from rfl, List.map_map]
  rfl

theorem body_parted : reply.parted.body = reply.body := foldl_extend_chunks reply.chunks []

/-- Chunks are never a single byte. -/
theorem wellFormed_parted : reply.parted.WellFormed := by
  intro part member
  obtain ⟨chunk, _, rfl⟩ := List.mem_map.mp member
  have length := chunk.length_taken
  omega

end ChunkedReply

/-! ### Chunks that arrive one by one -/

/-- Parts in segments of their own are delivered, when nothing is held before the first one. -/
theorem delivered_of_own (parts : List (Part × List (List UInt8))) :
    ∀ (saved : List UInt8), (∀ item ∈ parts, item.2.flatten = item.1.bytes ∧ Proper item.2) →
      (∀ item ∈ parts, 0 < item.1.line.length ∧ item.1.line.length ≤ cfg.bufferSize) →
      Delivered cfg (parts.map Prod.fst) ⟨saved, [], (parts.map Prod.snd).flatten⟩ := by
  induction parts with
  | nil => exact fun _ _ _ => trivial
  | cons item later ih =>
      intro saved own lines
      obtain ⟨part, wire⟩ := item
      obtain ⟨⟨bytes, proper⟩, ownLater⟩ := List.forall_mem_cons.mp own
      obtain ⟨⟨pos, fits⟩, linesLater⟩ := List.forall_mem_cons.mp lines
      dsimp only at bytes proper pos fits
      have properLater : Proper (later.map Prod.snd).flatten :=
        proper_flatten fun item among => (ownLater item among).2
      have round : Round cfg part (later.map Prod.snd).flatten.flatten
          ⟨saved, [], wire ++ (later.map Prod.snd).flatten⟩ := by
        refine ⟨?_, cfg.bufferSize_pos, List.forall_mem_append.mpr ⟨proper, properLater⟩, fits,
          part.line_le_bytes⟩
        rw [List.nil_append, List.flatten_append, bytes]
      have beyond := round.nothing_beyond (arrive_own bytes pos part.line_le_bytes)
      have rest := @behind_own _ cfg.bufferSize part.line.length _ _ _ bytes properLater pos
        part.line_le_bytes
      have some := own_ne_nil bytes (Nat.lt_of_lt_of_le pos part.line_le_bytes)
      refine ⟨List.append_ne_nil_of_left_ne_nil some _, fits, ?_⟩
      show Delivered cfg (later.map Prod.fst) ⟨_, held cfg.bufferSize part.line.length []
        (wire ++ (later.map Prod.snd).flatten) |>.drop part.bytes.length,
        behind cfg.bufferSize part.line.length part.bytes.length []
          (wire ++ (later.map Prod.snd).flatten)⟩
      rw [beyond, rest]
      exact ih _ ownLater linesLater

/-- **A response whose parts arrive one by one is delivered**: when no segment holds bytes of two of
its parts, the head and the chunks, some byte of every chunk is still unread when its turn comes. -/
theorem delivered_of_separate (reply : PartedReply parser) (own : List (List UInt8))
    (head : own.flatten = reply.head ∧ Proper own) (parts : List (Part × List (List UInt8)))
    (same : parts.map Prod.fst = reply.parts)
    (each : ∀ item ∈ parts, item.2.flatten = item.1.bytes ∧ Proper item.2)
    (lines : ∀ item ∈ parts, 0 < item.1.line.length ∧ item.1.line.length ≤ cfg.bufferSize)
    (fits : reply.head.length ≤ cfg.bufferSize) :
    Delivered cfg reply.parts
      (reply.headRead cfg [] (own ++ (parts.map Prod.snd).flatten)) := by
  have pos := Scanner.length_pos_of_accepts reply.accepted
  have proper : Proper (parts.map Prod.snd).flatten :=
    proper_flatten fun item among => (each item among).2
  have incoming : Incoming cfg.bufferSize reply.head.length reply.head
      (parts.map Prod.snd).flatten.flatten [] (own ++ (parts.map Prod.snd).flatten) := by
    refine ⟨?_, cfg.bufferSize_pos, List.forall_mem_append.mpr ⟨head.2, proper⟩, fits,
      Nat.le_refl _⟩
    rw [List.nil_append, List.flatten_append, head.1]
  have beyond := incoming.nothing_beyond (arrive_own head.1 pos (Nat.le_refl _))
  have rest := @behind_own _ cfg.bufferSize reply.head.length _ _ _ head.1 proper pos
    (Nat.le_refl _)
  rw [← same]
  show Delivered cfg (parts.map Prod.fst) ⟨_, (held cfg.bufferSize reply.head.length []
    (own ++ (parts.map Prod.snd).flatten)).drop reply.head.length,
    behind cfg.bufferSize reply.head.length reply.head.length []
      (own ++ (parts.map Prod.snd).flatten)⟩
  rw [beyond, rest]
  exact delivered_of_own parts _ each lines

/-! ### A chunked response on a new connection -/

/-- **A chunked response on a new connection** is returned exactly when its head fits the buffer and
its chunks are delivered. -/
theorem chunked_response_iff (reply : ChunkedReply parser) (wire : List (List UInt8))
    (proper : Proper wire) (bytes : wire.flatten = reply.bytes)
    (limit : reply.body.length ≤ cfg.maxBodySize) :
    (∃ response next, recvResponse cfg parser ⟨[], wire⟩ = .ok (response, next) ∧
      response.body = reply.body) ↔
    reply.head.length ≤ cfg.bufferSize ∧
      Delivered cfg reply.parted.parts (reply.parted.headRead cfg [] wire) := by
  have stream : [] ++ wire.flatten = reply.parted.bytes ++ [] := by
    rw [List.nil_append, List.append_nil, ChunkedReply.bytes_parted, bytes]
  have more : wire ≠ [] := by
    rintro rfl
    have pos := Scanner.length_pos_of_accepts reply.accepted
    have none := congrArg List.length bytes
    rw [ChunkedReply.bytes, List.flatten_nil, List.length_nil, List.length_append] at none
    omega
  have taken := @taken_chunks cfg reply.chunks [] (reply.parted.headRead cfg [] wire) limit
  constructor
  · rintro ⟨response, next, returned, _⟩
    by_contra fails
    have refused : ¬ reply.parted.Returned cfg [] wire := fun all =>
      fails ⟨all.2.1, taken.mp all.2.2⟩
    obtain ⟨failure, failed, _⟩ :=
      PartedReply.recvResponse_parted_error stream cfg.bufferSize_pos proper refused
    rw [returned] at failed
    cases failed
  · rintro ⟨fits, delivered⟩
    exact ⟨_, _, PartedReply.recvResponse_parted stream cfg.bufferSize_pos proper
      ⟨more, fits, taken.mpr delivered⟩, ChunkedReply.body_parted⟩

/-- The line parser's state after a head and after a size line. -/
def headState (lines : List String) : LineParser.State :=
  { LineParser.init with mode := .head }.endedHead (lines.map ascii)

def sizeState (lines : List String) (size : Int) : LineParser.State :=
  { LineParser.init with
    lines := lines.map ascii, mode := .size, complete := true, chunked := true, contentLen := size,
    chunksDone := size ≤ 0 }

/-- The lines of the head of a chunked response. -/
def chunkedHead : List String :=
  ["HTTP/1.1 200 OK", "Transfer-Encoding: chunked", "Connection: keep-alive"]

/-- A chunk of five bytes, and the last chunk. -/
def fiveChunk : Chunk := ⟨ascii "5\r\n", ascii "hello", [13, 10], rfl⟩

def zeroChunk : Chunk := ⟨ascii "0\r\n", [], [13, 10], rfl⟩

/-- The response "hello" in one chunk. -/
def hello : ChunkedReply LineParser.response where
  head := LineParser.encode (chunkedHead.map ascii)
  chunks := [fiveChunk, zeroChunk]
  state := headState chunkedHead
  final := sizeState chunkedHead 0
  accepted := by decide +kernel
  chunked := by decide +kernel
  framed :=
    .more (show _ = some (sizeState chunkedHead 5) by decide +kernel) (by decide +kernel)
      (by decide +kernel) (by decide)
      (.last (show _ = some (sizeState chunkedHead 0) by decide +kernel) (by decide) (by decide)
        (by decide))

/-- The response in nine segments, cut inside each of its parts. -/
def helloCut : List (List UInt8) :=
  [hello.head.take 9, hello.head.drop 9, ascii "5", ascii "\r\nhe", ascii "llo\r", ascii "\n",
    ascii "0\r", ascii "\n\r", ascii "\n"]

theorem chunked_response_cut : ∃ response next,
    recvResponse defaultConfig LineParser.response ⟨[], helloCut⟩ = .ok (response, next) ∧
      response.body = hello.body :=
  (chunked_response_iff hello helloCut (by decide +kernel) (by decide +kernel)
    (by decide +kernel)).mpr ⟨by decide +kernel,
      delivered_of_separate hello.parted [hello.head.take 9, hello.head.drop 9] (by decide +kernel)
        [(fiveChunk.part, [ascii "5", ascii "\r\nhe", ascii "llo\r", ascii "\n"]),
          (zeroChunk.part, [ascii "0\r", ascii "\n\r", ascii "\n"])]
        rfl (by decide +kernel) (by decide +kernel) (by decide +kernel)⟩

/-- **The whole response in one read is not received**: the loop holds all of it, reads once more, and
finds the socket at its end. -/
theorem whole_response_refused :
    Proper [hello.bytes] ∧ [hello.bytes].flatten = hello.bytes ∧
      hello.body.length ≤ defaultConfig.maxBodySize ∧
      recvResponse defaultConfig LineParser.response ⟨[], [hello.bytes]⟩ = .error .closed := by
  decide +kernel

end Wyze.Http
