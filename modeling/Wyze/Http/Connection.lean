/-
**`HttpConnection::recvResponse`: responses from one connection.**

A call reads a head. When the response is chunked it then reads chunk after chunk: it moves what it
has kept to the front of the buffer, starts the parser again for the chunk-size line, and takes the
data from the buffer or from the socket. Otherwise it reads a body of `content-length` bytes. What
its reads have delivered beyond the response is saved for the next call.

* `recvChunks_fuel`: the loop over the chunks ends, since each of its rounds reads at least one byte.
-/
import Wyze.Http.Parser

namespace Wyze.Http

open Segments

/-- `HttpResponse`: what the parser has set, the body and the close flag. -/
structure HttpResponse (ρ : Type*) where
  head : ρ
  body : List UInt8
  close : Bool
  deriving DecidableEq, Repr

/-- `HttpConnection`: `left_data[0..left_size)` and the segments that arrive on the socket. -/
structure HttpConnection where
  left : List UInt8
  wire : List (List UInt8)
  deriving DecidableEq, Repr

variable {σ ρ : Type*} (cfg : Config) (parser : ResponseParser σ ρ)

/-- The response with a body, as the parser stands. -/
def ResponseParser.response (state : σ) (body : List UInt8) : HttpResponse ρ :=
  ⟨parser.getData state, body, isClose (parser.connection state)⟩

/-! ### Chunked responses -/

/-- `body.resize(body.size() - 2)`: the end of the line after the data of a chunk is taken off. -/
def dropEnding (body : List UInt8) : List UInt8 := body.take (body.length - 2)

/-- The data of a chunk and the end of its line, after its size line. The sum `content_len + 2` of
`int`s may overflow, which is undefined; an `append` of a negative size throws, and so does a
`resize` to one. -/
def takeChunk (contentLen : Int) (body : List UInt8) (line : Parsed σ) :
    Except Failure (List UInt8 × Parsed σ) :=
  let present := line.data.length - line.nparse
  if 2 ^ 31 ≤ contentLen + 2 then .error .fault
  else if contentLen + 2 ≤ present then
    if contentLen < 0 then .error .fault
    else .ok (body ++ (line.data.drop line.nparse).take contentLen.toNat,
      ⟨line.state, line.data, line.nparse + (contentLen.toNat + 2), line.wire⟩)
  else
    -- `left` bytes more, at most a buffer full at a time; then `offset = nparse = 0`
    let left := (contentLen + 2 - present).toNat
    match fill cfg.bufferSize left left line.wire with
    | none => .error .closed
    | some (more, wire) =>
      let whole := body ++ line.data.drop line.nparse ++ more
      if whole.length < 2 then .error .fault else .ok (dropEnding whole, ⟨line.state, [], 0, wire⟩)

/-- The loop over the chunks. `reset` moves the unparsed bytes to the front of the buffer. -/
def recvChunks : Nat → List UInt8 → Parsed σ → Except Failure (List UInt8 × Parsed σ)
  | 0, _, _ => .error .closed
  | fuel + 1, body, head =>
    match readAndParse parser.toScanner cfg.bufferSize (parser.reset head.state)
        (head.data.drop head.nparse) 0 head.wire with
    | .error failure => .error failure
    | .ok line =>
      match takeChunk cfg (parser.contentLen line.state) body line with
      | .error failure => .error failure
      | .ok (body, last) =>
        if cfg.maxBodySize < body.length then .error .bodyTooLong
        else if parser.chunksDone last.state then .ok (body, last)
        else recvChunks fuel body last

/-! ### Responses with a length -/

/-- The branch of `recvResponse` without chunks. When part of the body is missing, `offset` bytes are
copied from `data + nparse` to `body`, not the `offset - nparse` that are there: more than the body
has room for is a write outside it, more than the buffer holds a read outside it; the rest of what is
copied too much, `readFixSize` overwrites. -/
def recvSized (left : List UInt8) (head : Parsed σ) (length : Int)
    (response : List UInt8 → HttpResponse ρ) :
    Except Failure (HttpResponse ρ × HttpConnection) :=
  if toInt64 cfg.maxBodySize < length then .error .bodyTooLong
  else if 0 < length then
    if head.data.length < length.toNat + head.nparse then
      if length.toNat < head.data.length ∨ cfg.bufferSize + 1 < head.nparse + head.data.length then
        .error .fault
      else
        match readFixSize (length.toNat + head.nparse - head.data.length) head.wire with
        | none => .error .closed
        | some (more, wire) => .ok (response (head.data.drop head.nparse ++ more), ⟨left, wire⟩)
    else
      .ok (response ((head.data.drop head.nparse).take length.toNat),
        ⟨saveLeftData head.data head.data.length (head.nparse + length.toNat), head.wire⟩)
  else .ok (response [], ⟨saveLeftData head.data head.data.length head.nparse, head.wire⟩)

/-! ### The call -/

/-- `HttpConnection::recvResponse`. -/
def recvResponse (connection : HttpConnection) :
    Except Failure (HttpResponse ρ × HttpConnection) :=
  match readAndParse parser.toScanner cfg.bufferSize parser.init (restoreLeft cfg connection.left) 0
      connection.wire with
  | .error failure => .error failure
  | .ok head =>
    if parser.chunked head.state then
      match recvChunks cfg parser (head.wire.flatten.length + 1) [] head with
      | .error failure => .error failure
      | .ok (body, last) =>
        .ok (parser.response last.state body,
          ⟨saveLeftData last.data last.data.length last.nparse, last.wire⟩)
    else recvSized cfg connection.left head (toInt64 (parser.getContentLength head.state))
      (parser.response head.state)

/-! ### The loop over the chunks ends -/

variable {cfg parser}

/-- Taking the data of a chunk puts nothing back on the socket. -/
theorem takeChunk_le {contentLen : Int} {body : List UInt8} {line : Parsed σ}
    (proper : Proper line.wire) {result : List UInt8 × Parsed σ}
    (taken : takeChunk cfg contentLen body line = .ok result) :
    result.2.wire.flatten.length ≤ line.wire.flatten.length ∧ Proper result.2.wire := by
  simp only [takeChunk] at taken
  split_ifs at taken with overflows enough negative
  · cases taken
    exact ⟨Nat.le_refl _, proper⟩
  · cases filled : fill cfg.bufferSize (contentLen + 2 - (line.data.length - line.nparse : Nat)).toNat
        (contentLen + 2 - (line.data.length - line.nparse : Nat)).toNat line.wire with
    | none =>
        rw [filled] at taken
        cases taken
    | some more =>
        obtain ⟨_, rest⟩ := eq_of_fill cfg.bufferSize_pos (Nat.le_refl _) proper filled
        rw [filled] at taken
        dsimp only at taken
        split_ifs at taken
        cases taken
        dsimp only
        rw [rest]
        refine ⟨?_, proper_skip proper _⟩
        rw [flatten_skip, List.length_drop]
        exact Nat.sub_le _ _

/-- **The fuel is enough**: with more than one unit for each unread byte the loop does the same with
any amount of fuel, since every round reads a byte. -/
theorem recvChunks_fuel (fuel : Nat) :
    ∀ (other : Nat) (body : List UInt8) (head : Parsed σ), Proper head.wire →
      head.wire.flatten.length < fuel → head.wire.flatten.length < other →
      recvChunks cfg parser fuel body head = recvChunks cfg parser other body head := by
  induction fuel with
  | zero => exact fun _ _ _ _ absurd => (Nat.not_lt_zero _ absurd).elim
  | succ fuel ih =>
      intro other body head proper enough enough'
      obtain ⟨other, rfl⟩ := Nat.exists_eq_succ_of_ne_zero (Nat.ne_zero_of_lt enough')
      rw [recvChunks, recvChunks]
      cases found : readAndParse parser.toScanner cfg.bufferSize (parser.reset head.state)
          (head.data.drop head.nparse) 0 head.wire with
      | error failure => rfl
      | ok line =>
          obtain ⟨shorter, properLine⟩ := readAndParse_shorter proper found
          dsimp only
          cases taken : takeChunk cfg (parser.contentLen line.state) body line with
          | error failure => rfl
          | ok result =>
              obtain ⟨body', last⟩ := result
              obtain ⟨less, properLast⟩ := takeChunk_le properLine taken
              dsimp only at less properLast ⊢
              rw [ih other body' last properLast (by omega) (by omega)]

end Wyze.Http
