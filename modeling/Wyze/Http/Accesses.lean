/-
**The copies of `HttpConnection::recvResponse` for a response with a length.**

After the head, `offset` bytes are in the buffer and `nparse` of them are parsed. The branch without
chunks makes a body of `length` bytes and fills it from the buffer, and from the socket if part of it
is missing. `sizedAccesses` lists the `memcpy`s and reads of that branch with the bounds they have to
keep: a `memcpy` is to take bytes that were received, and no access is to go beyond the memory it
writes to.

* `fault_of_recvSized`: the faults of `recvSized` are accesses that do not keep their bounds.
* `bodyAccesses_inside`: the accesses of `HttpSession::recvRequest`, which does the same for a request,
  keep theirs.
* `sized_body_iff`: **the body is returned and all accesses keep their bounds exactly when no part of
  the body is missing in the buffer**; `copied_beyond` is a body of which a byte is missing.
-/
import Wyze.Http.KeepAlive

namespace Wyze.Http

open Segments

/-- An access to memory of `count` bytes: a `memcpy` from position `src` of a buffer with `received`
bytes to position `dst` of a memory with `room` for so many; an `append` from such a buffer; a read
from the socket to a memory; the removal of the end of a string. -/
inductive Access where
  | copy (src received dst room count : Nat)
  | append (src received count : Nat)
  | read (dst room count : Nat)
  | cut (size count : Nat)
  deriving DecidableEq, Repr

/-- The access takes only what was received and stays in its memory. -/
def Access.Inside : Access → Prop
  | copy src received dst room count => src + count ≤ received ∧ dst + count ≤ room
  | append src received count => src + count ≤ received
  | read dst room count => dst + count ≤ room
  | cut size count => count ≤ size

instance : (access : Access) → Decidable access.Inside
  | .copy src received dst room count =>
    inferInstanceAs (Decidable (src + count ≤ received ∧ dst + count ≤ room))
  | .append src received count => inferInstanceAs (Decidable (src + count ≤ received))
  | .read dst room count => inferInstanceAs (Decidable (dst + count ≤ room))
  | .cut size count => inferInstanceAs (Decidable (count ≤ size))

variable {σ ρ : Type*}

section

variable (cfg : Config)

/-- The copy of `saveLeftData(data, len, nparse)`. -/
def saveAccess (len nparse : Nat) : Access := .copy 0 len 0 cfg.bufferSize (len - nparse)

/-- The accesses of `recvResponse` without chunks, after the head. The first `memcpy` copies `offset`
bytes; of these `offset - nparse` belong to the body. -/
def sizedAccesses (offset nparse : Nat) (length : Int) : List Access :=
  if toInt64 cfg.maxBodySize < length then []
  else if 0 < length then
    if offset < length.toNat + nparse then
      [.copy nparse offset 0 length.toNat offset,
        .read (offset - nparse) length.toNat (length.toNat + nparse - offset)]
    else
      [.copy nparse offset 0 length.toNat length.toNat,
        saveAccess cfg offset (nparse + length.toNat)]
  else [saveAccess cfg offset nparse]

/-- The accesses of `HttpSession::recvRequest` after the head, which counts `copy_len` bytes. -/
def bodyAccesses (offset nparse : Nat) (length : Int) : List Access :=
  if toInt64 cfg.maxBodySize < length then []
  else if 0 < length then
    if offset < length.toNat + nparse then
      [.copy nparse offset 0 length.toNat (offset - nparse),
        .read (offset - nparse) length.toNat (length.toNat - (offset - nparse))]
    else
      .copy nparse offset 0 length.toNat length.toNat ::
        if length.toNat + nparse ≠ offset then [saveAccess cfg offset (nparse + length.toNat)] else []
  else [saveAccess cfg offset nparse]

/-- The accesses of a call for a response with a length, after its head. -/
def responseAccesses (parser : ResponseParser σ ρ) (connection : HttpConnection) : List Access :=
  match readAndParse parser.toScanner cfg.bufferSize parser.init (restoreLeft cfg connection.left) 0
      connection.wire with
  | .error _ => []
  | .ok head =>
    if parser.chunked head.state then []
    else sizedAccesses cfg head.data.length head.nparse
      (toInt64 (parser.getContentLength head.state))

end

variable {cfg : Config} {parser : ResponseParser σ ρ}

/-- **A fault of the branch** is an access that does not keep its bounds. -/
theorem fault_of_recvSized {left : List UInt8} {head : Parsed σ} {length : Int}
    {response : List UInt8 → HttpResponse ρ} (held : head.data.length ≤ cfg.bufferSize)
    (fault : recvSized cfg left head length response = .error .fault) :
    ∃ access ∈ sizedAccesses cfg head.data.length head.nparse length, ¬ access.Inside := by
  rw [recvSized] at fault
  split_ifs at fault with long positive short beyond
  · cases fault
  · refine ⟨.copy head.nparse head.data.length 0 length.toNat head.data.length, ?_, ?_⟩
    · rw [sizedAccesses, if_neg long, if_pos positive, if_pos short]
      exact List.mem_cons_self
    · rw [Access.Inside]
      omega
  · split at fault <;> cases fault

/-- The copy of a left-over stays in the buffer. -/
theorem saveAccess_inside {len nparse : Nat} (held : len ≤ cfg.bufferSize) :
    (saveAccess cfg len nparse).Inside := by
  rw [saveAccess, Access.Inside]
  omega

/-- **The accesses of the branch**: they keep their bounds unless part of a body is missing. -/
theorem sizedAccesses_inside {offset nparse : Nat} {length : Int} (parsed : 0 < nparse)
    (held : offset ≤ cfg.bufferSize) (within : length ≤ toInt64 cfg.maxBodySize) :
    (∀ access ∈ sizedAccesses cfg offset nparse length, access.Inside) ↔
      length ≤ 0 ∨ length.toNat + nparse ≤ offset := by
  rw [sizedAccesses, if_neg (by omega)]
  by_cases positive : 0 < length
  · rw [if_pos positive]
    by_cases short : offset < length.toNat + nparse
    · rw [if_pos short]
      refine iff_of_false (fun inside => ?_) (by omega)
      have copied := inside _ List.mem_cons_self
      rw [Access.Inside] at copied
      omega
    · rw [if_neg short]
      refine iff_of_true ?_ (Or.inr (Nat.le_of_not_lt short))
      rw [List.forall_mem_cons, List.forall_mem_singleton, Access.Inside]
      exact ⟨by omega, saveAccess_inside held⟩
  · rw [if_neg positive, List.forall_mem_singleton]
    exact iff_of_true (saveAccess_inside held) (Or.inl (Int.not_lt.mp positive))

/-- **The sibling keeps the bounds**, whatever part of a body is missing. -/
theorem bodyAccesses_inside {offset nparse : Nat} {length : Int} (found : nparse ≤ offset)
    (held : offset ≤ cfg.bufferSize) :
    ∀ access ∈ bodyAccesses cfg offset nparse length, access.Inside := by
  rw [bodyAccesses]
  split_ifs with long positive short more
  · exact List.forall_mem_nil _
  · rw [List.forall_mem_cons, List.forall_mem_singleton, Access.Inside, Access.Inside]
    omega
  · rw [List.forall_mem_cons, List.forall_mem_singleton, Access.Inside]
    exact ⟨by omega, saveAccess_inside held⟩
  · rw [List.forall_mem_singleton, Access.Inside]
    omega
  · rw [List.forall_mem_singleton]
    exact saveAccess_inside held

namespace SizedReply

variable (reply : SizedReply parser) {left rest : List UInt8} {wire : List (List UInt8)}

/-- The accesses of a call whose head is delivered. -/
theorem responseAccesses_eq {reply : SizedReply parser} (incoming : Incoming cfg.bufferSize
      reply.head.length reply.bytes rest left wire) (more : wire ≠ []) :
    responseAccesses cfg parser ⟨left, wire⟩ = sizedAccesses cfg (reply.got cfg left wire)
      reply.head.length (toInt64 (parser.getContentLength reply.state)) := by
  rw [responseAccesses, restoreLeft_of_le (Nat.le_of_lt incoming.room),
    readAndParse_incoming reply.accepted incoming more]
  dsimp only
  rw [reply.plain, if_neg Bool.false_ne_true, incoming.length_held]
  rfl

/-- **The body is returned, and every access keeps its bounds, exactly when the read that completes
the head delivers the whole body** (or there is none), and the head is delivered and fits the buffer.
-/
theorem sized_body_iff (stream : left ++ wire.flatten = reply.bytes ++ rest)
    (room : left.length < cfg.bufferSize) (proper : Proper wire)
    (within : toInt64 (parser.getContentLength reply.state) ≤ toInt64 cfg.maxBodySize) :
    ((∃ response next, recvResponse cfg parser ⟨left, wire⟩ = .ok (response, next) ∧
        response.body = reply.body) ∧
      ∀ access ∈ responseAccesses cfg parser ⟨left, wire⟩, access.Inside) ↔
      wire ≠ [] ∧ reply.head.length ≤ cfg.bufferSize ∧
        (reply.body = [] ∨ reply.bytes.length ≤ reply.got cfg left wire) := by
  by_cases begun : reply.Begun cfg wire
  · obtain ⟨more, fits, _⟩ := begun
    have incoming := incoming_of_stream stream room proper fits
    have parsed := Scanner.length_pos_of_accepts reply.accepted
    have held : reply.got cfg left wire ≤ cfg.bufferSize := incoming.arrive_le_cap
    have bytes := @length_bytes _ _ _ reply
    have framed := reply.framed
    have empty : reply.body = [] ↔ reply.body.length = 0 := List.length_eq_zero_iff.symm
    rw [responseAccesses_eq incoming more,
      sizedAccesses_inside parsed held within]
    have condition : (toInt64 (parser.getContentLength reply.state) ≤ 0 ∨
        (toInt64 (parser.getContentLength reply.state)).toNat + reply.head.length ≤
          reply.got cfg left wire) ↔
        reply.body = [] ∨ reply.bytes.length ≤ reply.got cfg left wire := by
      rw [empty]
      omega
    constructor
    · exact fun both => ⟨more, fits, condition.mp both.2⟩
    · rintro ⟨_, _, whole⟩
      have found : reply.head.length ≤ reply.got cfg left wire := incoming.need_le_arrive
      have returned := recvResponse_sized incoming ⟨more, fits, within⟩
      rw [if_neg (by rw [empty] at whole; omega)] at returned
      exact ⟨⟨_, _, returned, rfl⟩, condition.mpr whole⟩
  · refine iff_of_false ?_ fun all => begun ⟨all.1, all.2.1, within⟩
    rintro ⟨⟨response, next, returned, _⟩, _⟩
    obtain ⟨failure, failed, _⟩ := recvResponse_not_begun stream room proper begun
    rw [returned] at failed
    cases failed

end SizedReply

/-- The lines of the head of a response with a body of five bytes. -/
def sizedHead : List String :=
  ["HTTP/1.1 200 OK", "Content-Length: 5", "Connection: keep-alive"]

def helloSized : SizedReply LineParser.response where
  head := LineParser.encode (sizedHead.map ascii)
  body := ascii "hello"
  state := headState sizedHead
  accepted := by decide +kernel
  plain := by decide +kernel
  framed := by decide +kernel

/-- The response in two segments, cut inside its head. -/
def sizedCut : List (List UInt8) := [helloSized.bytes.take 9, helloSized.bytes.drop 9]

theorem sized_body_cut :
    (∃ response next, recvResponse defaultConfig LineParser.response ⟨[], sizedCut⟩ =
        .ok (response, next) ∧ response.body = helloSized.body) ∧
      ∀ access ∈ responseAccesses defaultConfig LineParser.response ⟨[], sizedCut⟩,
        access.Inside :=
  (@SizedReply.sized_body_iff _ _ defaultConfig _ helloSized [] [] sizedCut (by decide +kernel)
    (by decide +kernel) (by decide +kernel) (by decide +kernel)).mpr (by decide +kernel)

/-- **A copy beyond the bytes received and beyond the body**: the last byte of the body comes in a
segment of its own, so all the bytes in the buffer, of which four belong to the body, are copied. -/
theorem copied_beyond :
    Proper [helloSized.bytes.take 66, helloSized.bytes.drop 66] ∧
      [helloSized.bytes.take 66, helloSized.bytes.drop 66].flatten = helloSized.bytes ∧
      responseAccesses defaultConfig LineParser.response
          ⟨[], [helloSized.bytes.take 66, helloSized.bytes.drop 66]⟩ =
        [.copy 62 66 0 5 66, .read 4 5 1] ∧
      ¬ (Access.copy 62 66 0 5 66).Inside := by
  decide +kernel

end Wyze.Http
