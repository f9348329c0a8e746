/-
**Responses on a connection that is kept alive.**

A call of `recvResponse` writes the left-over on some of its exits and not on others, and copies it
from the wrong end of the buffer. Here are all responses, chunked or with a length, and runs of calls
on any incoming bytes:

* `recvResponse_sized`: what a call does with a response that has a length, from where the segments
  are cut.
* `reply_of_recvResponse`: a call that returns a response has found one at the beginning of the bytes
  that were to come.
* `left_over_iff`: **the left-over is right after every call of a run exactly when every call is
  `Tidy`**.
-/
import Wyze.Http.Chunked

namespace Wyze.Http

open Segments

variable {σ ρ : Type*} {cfg : Config} {parser : ResponseParser σ ρ}

/-! ### Responses with a length -/

/-- A response that is not chunked: a head that the parser accepts as such, and as many bytes as its
`content-length` says, as an `int64_t`. -/
structure SizedReply (parser : ResponseParser σ ρ) where
  head : List UInt8
  body : List UInt8
  state : σ
  accepted : parser.accepts parser.init head = some state
  plain : parser.chunked state = false
  framed : (toInt64 (parser.getContentLength state)).toNat = body.length

namespace SizedReply

variable (reply : SizedReply parser) {left rest : List UInt8} {wire : List (List UInt8)}

/-- The bytes of the response on the wire. -/
def bytes : List UInt8 := reply.head ++ reply.body

/-- The response the receiver is to return. -/
def response : HttpResponse ρ := parser.response reply.state reply.body

/-- How many bytes the call holds when it has read the head. -/
def got (cfg : Config) (left : List UInt8) (wire : List (List UInt8)) : Nat :=
  arrive cfg.bufferSize reply.head.length left.length wire

/-- Part of the body is missing in the buffer, and the copy of what is there goes outside the body or
the buffer. -/
def Overrun (cfg : Config) (left : List UInt8) (wire : List (List UInt8)) : Prop :=
  reply.got cfg left wire < reply.bytes.length ∧
    (reply.body.length < reply.got cfg left wire ∨
      cfg.bufferSize + 1 < reply.head.length + reply.got cfg left wire)

/-- The head is delivered and the body is within the limit. -/
def Begun (cfg : Config) (wire : List (List UInt8)) : Prop :=
  wire ≠ [] ∧ reply.head.length ≤ cfg.bufferSize ∧
    toInt64 (parser.getContentLength reply.state) ≤ toInt64 cfg.maxBodySize

/-- **The response is returned**: it is begun, nothing is overrun, and what is missing of the body
converts to a positive `int`. -/
def Returned (cfg : Config) (left : List UInt8) (wire : List (List UInt8)) : Prop :=
  reply.Begun cfg wire ∧ ¬ reply.Overrun cfg left wire ∧
    (reply.got cfg left wire < reply.bytes.length →
      0 < toInt32 (reply.bytes.length - reply.got cfg left wire))

/-- The standing after the call: when part of the body was missing, nothing is saved. -/
def allRead (cfg : Config) (left : List UInt8) (wire : List (List UInt8)) : Standing :=
  { (Standing.mk left left wire).pass cfg reply.head.length reply.bytes.length with
    saved := if reply.got cfg left wire < reply.bytes.length then left
      else (held cfg.bufferSize reply.head.length left wire).take
        (reply.got cfg left wire - reply.bytes.length) }

variable {reply}

theorem length_bytes : reply.bytes.length = reply.head.length + reply.body.length :=
  List.length_append

theorem bytes_append (rest : List UInt8) :
    reply.bytes ++ rest = reply.head ++ (reply.body ++ rest) :=
  List.append_assoc _ _ _

theorem incoming_of_stream (stream : left ++ wire.flatten = reply.bytes ++ rest)
    (room : left.length < cfg.bufferSize) (proper : Proper wire)
    (fits : reply.head.length ≤ cfg.bufferSize) :
    Incoming cfg.bufferSize reply.head.length reply.bytes rest left wire := by
  refine ⟨stream, room, proper, fits, ?_⟩
  rw [length_bytes]
  exact Nat.le_add_right _ _

/-- The branch without chunks, for a response whose head is delivered. -/
theorem recvResponse_begun (incoming : Incoming cfg.bufferSize reply.head.length reply.bytes rest
      left wire) (more : wire ≠ []) :
    recvResponse cfg parser ⟨left, wire⟩ = recvSized cfg left
      ⟨reply.state, held cfg.bufferSize reply.head.length left wire, reply.head.length,
        skip (reply.got cfg left wire - left.length) wire⟩
      (toInt64 (parser.getContentLength reply.state)) (parser.response reply.state) := by
  have found : readAndParse parser.toScanner cfg.bufferSize parser.init (restoreLeft cfg left) 0
      wire = .ok ⟨reply.state, held cfg.bufferSize reply.head.length left wire, reply.head.length,
        skip (reply.got cfg left wire - left.length) wire⟩ := by
    rw [restoreLeft_of_le (Nat.le_of_lt incoming.room)]
    exact readAndParse_incoming reply.accepted incoming more
  unfold recvResponse
  rw [found]
  dsimp only
  rw [reply.plain, if_neg Bool.false_ne_true]

/-- **One call of `recvResponse`** on a response with a length whose head is delivered. -/
theorem recvResponse_sized (incoming : Incoming cfg.bufferSize reply.head.length reply.bytes rest
      left wire) (begun : reply.Begun cfg wire) :
    recvResponse cfg parser ⟨left, wire⟩ =
      if reply.got cfg left wire < reply.bytes.length then
        if reply.body.length < reply.got cfg left wire ∨
            cfg.bufferSize + 1 < reply.head.length + reply.got cfg left wire then .error .fault
        else if 0 < toInt32 (reply.bytes.length - reply.got cfg left wire) then
          .ok (reply.response, ⟨(reply.allRead cfg left wire).saved,
            (reply.allRead cfg left wire).wire⟩)
        else .error .closed
      else .ok (reply.response, ⟨(reply.allRead cfg left wire).saved,
        (reply.allRead cfg left wire).wire⟩) := by
  obtain ⟨more, _, limit⟩ := begun
  have bytes := @length_bytes _ _ _ reply
  have found : reply.head.length ≤ reply.got cfg left wire := incoming.need_le_arrive
  have length : (held cfg.bufferSize reply.head.length left wire).length =
      reply.got cfg left wire := incoming.length_held
  have framed := reply.framed
  have after : reply.bytes.drop reply.head.length = reply.body := List.drop_left
  rw [recvResponse_begun incoming more, recvSized, if_neg (by omega)]
  dsimp only
  rw [length]
  by_cases empty : 0 < toInt64 (parser.getContentLength reply.state)
  · rw [if_pos empty, framed]
    by_cases short : reply.got cfg left wire < reply.bytes.length
    · -- the rest of the body is read from the socket
      have missing : reply.body.length + reply.head.length - reply.got cfg left wire =
          reply.bytes.length - reply.got cfg left wire := by omega
      have there : reply.bytes.length - reply.got cfg left wire ≤
          (skip (reply.got cfg left wire - left.length) wire).flatten.length := incoming.missing_le
      have body : (held cfg.bufferSize reply.head.length left wire).drop reply.head.length ++
          (skip (reply.got cfg left wire - left.length) wire).flatten.take
            (reply.bytes.length - reply.got cfg left wire) = reply.body :=
        (incoming.drop_held_append (Nat.le_of_lt short)).trans after
      have behind : skip (reply.bytes.length - reply.got cfg left wire)
          (skip (reply.got cfg left wire - left.length) wire) = (reply.allRead cfg left wire).wire :=
        incoming.skip_missing (Nat.le_of_lt short)
      rw [if_pos (by omega), if_pos short]
      by_cases overrun : reply.body.length < reply.got cfg left wire ∨
          cfg.bufferSize + 1 < reply.head.length + reply.got cfg left wire
      · rw [if_pos overrun, if_pos overrun]
      · rw [if_neg overrun, if_neg overrun, missing,
          readFixSize_eq (by omega) (proper_skip incoming.proper _) there]
        by_cases positive : 0 < toInt32 (reply.bytes.length - reply.got cfg left wire)
        · rw [if_pos positive, if_pos positive]
          dsimp only
          rw [body, behind, allRead, if_pos short]
          rfl
        · rw [if_neg positive, if_neg positive]
    · -- the body is whole in the buffer
      have body : ((held cfg.bufferSize reply.head.length left wire).drop reply.head.length).take
          reply.body.length = reply.body := by
        apply (incoming.take_drop_held (Nat.le_of_not_lt short) (Nat.le_of_eq bytes.symm)).trans
        rw [after, List.take_length]
      have behind : skip (reply.got cfg left wire - left.length) wire =
          (reply.allRead cfg left wire).wire := Incoming.skip_held (Nat.le_of_not_lt short)
      rw [if_neg (by omega), if_neg short, body, behind, allRead, if_neg short]
      unfold saveLeftData
      rw [← bytes]
      rfl
  · -- no body: what is beyond the head is saved
    have none : reply.body.length = 0 := by omega
    have short : ¬ reply.got cfg left wire < reply.bytes.length := by omega
    have behind : skip (reply.got cfg left wire - left.length) wire =
        (reply.allRead cfg left wire).wire := Incoming.skip_held (Nat.le_of_not_lt short)
    rw [if_neg empty, if_neg short, behind, allRead, if_neg short]
    unfold saveLeftData response
    rw [bytes, none, List.eq_nil_of_length_eq_zero none]
    rfl

/-- A response that is not begun is refused. -/
theorem recvResponse_not_begun (stream : left ++ wire.flatten = reply.bytes ++ rest)
    (room : left.length < cfg.bufferSize) (proper : Proper wire) (fails : ¬ reply.Begun cfg wire) :
    ∃ failure, recvResponse cfg parser ⟨left, wire⟩ = .error failure ∧ failure ≠ .fault := by
  by_cases more : wire = []
  · subst more
    exact ⟨.closed, rfl, by decide⟩
  · by_cases fits : reply.head.length ≤ cfg.bufferSize
    · have incoming := incoming_of_stream stream room proper fits
      have long : toInt64 cfg.maxBodySize < toInt64 (parser.getContentLength reply.state) := by
        by_contra within
        exact fails ⟨more, fits, Int.not_lt.mp within⟩
      rw [recvResponse_begun incoming more, recvSized, if_pos long]
      exact ⟨.bodyTooLong, rfl, by decide⟩
    · rw [bytes_append] at stream
      exact ⟨.bufferFull, recvResponse_full reply.accepted stream room proper (Nat.lt_of_not_le fits),
        by decide⟩

end SizedReply

/-! ### Responses of both kinds -/

/-- A response on the wire. -/
inductive Reply (parser : ResponseParser σ ρ) where
  | sized (reply : SizedReply parser)
  | chunked (reply : PartedReply parser)

namespace Reply

/-- The bytes of a response on the wire. -/
def bytes : Reply parser → List UInt8
  | sized reply => reply.bytes
  | chunked reply => reply.bytes

/-- The response the receiver is to return. -/
def response : Reply parser → HttpResponse ρ
  | sized reply => reply.response
  | chunked reply => reply.response

/-- Only a chunked response can be malformed, where a line says that its chunk has the size -1. -/
def WellFormed : Reply parser → Prop
  | sized _ => True
  | chunked reply => reply.WellFormed

/-- The call copies outside the body or the buffer. -/
def Faults (cfg : Config) (left : List UInt8) (wire : List (List UInt8)) : Reply parser → Prop
  | sized reply => reply.Begun cfg wire ∧ reply.Overrun cfg left wire
  | chunked _ => False

/-- The call returns the response. -/
def Returned (cfg : Config) (left : List UInt8) (wire : List (List UInt8)) : Reply parser → Prop
  | sized reply => reply.Returned cfg left wire
  | chunked reply => reply.Returned cfg left wire

/-- The standing after a call that has returned the response. -/
def allRead (cfg : Config) (left : List UInt8) (wire : List (List UInt8)) : Reply parser → Standing
  | sized reply => reply.allRead cfg left wire
  | chunked reply => reply.allRead cfg left wire

variable {reply : Reply parser} {left rest : List UInt8} {wire : List (List UInt8)}

/-- **A call that returns**: the response, and what it leaves. -/
theorem recvResponse_ok (stream : left ++ wire.flatten = reply.bytes ++ rest)
    (room : left.length < cfg.bufferSize) (proper : Proper wire)
    (returned : reply.Returned cfg left wire) :
    recvResponse cfg parser ⟨left, wire⟩ = .ok (reply.response,
      ⟨(reply.allRead cfg left wire).saved, (reply.allRead cfg left wire).wire⟩) := by
  cases reply with
  | chunked reply => exact PartedReply.recvResponse_parted stream room proper returned
  | sized reply =>
      obtain ⟨begun, noOverrun, positive⟩ := returned
      have incoming := SizedReply.incoming_of_stream stream room proper begun.2.1
      rw [SizedReply.recvResponse_sized incoming begun]
      by_cases short : reply.got cfg left wire < reply.bytes.length
      · rw [if_pos short, if_neg (fun overrun => noOverrun ⟨short, overrun⟩),
          if_pos (positive short)]
        rfl
      · rw [if_neg short]
        rfl

/-- **A call that fails**, and whether over a response it does so by a copy outside its memory. -/
theorem recvResponse_error (stream : left ++ wire.flatten = reply.bytes ++ rest)
    (room : left.length < cfg.bufferSize) (proper : Proper wire)
    (fails : ¬ reply.Returned cfg left wire) :
    ∃ failure, recvResponse cfg parser ⟨left, wire⟩ = .error failure ∧
      (reply.WellFormed → (failure = .fault ↔ reply.Faults cfg left wire)) := by
  cases reply with
  | chunked reply =>
      obtain ⟨failure, failed, harmless⟩ :=
        PartedReply.recvResponse_parted_error stream room proper fails
      exact ⟨failure, failed, fun wellFormed => iff_of_false (harmless wellFormed) id⟩
  | sized reply =>
      by_cases begun : reply.Begun cfg wire
      · have incoming := SizedReply.incoming_of_stream stream room proper begun.2.1
        rw [SizedReply.recvResponse_sized incoming begun]
        by_cases short : reply.got cfg left wire < reply.bytes.length
        · rw [if_pos short]
          by_cases overrun : reply.body.length < reply.got cfg left wire ∨
              cfg.bufferSize + 1 < reply.head.length + reply.got cfg left wire
          · rw [if_pos overrun]
            exact ⟨.fault, rfl, fun _ => iff_of_true rfl ⟨begun, short, overrun⟩⟩
          · have negative : ¬ 0 < toInt32 (reply.bytes.length - reply.got cfg left wire) :=
              fun positive => fails ⟨begun, fun both => overrun both.2, fun _ => positive⟩
            rw [if_neg overrun, if_neg negative]
            exact ⟨.closed, rfl, fun _ => iff_of_false (by decide) fun both => overrun both.2.2⟩
        · exact absurd ⟨begun, fun both => short both.1, fun less => absurd less short⟩ fails
      · obtain ⟨failure, failed, harmless⟩ :=
          SizedReply.recvResponse_not_begun stream room proper begun
        exact ⟨failure, failed, fun _ => iff_of_false harmless fun both => begun both.1⟩

/-- Where the bytes after a returned response are. -/
theorem allRead_rest (stream : left ++ wire.flatten = reply.bytes ++ rest)
    (room : left.length < cfg.bufferSize) (proper : Proper wire)
    (returned : reply.Returned cfg left wire) :
    (reply.allRead cfg left wire).kept ++ (reply.allRead cfg left wire).wire.flatten = rest ∧
      (reply.allRead cfg left wire).kept.length < cfg.bufferSize ∧
      Proper (reply.allRead cfg left wire).wire := by
  cases reply with
  | chunked reply => exact PartedReply.allRead_rest stream room proper returned
  | sized reply =>
      have incoming := SizedReply.incoming_of_stream stream room proper returned.1.2.1
      exact ⟨incoming.rest_eq.symm,
        incoming.room_beyond (Scanner.length_pos_of_accepts reply.accepted),
        incoming.proper_behind⟩

/-- A call that returns copies nothing outside its memory. -/
theorem not_faults (returned : reply.Returned cfg left wire) : ¬ reply.Faults cfg left wire := by
  cases reply with
  | sized reply => exact fun faults => returned.2.1 faults.2
  | chunked reply => exact id

theorem wellFormed_of_faults (faults : reply.Faults cfg left wire) : reply.WellFormed := by
  cases reply with
  | sized reply => exact trivial
  | chunked reply => exact faults.elim

/-- A branch without chunks that returns has its body on the way. -/
theorem length_of_recvSized {left' : List UInt8} {head : Parsed σ} {length : Int}
    {response : List UInt8 → HttpResponse ρ} {result : HttpResponse ρ × HttpConnection}
    (proper : Proper head.wire) (parsed : head.nparse ≤ head.data.length)
    (returned : recvSized cfg left' head length response = .ok result) :
    length.toNat ≤ head.data.length - head.nparse + head.wire.flatten.length := by
  unfold recvSized at returned
  split_ifs at returned with _ some short overrun
  · by_contra missing
    have none : readFixSize (length.toNat + head.nparse - head.data.length) head.wire = none := by
      unfold readFixSize
      rw [fill_eq_none proper (by omega)]
      rfl
    rw [none] at returned
    cases returned
  · omega
  · omega

/-- **A call that returns a response has found one** at the beginning of the bytes to come. -/
theorem reply_of_recvResponse {result : HttpResponse ρ × HttpConnection}
    (room : left.length < cfg.bufferSize) (proper : Proper wire)
    (returned : recvResponse cfg parser ⟨left, wire⟩ = .ok result) :
    ∃ (reply : Reply parser) (rest : List UInt8), left ++ wire.flatten = reply.bytes ++ rest := by
  unfold recvResponse at returned
  rw [restoreLeft_of_le (Nat.le_of_lt room)] at returned
  cases found : readAndParse parser.toScanner cfg.bufferSize parser.init left 0 wire with
  | error failure =>
      rw [found] at returned
      cases returned
  | ok head =>
      rw [found] at returned
      dsimp only at returned
      obtain ⟨bytes, rest, accepted, incoming, _, reached⟩ := incoming_of_readAndParse proper found
      have stream := incoming.stream
      have after := incoming.rest_eq
      rw [List.append_nil] at stream
      rw [← Incoming.skip_held (by rw [List.append_nil]; exact incoming.need_le_arrive),
        List.append_nil] at after
      obtain ⟨_, properHead⟩ := readAndParse_shorter proper found
      by_cases chunks : parser.chunked head.state = true
      · rw [if_pos chunks] at returned
        cases looped : recvChunks cfg parser (head.wire.flatten.length + 1) [] head with
        | error failure =>
            rw [looped] at returned
            cases returned
        | ok last =>
            obtain ⟨parts, later, framed, bytes'⟩ :=
              parts_of_recvChunks _ _ _ _ properHead looped
            refine ⟨.chunked ⟨bytes, parts, head.state, last.2.state, accepted, chunks,
              framed⟩, later, ?_⟩
            have kept : rest = head.standing.kept ++ head.standing.wire.flatten := by
              rw [after, reached]
              rfl
            show _ = bytes ++ partBytes parts ++ later
            rw [stream, kept, bytes', List.append_assoc]
      · rw [if_neg chunks] at returned
        obtain ⟨length, isLength⟩ :
            ∃ length, (toInt64 (parser.getContentLength head.state)).toNat = length := ⟨_, rfl⟩
        have parsed : head.nparse ≤ head.data.length := by
          rw [reached]
          show bytes.length ≤ (held cfg.bufferSize bytes.length left wire).length
          rw [incoming.length_held]
          exact incoming.need_le_arrive
        have enough := length_of_recvSized properHead parsed returned
        have lengths : rest.length = head.data.length - head.nparse + head.wire.flatten.length := by
          rw [after, reached, List.length_append, List.length_drop]
        rw [isLength, ← lengths] at enough
        refine ⟨.sized ⟨bytes, rest.take length, head.state, accepted, Bool.eq_false_iff.mpr chunks,
          ?_⟩, rest.drop length, ?_⟩
        · rw [isLength, List.length_take, Nat.min_eq_left enough]
        · show left ++ wire.flatten = bytes ++ rest.take length ++ rest.drop length
          rw [List.append_assoc, List.take_append_drop, stream]

end Reply

/-! ### A stream begins with one response -/

theorem head_unique {scanner : Scanner σ UInt8} {state first second : σ}
    {head head' rest rest' : List UInt8} (accepted : scanner.accepts state head = some first)
    (accepted' : scanner.accepts state head' = some second) (same : head ++ rest = head' ++ rest') :
    head = head' ∧ first = second ∧ rest = rest' := by
  have fed := Scanner.feed_accepts accepted rest
  rw [same, Scanner.feed_accepts accepted' rest'] at fed
  obtain ⟨states, lengths⟩ := Prod.mk.inj fed
  obtain ⟨heads, rests⟩ := List.append_inj same lengths.symm
  exact ⟨heads, states.symm, rests⟩

theorem part_unique {state first second : σ} {part part' : Part} {rest rest' : List UInt8}
    (accepted : parser.accepts (parser.reset state) part.line = some first)
    (accepted' : parser.accepts (parser.reset state) part'.line = some second)
    (size : parser.contentLen first + 2 = part.taken.length)
    (size' : parser.contentLen second + 2 = part'.taken.length)
    (same : part.bytes ++ rest = part'.bytes ++ rest') : first = second ∧ rest = rest' := by
  have split : part.line ++ (part.taken ++ rest) = part'.line ++ (part'.taken ++ rest') := by
    rw [← List.append_assoc part.line, ← List.append_assoc part'.line]
    exact same
  obtain ⟨_, rfl, behind⟩ := head_unique accepted accepted' split
  exact ⟨rfl, (List.append_inj behind (by omega)).2⟩

theorem partBytes_cons_append (part : Part) (parts : List Part) (rest : List UInt8) :
    partBytes (part :: parts) ++ rest = part.bytes ++ (partBytes parts ++ rest) :=
  List.append_assoc _ _ _

theorem parts_unique {state final : σ} {parts : List Part}
    (framed : Parts parser state parts final) :
    ∀ {final' : σ} {parts' : List Part} {rest rest' : List UInt8},
      Parts parser state parts' final' →
      partBytes parts ++ rest = partBytes parts' ++ rest' → rest = rest' := by
  induction framed with
  | last accepted size _ _ done =>
      intro final' parts' rest rest' framed' same
      cases framed' with
      | last accepted' size' _ _ done' =>
          rw [partBytes_cons_append, partBytes_cons_append] at same
          exact (part_unique accepted accepted' size size' same).2
      | more accepted' size' _ _ goesOn' _ =>
          rw [partBytes_cons_append, partBytes_cons_append] at same
          rw [(part_unique accepted accepted' size size' same).1, goesOn'] at done
          cases done
  | more accepted size _ _ goesOn later ih =>
      intro final' parts' rest rest' framed' same
      cases framed' with
      | last accepted' size' _ _ done' =>
          rw [partBytes_cons_append, partBytes_cons_append] at same
          rw [(part_unique accepted accepted' size size' same).1, done'] at goesOn
          cases goesOn
      | more accepted' size' _ _ goesOn' later' =>
          rw [partBytes_cons_append, partBytes_cons_append] at same
          obtain ⟨rfl, rests⟩ := part_unique accepted accepted' size size' same
          exact ih later' rests

/-- **Where the first response of a stream ends** is determined by the stream. -/
theorem Reply.rest_unique (reply reply' : Reply parser) {rest rest' : List UInt8}
    (same : reply.bytes ++ rest = reply'.bytes ++ rest') : rest = rest' := by
  cases reply with
  | sized reply =>
      cases reply' with
      | sized reply' =>
          dsimp only [bytes] at same
          rw [SizedReply.bytes_append, SizedReply.bytes_append] at same
          obtain ⟨_, states, bodies⟩ := head_unique reply.accepted reply'.accepted same
          have lengths : reply.body.length = reply'.body.length := by
            rw [← reply.framed, ← reply'.framed, states]
          exact (List.append_inj bodies lengths).2
      | chunked reply' =>
          dsimp only [bytes] at same
          rw [SizedReply.bytes_append, PartedReply.bytes_append] at same
          obtain ⟨_, states, _⟩ := head_unique reply.accepted reply'.accepted same
          have plain := reply.plain
          rw [states, reply'.chunked] at plain
          cases plain
  | chunked reply =>
      cases reply' with
      | sized reply' =>
          dsimp only [bytes] at same
          rw [PartedReply.bytes_append, SizedReply.bytes_append] at same
          obtain ⟨_, states, _⟩ := head_unique reply.accepted reply'.accepted same
          have plain := reply'.plain
          rw [← states, reply.chunked] at plain
          cases plain
      | chunked reply' =>
          dsimp only [bytes] at same
          rw [PartedReply.bytes_append, PartedReply.bytes_append] at same
          obtain ⟨_, states, parts⟩ := head_unique reply.accepted reply'.accepted same
          have framed := reply'.framed
          rw [← states] at framed
          exact parts_unique reply.framed framed parts

/-! ### Runs of calls -/

/-- **The left-over is right** after every one of a number of calls. A call that returns a response
has found it at the beginning of the bytes that were to come; what it keeps, followed by what is
unread, are the bytes after that response. So the bytes kept are exactly the ones read that belong to
no response returned so far, in order. No call on bytes that begin with a well-formed response copies
outside its memory. -/
def Accounted (cfg : Config) (parser : ResponseParser σ ρ) : Nat → HttpConnection → Prop
  | 0, _ => True
  | count + 1, connection =>
    (∀ (reply : Reply parser) (rest : List UInt8), reply.WellFormed →
      connection.left ++ connection.wire.flatten = reply.bytes ++ rest →
        recvResponse cfg parser connection ≠ .error .fault) ∧
    ∀ response next, recvResponse cfg parser connection = .ok (response, next) →
      (∃ reply : Reply parser, reply.response = response ∧
        connection.left ++ connection.wire.flatten =
          reply.bytes ++ (next.left ++ next.wire.flatten)) ∧
      Accounted cfg parser count next

/-- **Every call is tidy**: for the response that the bytes to come begin with, the call does not copy
outside its memory, and if it returns, what `saveLeftData` copies (or what stays when it is not
called) is what should be kept. -/
def Tidy (cfg : Config) (parser : ResponseParser σ ρ) :
    Nat → List UInt8 → List (List UInt8) → Prop
  | 0, _, _ => True
  | count + 1, left, wire =>
    ∀ (reply : Reply parser) (rest : List UInt8), left ++ wire.flatten = reply.bytes ++ rest →
      ¬ reply.Faults cfg left wire ∧ (reply.Returned cfg left wire →
        (reply.allRead cfg left wire).saved = (reply.allRead cfg left wire).kept ∧
        Tidy cfg parser count (reply.allRead cfg left wire).kept
          (reply.allRead cfg left wire).wire)

/-- The calls from any moment of a run. -/
theorem accounted_iff_tidy (count : Nat) :
    ∀ (left : List UInt8) (wire : List (List UInt8)), left.length < cfg.bufferSize → Proper wire →
      (Accounted cfg parser count ⟨left, wire⟩ ↔ Tidy cfg parser count left wire) := by
  induction count with
  | zero => exact fun _ _ _ _ => Iff.rfl
  | succ count ih =>
      intro left wire room proper
      constructor
      · rintro ⟨harmless, kept⟩ reply rest stream
        by_cases returned : reply.Returned cfg left wire
        · have ok := Reply.recvResponse_ok stream room proper returned
          obtain ⟨after, beyond, properAfter⟩ := Reply.allRead_rest stream room proper returned
          obtain ⟨⟨reply', _, bytes⟩, accounted⟩ := kept _ _ ok
          have rests := Reply.rest_unique reply reply' (stream.symm.trans bytes)
          have saved : (reply.allRead cfg left wire).saved = (reply.allRead cfg left wire).kept :=
            List.append_cancel_right (rests.symm.trans after.symm)
          rw [saved] at accounted
          exact ⟨fun faults => Reply.not_faults returned faults,
            fun _ => ⟨saved, (ih _ _ beyond properAfter).mp accounted⟩⟩
        · obtain ⟨failure, failed, isFault⟩ := Reply.recvResponse_error stream room proper returned
          refine ⟨fun faults => ?_, fun isReturned => absurd isReturned returned⟩
          have wellFormed := Reply.wellFormed_of_faults faults
          refine harmless reply rest wellFormed stream ?_
          rw [failed, (isFault wellFormed).mpr faults]
      · intro tidy
        refine ⟨fun reply rest wellFormed stream fault => ?_, fun response next ok => ?_⟩
        · by_cases returned : reply.Returned cfg left wire
          · rw [Reply.recvResponse_ok stream room proper returned] at fault
            cases fault
          · obtain ⟨failure, failed, isFault⟩ :=
              Reply.recvResponse_error stream room proper returned
            rw [failed] at fault
            cases fault
            exact (tidy reply rest stream).1 ((isFault wellFormed).mp rfl)
        · obtain ⟨reply, rest, stream⟩ := Reply.reply_of_recvResponse room proper ok
          by_cases returned : reply.Returned cfg left wire
          · obtain ⟨saved, tidyAfter⟩ := (tidy reply rest stream).2 returned
            obtain ⟨after, beyond, properAfter⟩ := Reply.allRead_rest stream room proper returned
            rw [Reply.recvResponse_ok stream room proper returned] at ok
            cases ok
            rw [saved]
            exact ⟨⟨reply, rfl, by rw [after]; exact stream⟩,
              (ih _ _ beyond properAfter).mpr tidyAfter⟩
          · obtain ⟨failure, failed, _⟩ := Reply.recvResponse_error stream room proper returned
            rw [failed] at ok
            cases ok

/-- **The left-over on a new connection** is right after every call, whatever bytes come in and
however they are cut, exactly when every call is tidy. -/
theorem left_over_iff (count : Nat) (wire : List (List UInt8)) (proper : Proper wire) :
    Accounted cfg parser count ⟨[], wire⟩ ↔ Tidy cfg parser count [] wire :=
  accounted_iff_tidy count [] wire cfg.bufferSize_pos proper

/-- A response without a body, by its status line. -/
def emptyLines (status : String) : List String :=
  [status, "Connection: keep-alive", "Content-Length: 0"]

def emptyOk : SizedReply LineParser.response where
  head := LineParser.encode ((emptyLines "HTTP/1.1 200 OK").map ascii)
  body := []
  state := headState (emptyLines "HTTP/1.1 200 OK")
  accepted := by decide +kernel
  plain := by decide +kernel
  framed := by decide +kernel

def emptyNotFound : SizedReply LineParser.response where
  head := LineParser.encode ((emptyLines "HTTP/1.1 404 Not Found").map ascii)
  body := []
  state := headState (emptyLines "HTTP/1.1 404 Not Found")
  accepted := by decide +kernel
  plain := by decide +kernel
  framed := by decide +kernel

/-- Two responses, the first one cut inside its head, and then the end of the stream. -/
def emptyCut : List (List UInt8) :=
  [emptyOk.bytes.take 11, emptyOk.bytes.drop 11, emptyNotFound.bytes]

theorem left_over_cut : Tidy defaultConfig LineParser.response 2 [] emptyCut := by
  have first : recvResponse defaultConfig LineParser.response ⟨[], emptyCut⟩ =
      .ok (emptyOk.response, ⟨[], [emptyNotFound.bytes]⟩) := by decide +kernel
  have second : recvResponse defaultConfig LineParser.response ⟨[], [emptyNotFound.bytes]⟩ =
      .ok (emptyNotFound.response, ⟨[], []⟩) := by decide +kernel
  refine (left_over_iff 2 emptyCut (by decide +kernel)).mp
    ⟨fun _ _ _ _ fault => ?_, fun response next ok => ?_⟩
  · rw [first] at fault
    cases fault
  · rw [first] at ok
    cases ok
    refine ⟨⟨.sized emptyOk, rfl, by decide +kernel⟩, fun _ _ _ _ fault => ?_,
      fun response next ok => ?_⟩
    · rw [second] at fault
      cases fault
    · rw [second] at ok
      cases ok
      exact ⟨⟨.sized emptyNotFound, rfl, by decide +kernel⟩, trivial⟩

/-- **The left-over is wrong**: two responses arrive in one segment. The first call keeps the first
bytes of its buffer, of the response it returns, and not the last ones, of the next response. -/
theorem left_over_wrong :
    recvResponse defaultConfig LineParser.response ⟨[], [emptyOk.bytes ++ emptyNotFound.bytes]⟩ =
        .ok (emptyOk.response,
          ⟨(emptyOk.bytes ++ emptyNotFound.bytes).take emptyNotFound.bytes.length, []⟩) ∧
      (emptyOk.bytes ++ emptyNotFound.bytes).take emptyNotFound.bytes.length ≠
        emptyNotFound.bytes ∧
      ¬ Accounted defaultConfig LineParser.response 1
        ⟨[], [emptyOk.bytes ++ emptyNotFound.bytes]⟩ := by
  have returned : recvResponse defaultConfig LineParser.response
      ⟨[], [emptyOk.bytes ++ emptyNotFound.bytes]⟩ = .ok (emptyOk.response,
        ⟨(emptyOk.bytes ++ emptyNotFound.bytes).take emptyNotFound.bytes.length, []⟩) := by
    decide +kernel
  have differs : (emptyOk.bytes ++ emptyNotFound.bytes).take emptyNotFound.bytes.length ≠
      emptyNotFound.bytes := by decide +kernel
  refine ⟨returned, differs, fun accounted => ?_⟩
  obtain ⟨⟨reply, _, bytes⟩, _⟩ := accounted.2 _ _ returned
  have whole : (Reply.sized emptyOk).bytes ++ emptyNotFound.bytes =
      [] ++ [emptyOk.bytes ++ emptyNotFound.bytes].flatten :=
    (List.append_nil _).symm
  have kept := Reply.rest_unique _ reply (whole.trans bytes)
  rw [List.flatten_nil, List.append_nil] at kept
  exact differs kept.symm

end Wyze.Http
