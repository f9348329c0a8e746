/-
**`HttpSession::recvRequest`: requests from one connection.**

A call reads a head, then a body of `Content-length` bytes, and saves what its reads have delivered
beyond the request for the next call. Over an ideal connection the calls return the requests of the
stream in order, each byte used once (`Exact`). The code copies the left-over from the wrong end of
the buffer, never clears it, and reads before it looks at it, so it does this only on some streams:

* `recvRequest_served`: what one call returns and leaves, from where the segments of the stream are cut.
* `requests_exact_iff`: **the calls are exact exactly when every one of them is `Served`**: it finds
  a byte still unread, and the left-over it writes (or does not write) happens to be the right one.
* `served_of_separate`: a client that waits for its response before it sends the next request is
  served, however each request is cut.
-/
import Wyze.Http.Parser

namespace Wyze.Http

open Segments

/-- `HttpRequest`: what the parser has set, the body and the close flag. -/
structure HttpRequest (ρ : Type*) where
  head : ρ
  body : List UInt8
  close : Bool
  deriving DecidableEq, Repr

/-- `HttpSession`: `m_left_data[0..m_left_size)` and the segments that arrive on the socket. -/
structure HttpSession where
  left : List UInt8
  wire : List (List UInt8)
  deriving DecidableEq, Repr

variable {σ ρ : Type*} (cfg : Config) (parser : RequestParser σ ρ)

/-! ### The call -/

/-- `recvRequest` after its loop, with the `length` of the body; `request` builds the result. -/
def recvBody (left : List UInt8) (head : Parsed σ) (length : Int)
    (request : List UInt8 → HttpRequest ρ) : Except Failure (HttpRequest ρ × HttpSession) :=
  if toInt64 cfg.maxBodySize < length then .error .bodyTooLong
  else if 0 < length then
    if head.data.length < length.toNat + head.nparse then
      -- the part of the body that is in the buffer, then the rest from the socket
      match readFixSize (length.toNat - (head.data.length - head.nparse)) head.wire with
      | none => .error .closed
      | some (more, wire) => .ok (request (head.data.drop head.nparse ++ more), ⟨left, wire⟩)
    else
      .ok (request ((head.data.drop head.nparse).take length.toNat),
        ⟨if length.toNat + head.nparse ≠ head.data.length then
            saveLeftData head.data head.data.length (head.nparse + length.toNat) else left,
          head.wire⟩)
  else .ok (request [], ⟨saveLeftData head.data head.data.length head.nparse, head.wire⟩)

/-- `HttpSession::recvRequest`. -/
def recvRequest (session : HttpSession) : Except Failure (HttpRequest ρ × HttpSession) :=
  match readAndParse parser.toScanner cfg.bufferSize parser.init (restoreLeft cfg session.left) 0
      session.wire with
  | .error failure => .error failure
  | .ok head =>
    recvBody cfg session.left head (toInt64 (parser.getContentLength head.state)) fun body =>
      ⟨parser.getData head.state, body, isClose (parser.connection head.state)⟩

/-- Successive calls, as `HttpServer::handleClient` makes them on a connection that is kept alive. -/
def recvRequests : Nat → HttpSession → Except Failure (List (HttpRequest ρ))
  | 0, _ => .ok []
  | count + 1, session =>
    match recvRequest cfg parser session with
    | .error failure => .error failure
    | .ok (request, next) => (recvRequests count next).map (request :: ·)

/-! ### Streams of requests -/

/-- A well-formed request: a head that the parser accepts, shorter than the buffer, and a body of
exactly its `Content-length` bytes. -/
structure Sent where
  head : List UInt8
  body : List UInt8
  state : σ
  accepted : parser.accepts parser.init head = some state
  short : head.length < cfg.bufferSize
  framed : parser.getContentLength state = body.length
  countable : body.length < 2 ^ 63

variable {cfg parser}

namespace Sent

/-- The bytes of a request on the wire. -/
def bytes (sent : Sent cfg parser) : List UInt8 := sent.head ++ sent.body

/-- The request that the receiver is to return. -/
def request (sent : Sent cfg parser) : HttpRequest ρ :=
  ⟨parser.getData sent.state, sent.body, isClose (parser.connection sent.state)⟩

/-- How many bytes the call holds when it has read the head. -/
def got (sent : Sent cfg parser) (left : List UInt8) (wire : List (List UInt8)) : Nat :=
  arrive cfg.bufferSize sent.head.length left.length wire

/-- The bytes it holds then. -/
def buffer (sent : Sent cfg parser) (left : List UInt8) (wire : List (List UInt8)) : List UInt8 :=
  held cfg.bufferSize sent.head.length left wire

/-- The segments unread when it has read the whole request. -/
def behind (sent : Sent cfg parser) (left : List UInt8) (wire : List (List UInt8)) :
    List (List UInt8) :=
  Segments.behind cfg.bufferSize sent.head.length sent.bytes.length left wire

/-- **The call is served**: it finds an unread byte, the body is within the limit, and then
* when part of the body is missing in the buffer, there was no left-over and the missing length
  converts to a positive `int`;
* when a body just fills the buffer, there was no left-over;
* when more is in the buffer, its first bytes are the same as those beyond the request. -/
def Served (sent : Sent cfg parser) (left : List UInt8) (wire : List (List UInt8)) : Prop :=
  wire ≠ [] ∧ (sent.body.length : Int) ≤ toInt64 cfg.maxBodySize ∧
    if sent.got left wire < sent.bytes.length then
      left = [] ∧ 0 < toInt32 (sent.bytes.length - sent.got left wire)
    else if sent.got left wire = sent.bytes.length ∧ sent.body ≠ [] then left = []
    else (sent.buffer left wire).take (sent.got left wire - sent.bytes.length) =
      (sent.buffer left wire).drop sent.bytes.length

end Sent

/-- The bytes of a sequence of requests. -/
def stream (sent : List (Sent cfg parser)) : List UInt8 := (sent.map Sent.bytes).flatten

/-- **Exact reception**: the calls return the requests in order, and after each of them the bytes
kept and the bytes unread are those of the later requests: none is lost, replayed or misplaced. -/
def Exact : List (Sent cfg parser) → HttpSession → Prop
  | [], _ => True
  | sent :: later, session =>
    ∃ next, recvRequest cfg parser session = .ok (sent.request, next) ∧
      next.left ++ next.wire.flatten = stream later ∧ Exact later next

/-- Every call is served, where the left-over of the one before it is the right one. -/
def AllServed : List (Sent cfg parser) → List UInt8 → List (List UInt8) → Prop
  | [], _, _ => True
  | sent :: later, left, wire =>
    sent.Served left wire ∧
      AllServed later ((sent.buffer left wire).drop sent.bytes.length) (sent.behind left wire)

/-- Exact reception gives the requests in order. -/
theorem recvRequests_of_exact {sent : List (Sent cfg parser)} {session : HttpSession}
    (exact' : Exact sent session) :
    recvRequests cfg parser sent.length session = .ok (sent.map Sent.request) := by
  induction sent generalizing session with
  | nil => rfl
  | cons sent later ih =>
      obtain ⟨next, returned, _, after⟩ := exact'
      rw [List.length_cons, recvRequests, returned]
      show Except.map _ (recvRequests cfg parser later.length next) = _
      rw [ih after]
      rfl

/-! ### One call -/

variable {sent : Sent cfg parser} {left rest : List UInt8} {wire : List (List UInt8)}

theorem Sent.length_bytes (sent : Sent cfg parser) :
    sent.bytes.length = sent.head.length + sent.body.length := List.length_append

theorem Sent.head_length_le_bytes (sent : Sent cfg parser) :
    sent.head.length ≤ sent.bytes.length := by
  rw [sent.length_bytes]
  exact Nat.le_add_right _ _

/-- What is known when a call starts to receive a request. -/
abbrev Ready (sent : Sent cfg parser) (left rest : List UInt8) (wire : List (List UInt8)) : Prop :=
  Incoming cfg.bufferSize sent.head.length sent.bytes rest left wire

theorem ready_of_stream (bytes : left ++ wire.flatten = sent.bytes ++ rest)
    (room : left.length < cfg.bufferSize) (proper : Proper wire) : Ready sent left rest wire :=
  ⟨bytes, room, proper, Nat.le_of_lt sent.short, sent.head_length_le_bytes⟩

theorem length_buffer (ready : Ready sent left rest wire) :
    (sent.buffer left wire).length = sent.got left wire := ready.length_held

/-- The head is found, whatever the cuts. -/
theorem head_found (ready : Ready sent left rest wire) (more : wire ≠ []) :
    readAndParse parser.toScanner cfg.bufferSize parser.init (restoreLeft cfg left) 0 wire =
      .ok ⟨sent.state, sent.buffer left wire, sent.head.length,
        skip (sent.got left wire - left.length) wire⟩ := by
  rw [restoreLeft_of_le (Nat.le_of_lt ready.room)]
  exact readAndParse_incoming sent.accepted ready more

/-- **One call of `recvRequest`** whose stream begins with a request within the limit. -/
theorem recvRequest_eq (ready : Ready sent left rest wire) (more : wire ≠ [])
    (limit : (sent.body.length : Int) ≤ toInt64 cfg.maxBodySize) :
    recvRequest cfg parser ⟨left, wire⟩ =
      if sent.got left wire < sent.bytes.length then
        if 0 < toInt32 (sent.bytes.length - sent.got left wire) then
          .ok (sent.request, ⟨left, sent.behind left wire⟩)
        else .error .closed
      else .ok (sent.request,
        ⟨if sent.got left wire = sent.bytes.length ∧ sent.body ≠ [] then left
          else (sent.buffer left wire).take (sent.got left wire - sent.bytes.length),
        sent.behind left wire⟩) := by
  have length : toInt64 (parser.getContentLength sent.state) = sent.body.length := by
    rw [sent.framed]
    exact toInt64_of_lt sent.countable
  have bytes := sent.length_bytes
  have found : sent.head.length ≤ sent.got left wire := ready.need_le_arrive
  have rest : sent.bytes.drop sent.head.length = sent.body := List.drop_left
  unfold recvRequest
  rw [head_found ready more]
  show recvBody cfg left _ (toInt64 (parser.getContentLength sent.state)) _ = _
  rw [length, recvBody, if_neg (by omega)]
  dsimp only
  rw [Int.toNat_natCast, length_buffer ready]
  by_cases empty : sent.body = []
  · -- no body: what is beyond the head is saved
    have none : sent.body.length = 0 := by rw [empty]; rfl
    rw [none, if_neg (by omega), if_neg (by omega), if_neg (fun both => both.2 empty)]
    have behind : skip (sent.got left wire - left.length) wire = sent.behind left wire :=
      Incoming.skip_held (Nat.le_trans (by omega) found)
    unfold saveLeftData Sent.request
    rw [behind, bytes, none, Nat.add_zero, empty]
  · have some := List.length_pos_iff.mpr empty
    rw [if_pos (by omega)]
    by_cases short : sent.got left wire < sent.bytes.length
    · -- the rest of the body is read from the socket
      have missing : sent.body.length - (sent.got left wire - sent.head.length) =
          sent.bytes.length - sent.got left wire := by omega
      have body : (sent.buffer left wire).drop sent.head.length ++
          (skip (sent.got left wire - left.length) wire).flatten.take
            (sent.bytes.length - sent.got left wire) = sent.body :=
        (ready.drop_held_append (Nat.le_of_lt short)).trans rest
      have behind : skip (sent.bytes.length - sent.got left wire)
          (skip (sent.got left wire - left.length) wire) = sent.behind left wire :=
        ready.skip_missing (Nat.le_of_lt short)
      have there : sent.bytes.length - sent.got left wire ≤
          (skip (sent.got left wire - left.length) wire).flatten.length := ready.missing_le
      rw [if_pos (by omega), if_pos short, missing,
        readFixSize_eq (by omega) (proper_skip ready.proper _) there]
      by_cases positive : 0 < toInt32 (sent.bytes.length - sent.got left wire)
      · rw [if_pos positive, if_pos positive]
        dsimp only
        rw [body, behind]
        rfl
      · rw [if_neg positive, if_neg positive]
    · -- the body is whole in the buffer
      have body : ((sent.buffer left wire).drop sent.head.length).take sent.body.length =
          sent.body := by
        apply (ready.take_drop_held (Nat.le_of_not_lt short) (Nat.le_of_eq bytes.symm)).trans
        rw [rest, List.take_length]
      have behind : skip (sent.got left wire - left.length) wire = sent.behind left wire :=
        Incoming.skip_held (Nat.le_of_not_lt short)
      rw [if_neg (by omega), if_neg short, body, behind]
      unfold Sent.request saveLeftData
      by_cases just : sent.got left wire = sent.bytes.length
      · rw [if_neg (by omega), if_pos ⟨just, empty⟩]
      · rw [if_pos (by omega), if_neg (fun both => just both.1), bytes]

/-- A call that finds the socket at its end fails, whatever it has kept. -/
theorem recvRequest_nil : recvRequest cfg parser ⟨left, []⟩ = .error .closed := rfl

/-- A body over the limit is refused. -/
theorem recvRequest_long (ready : Ready sent left rest wire) (more : wire ≠ [])
    (long : toInt64 cfg.maxBodySize < sent.body.length) :
    recvRequest cfg parser ⟨left, wire⟩ = .error .bodyTooLong := by
  have length : toInt64 (parser.getContentLength sent.state) = sent.body.length := by
    rw [sent.framed]
    exact toInt64_of_lt sent.countable
  unfold recvRequest
  rw [head_found ready more]
  show recvBody cfg left _ (toInt64 (parser.getContentLength sent.state)) _ = _
  rw [length, recvBody, if_pos long]

/-- **A served call** returns the request and keeps what its reads have delivered beyond it. -/
theorem recvRequest_served (ready : Ready sent left rest wire) (served : sent.Served left wire) :
    recvRequest cfg parser ⟨left, wire⟩ = .ok (sent.request,
      ⟨(sent.buffer left wire).drop sent.bytes.length, sent.behind left wire⟩) := by
  obtain ⟨more, limit, kept⟩ := served
  have held := length_buffer ready
  rw [recvRequest_eq ready more limit]
  by_cases short : sent.got left wire < sent.bytes.length
  · rw [if_pos short] at kept ⊢
    rw [if_pos kept.2, kept.1, List.drop_of_length_le]
    rw [← kept.1, held]
    exact Nat.le_of_lt short
  · rw [if_neg short] at kept ⊢
    by_cases just : sent.got left wire = sent.bytes.length ∧ sent.body ≠ []
    · rw [if_pos just] at kept ⊢
      rw [List.drop_of_length_le (by rw [held]; exact Nat.le_of_eq just.1), kept]
    · rw [if_neg just] at kept ⊢
      rw [kept]

/-- **Only a served call** returns the request and keeps the right bytes. -/
theorem served_of_recvRequest (ready : Ready sent left rest wire) {next : HttpSession}
    (returned : recvRequest cfg parser ⟨left, wire⟩ = .ok (sent.request, next))
    (kept : next.left ++ next.wire.flatten = rest) : sent.Served left wire := by
  have more : wire ≠ [] := by
    rintro rfl
    cases returned
  have limit : (sent.body.length : Int) ≤ toInt64 cfg.maxBodySize := by
    by_contra long
    rw [recvRequest_long ready more (by omega)] at returned
    cases returned
  have held := length_buffer ready
  have split : rest = (sent.buffer left wire).drop sent.bytes.length ++
      (sent.behind left wire).flatten := ready.rest_eq
  rw [recvRequest_eq ready more limit] at returned
  refine ⟨more, limit, ?_⟩
  by_cases short : sent.got left wire < sent.bytes.length
  · rw [if_pos short] at returned ⊢
    by_cases positive : 0 < toInt32 (sent.bytes.length - sent.got left wire)
    · rw [if_pos positive] at returned
      cases returned
      rw [← kept, List.drop_of_length_le (by rw [held]; exact Nat.le_of_lt short)] at split
      exact ⟨List.append_cancel_right split, positive⟩
    · rw [if_neg positive] at returned
      cases returned
  · rw [if_neg short] at returned ⊢
    cases returned
    rw [← kept] at split
    have same : (if sent.got left wire = sent.bytes.length ∧ sent.body ≠ [] then left
        else (sent.buffer left wire).take (sent.got left wire - sent.bytes.length)) =
        (sent.buffer left wire).drop sent.bytes.length := List.append_cancel_right split
    by_cases just : sent.got left wire = sent.bytes.length ∧ sent.body ≠ []
    · rw [if_pos just] at same ⊢
      rw [same, List.drop_of_length_le (by rw [held]; exact Nat.le_of_eq just.1)]
    · rw [if_neg just] at same ⊢
      exact same

/-! ### Runs of calls -/

/-- The calls that receive a sequence of requests, from any moment of a run. -/
theorem exact_iff_allServed (sent : List (Sent cfg parser)) :
    ∀ (left : List UInt8) (wire : List (List UInt8)), left ++ wire.flatten = stream sent →
      left.length < cfg.bufferSize → Proper wire →
      (Exact sent ⟨left, wire⟩ ↔ AllServed sent left wire) := by
  induction sent with
  | nil => exact fun _ _ _ _ _ => Iff.rfl
  | cons sent later ih =>
      intro left wire bytes room proper
      have ready : Ready sent left (stream later) wire := ready_of_stream bytes room proper
      have pos := Scanner.length_pos_of_accepts sent.accepted
      have tail := ih _ _ ready.rest_eq.symm (ready.room_beyond pos) ready.proper_behind
      constructor
      · rintro ⟨next, returned, kept, after⟩
        have served := served_of_recvRequest ready returned kept
        rw [recvRequest_served ready served] at returned
        cases returned
        exact ⟨served, tail.mp after⟩
      · rintro ⟨served, after⟩
        exact ⟨_, recvRequest_served ready served, ready.rest_eq.symm, tail.mpr after⟩

/-! ### Requests that arrive one by one -/

/-- A request in segments of its own is served, and nothing beyond it is read. -/
theorem Sent.served_own (sent : Sent cfg parser) {own later : List (List UInt8)}
    (bytes : own.flatten = sent.bytes) (proper : Proper (own ++ later))
    (within : (sent.body.length : Int) ≤ toInt64 cfg.maxBodySize)
    (small : sent.body.length < 2 ^ 31) :
    sent.Served [] (own ++ later) ∧
      (sent.buffer [] (own ++ later)).drop sent.bytes.length = [] ∧
      sent.behind [] (own ++ later) = later := by
  have ready : Ready sent [] later.flatten (own ++ later) := by
    refine ready_of_stream ?_ cfg.bufferSize_pos proper
    rw [List.nil_append, List.flatten_append, bytes]
  have pos := Scanner.length_pos_of_accepts sent.accepted
  have notBeyond : sent.got [] (own ++ later) ≤ sent.bytes.length :=
    arrive_own bytes pos sent.head_length_le_bytes
  have nothing : (sent.buffer [] (own ++ later)).drop sent.bytes.length = [] :=
    ready.nothing_beyond notBeyond
  have some : own ≠ [] :=
    own_ne_nil bytes (Nat.lt_of_lt_of_le pos sent.head_length_le_bytes)
  refine ⟨⟨List.append_ne_nil_of_left_ne_nil some _, within, ?_⟩, nothing, ?_⟩
  · by_cases short : sent.got [] (own ++ later) < sent.bytes.length
    · have found : sent.head.length ≤ sent.got [] (own ++ later) := ready.need_le_arrive
      have split := sent.length_bytes
      rw [if_pos short, toInt32_of_lt (by omega)]
      exact ⟨rfl, by omega⟩
    · rw [if_neg short]
      by_cases body : sent.body = []
      · have same : sent.got [] (own ++ later) - sent.bytes.length = 0 := by omega
        rw [if_neg (fun both => both.2 body), nothing, same, List.take_zero]
      · rw [if_pos ⟨by omega, body⟩]
  · exact behind_own bytes (List.forall_mem_append.mp proper).2 pos sent.head_length_le_bytes

/-- **Requests in segments of their own are served**: when no segment holds bytes of two requests,
every call is, however each request is cut. -/
theorem served_of_separate (sent : List (Sent cfg parser × List (List UInt8)))
    (own : ∀ item ∈ sent, item.2.flatten = item.1.bytes ∧ Proper item.2)
    (limit : ∀ item ∈ sent, (item.1.body.length : Int) ≤ toInt64 cfg.maxBodySize ∧
      item.1.body.length < 2 ^ 31) :
    AllServed (sent.map Prod.fst) [] (sent.map Prod.snd).flatten := by
  induction sent with
  | nil => trivial
  | cons item later ih =>
      obtain ⟨⟨bytes, proper⟩, ownLater⟩ := List.forall_mem_cons.mp own
      obtain ⟨⟨within, small⟩, limitLater⟩ := List.forall_mem_cons.mp limit
      have properLater : Proper (later.map Prod.snd).flatten :=
        proper_flatten fun item among => (ownLater item among).2
      obtain ⟨served, nothing, rest⟩ := item.1.served_own bytes
        (List.forall_mem_append.mpr ⟨proper, properLater⟩) within small
      rw [List.map_cons, List.map_cons, List.flatten_cons, AllServed, nothing, rest]
      exact ⟨served, ih ownLater limitLater⟩

/-! ### Three requests -/

/-- A request of a client that keeps the connection alive. -/
def lines (request : String) (headers : List String) : List (List UInt8) :=
  (request :: "Connection: keep-alive" :: headers).map ascii

/-- The line parser's state after a head. -/
def parsed (head : List (List UInt8)) : LineParser.State :=
  { LineParser.init with mode := .head }.endedHead head

def getA : Sent defaultConfig LineParser.request where
  head := LineParser.encode (lines "GET /a HTTP/1.1" [])
  body := []
  state := parsed (lines "GET /a HTTP/1.1" [])
  accepted := by decide +kernel
  short := by decide +kernel
  framed := by decide +kernel
  countable := by decide

def getB : Sent defaultConfig LineParser.request where
  head := LineParser.encode (lines "GET /b HTTP/1.1" [])
  body := []
  state := parsed (lines "GET /b HTTP/1.1" [])
  accepted := by decide +kernel
  short := by decide +kernel
  framed := by decide +kernel
  countable := by decide

def postC : Sent defaultConfig LineParser.request where
  head := LineParser.encode (lines "POST /c HTTP/1.1" ["Content-Length: 5"])
  body := ascii "hello"
  state := parsed (lines "POST /c HTTP/1.1" ["Content-Length: 5"])
  accepted := by decide +kernel
  short := by decide +kernel
  framed := by decide +kernel
  countable := by decide

/-! ### The requests of a connection -/

/-- **The requests of a new connection** are received exactly, in order and each byte once, exactly
when every call is served. -/
theorem requests_exact_iff (sent : List (Sent cfg parser)) (wire : List (List UInt8))
    (proper : Proper wire) (bytes : wire.flatten = stream sent) :
    Exact sent ⟨[], wire⟩ ↔ AllServed sent [] wire :=
  exact_iff_allServed sent [] wire bytes cfg.bufferSize_pos proper

/-- A request cut inside its head. -/
def cutA : List (List UInt8) := [getA.bytes.take 7, getA.bytes.drop 7]

/-- A request cut inside its head and inside its body. -/
def cutC : List (List UInt8) :=
  [postC.bytes.take 20, (postC.bytes.drop 20).take 46, postC.bytes.drop 66]

theorem requests_exact_cut : Exact [getA, postC] ⟨[], cutA ++ cutC⟩ :=
  (requests_exact_iff [getA, postC] (cutA ++ cutC) (by decide +kernel) (by decide +kernel)).mpr
    (served_of_separate [(getA, cutA), (postC, cutC)] (by decide +kernel) (by decide +kernel))

/-- **A request is replayed and one is lost**: three requests arrive, two of them in one segment. The
first call saves the first 43 bytes of its buffer instead of the last 43, so the second call returns
the first request once more. -/
theorem request_replayed :
    Proper [getA.bytes ++ getB.bytes, postC.bytes] ∧
      [getA.bytes ++ getB.bytes, postC.bytes].flatten = stream [getA, getB, postC] ∧
      recvRequests defaultConfig LineParser.request 2
        ⟨[], [getA.bytes ++ getB.bytes, postC.bytes]⟩ = .ok [getA.request, getA.request] ∧
      getA.request ≠ getB.request ∧
      ¬ Exact [getA, getB, postC] ⟨[], [getA.bytes ++ getB.bytes, postC.bytes]⟩ := by
  refine ⟨by decide +kernel, by decide +kernel, by decide +kernel, by decide +kernel, ?_⟩
  intro exact'
  have returned := recvRequests_of_exact exact'
  revert returned
  decide +kernel

end Wyze.Http
