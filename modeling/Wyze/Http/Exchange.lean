/-
**`HttpServer::handleClient`, and a client on the other side.**

The server receives a request, lets its dispatcher fill in the response, sends it, and goes on while
the connection is kept alive. The client prints requests and receives responses. The network cuts what
either side sends into segments of its own choice.

* `handleClient_fuel`: the loop ends, since every round of it reads at least one byte.
* `recvRequest_printed`: a printed request is received with all its parts, however it is cut.
* `recvResponse_printed`: a printed response is received when `Arrives` says so of its segments; a
  call on one of which it does not fails.
* `conversation_iff`: **every request is handled once, in order, and answered; the client has all the
  answers exactly when every one of them arrives**.
-/
import Mathlib.Data.List.Forall2
import Wyze.Http.KeepAlive
import Wyze.Http.Servlet
import Wyze.Http.StatusParser

namespace Wyze.Http

open Segments Message

/-! ### The server -/

/-- The request with its body and its flag. -/
def HttpRequest.whole (request : HttpRequest Message.HttpRequest) : Message.HttpRequest :=
  { request.head with body := request.body, close := request.close }

/-- The response with its body and its flag. -/
def HttpResponse.whole (response : HttpResponse Message.HttpResponse) : Message.HttpResponse :=
  { response.head with body := response.body, close := response.close }

/-- `HttpServer`: the settings, `m_isKeepalive`, the name, and what the dispatcher makes of a request
and the response prepared for it. -/
structure HttpServer where
  cfg : Config
  isKeepalive : Bool
  name : List UInt8
  handle : Message.HttpRequest → Message.HttpResponse → Message.HttpResponse

namespace HttpServer

variable (server : HttpServer)

/-- The response to a request. -/
def respond (request : Message.HttpRequest) : Message.HttpResponse :=
  server.handle request
    { Message.HttpResponse.new with
      version := request.version
      close := request.close || !server.isKeepalive
      headers := Headers.empty.setHeader (ascii "Server") server.name }

/-- `handleClient`: the requests in the order in which they are handled, each with its response. -/
def handleClient : Nat → HttpSession → List (Message.HttpRequest × Message.HttpResponse)
  | 0, _ => []
  | fuel + 1, session =>
    match recvRequest server.cfg messageParser.request session with
    | .error _ => []
    | .ok (request, next) =>
      (request.whole, server.respond request.whole) ::
        if request.close || !server.isKeepalive then [] else handleClient fuel next

end HttpServer

/-- The text `buf` of `NotFoundServer::handle`, which `snprintf` cuts after 1023 bytes. -/
def notFoundPage (server : List UInt8) : List UInt8 :=
  (ascii "<html><head><title>404 Not Found</title></head><body><center><h1>404 Not Found</h1></center>" ++
    ascii "<hr><center>" ++ server.takeWhile (· ≠ 0) ++ ascii "</center></body></html>").take 1023

/-- `NotFoundServer::handle`. -/
def notFound (_request : Message.HttpRequest) (response : Message.HttpResponse) :
    Message.HttpResponse :=
  { response with
    status := 404
    headers := response.headers.setHeader (ascii "Content-Type") (ascii "text/html")
    body := notFoundPage (response.headers.getHeader (ascii "Server")) }

/-- `ServletDispatch::handle`; a path is a text of bytes. -/
def ServletDispatch.handle (fnmatch : String → String → Bool)
    (dispatch : ServletDispatch
      (Option (Message.HttpRequest → Message.HttpResponse → Message.HttpResponse)))
    (request : Message.HttpRequest) (response : Message.HttpResponse) : Message.HttpResponse :=
  match dispatch.getMatchedServlet fnmatch
    (String.ofList (request.path.map fun byte => Char.ofNat byte.toNat)) with
  | some slt => slt request response
  | none => response

/-! ### The loop ends -/

variable {server : HttpServer}

/-- A call that returns a request has read at least one byte. -/
theorem recvRequest_shorter {σ ρ : Type*} {cfg : Config} {parser : RequestParser σ ρ}
    {session next : HttpSession} {request : HttpRequest ρ} (proper : Proper session.wire)
    (returned : recvRequest cfg parser session = .ok (request, next)) :
    next.wire.flatten.length < session.wire.flatten.length ∧ Proper next.wire := by
  unfold recvRequest at returned
  cases found : readAndParse parser.toScanner cfg.bufferSize parser.init
      (restoreLeft cfg session.left) 0 session.wire with
  | error failure =>
      rw [found] at returned
      cases returned
  | ok head =>
      rw [found] at returned
      obtain ⟨shorter, properHead⟩ := readAndParse_shorter proper found
      dsimp only at returned
      unfold recvBody at returned
      split_ifs at returned with long some short beyond
      · cases more : readFixSize ((toInt64 (parser.getContentLength head.state)).toNat -
            (head.data.length - head.nparse)) head.wire with
        | none =>
            rw [more] at returned
            cases returned
        | some read =>
            rw [more] at returned
            cases returned
            have filled := (Option.filter_eq_some_iff.mp more).1
            have rest := (eq_of_fill (by omega) (Nat.le_refl _) properHead filled).2
            rw [rest]
            refine ⟨Nat.lt_of_le_of_lt ?_ shorter, proper_skip properHead _⟩
            rw [flatten_skip, List.length_drop]
            exact Nat.sub_le _ _
      · cases returned
        exact ⟨shorter, properHead⟩
      · cases returned
        exact ⟨shorter, properHead⟩
      · cases returned
        exact ⟨shorter, properHead⟩

/-- **The loop ends**: with more rounds than unread bytes, one more changes nothing. -/
theorem handleClient_fuel {fuel fuel' : Nat} :
    ∀ {session : HttpSession}, Proper session.wire → session.wire.flatten.length < fuel →
      session.wire.flatten.length < fuel' →
        server.handleClient fuel session = server.handleClient fuel' session := by
  induction fuel generalizing fuel' with
  | zero => exact fun _ enough _ => absurd enough (Nat.not_lt_zero _)
  | succ fuel ih =>
      intro session proper enough enough'
      obtain ⟨fuel', rfl⟩ := Nat.exists_eq_add_one_of_ne_zero (by omega : fuel' ≠ 0)
      rw [HttpServer.handleClient, HttpServer.handleClient]
      cases received : recvRequest server.cfg messageParser.request session with
      | error failure => rfl
      | ok result =>
          obtain ⟨request, next⟩ := result
          obtain ⟨shorter, properNext⟩ := recvRequest_shorter proper received
          dsimp only
          rw [@ih fuel' next properNext (by omega) (by omega)]

/-- What `handleClient` does with a new connection. -/
def HttpServer.serve (server : HttpServer) (wire : List (List UInt8)) :
    List (Message.HttpRequest × Message.HttpResponse) :=
  server.handleClient (wire.flatten.length + 1) ⟨[], wire⟩

/-! ### One request -/

/-- A request as the server has it. -/
def arrived (request : Message.HttpRequest) : Message.HttpRequest :=
  { received request with body := request.body, close := request.close }

/-- **The request comes through** with all that the client has put into it. -/
structure ComesThrough (sent got : Message.HttpRequest) : Prop where
  method : got.method = sent.method
  version : got.version = sent.version
  path : got.path = sent.path
  query : got.query = sent.query
  fragment : got.fragment = sent.fragment
  headers : (got.headers.delHeader (ascii "connection")).delHeader (ascii "content-length") =
    sent.headers
  body : got.body = sent.body
  close : got.close = sent.close

/-- A request that a client can send to a server with these settings. -/
structure Sendable (cfg : Config) (request : Message.HttpRequest) : Prop where
  printable : request.Printable false
  inGrammar : request.method.InGrammar
  unbarred : request.Unbarred
  short : (requestHead request).length < cfg.bufferSize
  within : (request.body.length : Int) ≤ toInt64 cfg.maxBodySize
  small : request.body.length < 2 ^ 31

variable {cfg : Config} {request : Message.HttpRequest}

theorem comesThrough_arrived (printable : request.Printable false) :
    ComesThrough request (arrived request) where
  method := rfl
  version := rfl
  path := rfl
  query := rfl
  fragment := rfl
  headers := (announces_request printable).given_iff.mpr fun entry mem =>
    trim_request (printable.headers entry mem)
  body := rfl
  close := rfl

/-- **A printed request is received**, however it is cut, and nothing beyond it is read. -/
theorem recvRequest_printed (sendable : Sendable cfg request) {own later : List (List UInt8)}
    (bytes : own.flatten = request.toString) (proper : Proper (own ++ later)) :
    ∃ result, recvRequest cfg messageParser.request ⟨[], own ++ later⟩ = .ok (result, ⟨[], later⟩) ∧
      result.whole = arrived request ∧ result.close = request.close := by
  obtain ⟨printable, inGrammar, unbarred, short, within, small⟩ := sendable
  obtain ⟨state, accepted, data⟩ := accepts_request printable inGrammar unbarred
  have announces := announces_request printable
  have headers : state.getData.headers = request.parsedHeaders false := by
    rw [data]
    rfl
  have framed : messageParser.request.getContentLength state = request.body.length := by
    show Message.getContentLength state.getData.headers = _
    rw [headers]
    exact announces.contentLength printable.body
  have close : isClose (messageParser.request.connection state) = request.close := by
    show isClose (state.getData.headers.getHeader (ascii "connection")) = _
    rw [headers, announces.connection, isClose_flag]
  let sent : Sent cfg messageParser.request :=
    { head := requestHead request
      body := request.body
      state := state
      accepted := accepted
      short := short
      framed := framed
      countable := by omega }
  have whole : own.flatten = sent.bytes := bytes.trans (requestString_eq printable)
  obtain ⟨served, nothing, rest⟩ := sent.served_own whole proper within small
  have ready : Ready sent [] later.flatten (own ++ later) := by
    refine ready_of_stream ?_ cfg.bufferSize_pos proper
    rw [List.nil_append, List.flatten_append, whole]
  have returned := recvRequest_served ready served
  rw [nothing, rest] at returned
  refine ⟨sent.request, returned, ?_, close⟩
  show ({ state.getData with
    body := request.body
    close := isClose (messageParser.request.connection state) } : Message.HttpRequest) = _
  rw [data, close]
  rfl

/-! ### One response -/

/-- A response as the client has it. -/
def cameBack (response : Message.HttpResponse) : Message.HttpResponse :=
  { receivedBack response with body := response.body, close := false }

/-- **The response comes back** with all that the server has put into it, but for the flag of the
connection: `dump` misspells it. -/
structure ComesBack (sent got : Message.HttpResponse) : Prop where
  status : got.status = sent.status
  version : got.version = sent.version
  reason : got.effectiveReason = sent.effectiveReason
  headers : (got.headers.delHeader (ascii "connection")).delHeader (ascii "content-length") =
    sent.headers
  body : got.body = sent.body
  close : got.close = false

/-- A response that a server can send. -/
structure Answerable (response : Message.HttpResponse) : Prop where
  printable : response.Printable
  unspaced : response.Unspaced
  noEncoding : response.headers.find (ascii "transfer-encoding") = none
  small : response.body.length < 2 ^ 31

/-- **The response lands in the client's buffers**: its head fits, its body is within the limit, and
when part of the body is missing after the read that completes the head, what is copied too much of the
buffer stays inside the body and the buffer. -/
def Lands (cfg : Config) (response : Message.HttpResponse) (own : List (List UInt8)) : Prop :=
  (responseHead response).length ≤ cfg.bufferSize ∧
    (response.body.length : Int) ≤ toInt64 cfg.maxBodySize ∧
    (arrive cfg.bufferSize (responseHead response).length 0 own < response.toString.length →
      arrive cfg.bufferSize (responseHead response).length 0 own ≤ response.body.length ∧
        (responseHead response).length +
          arrive cfg.bufferSize (responseHead response).length 0 own ≤ cfg.bufferSize + 1)

instance (cfg : Config) (response : Message.HttpResponse) (own : List (List UInt8)) :
    Decidable (Lands cfg response own) := by
  unfold Lands
  infer_instance

variable {response : Message.HttpResponse}

theorem comesBack_cameBack (answerable : Answerable response) :
    ComesBack response (cameBack response) where
  status := rfl
  version := rfl
  reason := if_neg (effectiveReason_unbroken answerable.printable).1
  headers := (announces_response answerable.printable).given_iff.mpr fun entry mem =>
    (trim_response_iff (answerable.printable.headers entry mem)).mpr (answerable.unspaced entry mem)
  body := rfl
  close := rfl

/-- **A printed response is received exactly when it lands**, however it is cut, and nothing beyond it
is read. -/
theorem recvResponse_printed (answerable : Answerable response) {own later : List (List UInt8)}
    (bytes : own.flatten = response.toString) (proper : Proper (own ++ later)) :
    if Lands cfg response own then
      ∃ result, recvResponse cfg responseParser ⟨[], own ++ later⟩ = .ok (result, ⟨[], later⟩) ∧
        result.whole = cameBack response
    else ∃ failure, recvResponse cfg responseParser ⟨[], own ++ later⟩ = .error failure := by
  obtain ⟨printable, _, noEncoding, small⟩ := answerable
  obtain ⟨state, accepted, data, plain⟩ := accepts_response printable noEncoding
  have announces := announces_response printable
  have length : responseParser.getContentLength (.response state) = response.body.length := by
    show Message.getContentLength state.message.getData.headers = _
    rw [data]
    exact announces.contentLength printable.body
  have close : isClose (responseParser.connection (.response state)) = false := by
    show getIsClose state.message.getData.headers = _
    rw [data]
    exact getIsClose_parsed printable
  let reply : SizedReply responseParser :=
    { head := responseHead response
      body := response.body
      state := .response state
      accepted := accepted
      plain := plain
      framed := by
        rw [length, toInt64_of_lt (by omega)]
        exact Int.toNat_natCast _ }
  have whole : own.flatten = reply.bytes := bytes.trans (toString_eq printable)
  have stream : [] ++ (own ++ later).flatten = reply.bytes ++ later.flatten := by
    rw [List.nil_append, List.flatten_append, whole]
  have pos : 0 < (responseHead response).length := Scanner.length_pos_of_accepts accepted
  have inside : (responseHead response).length ≤ reply.bytes.length := by
    show _ ≤ (responseHead response ++ response.body).length
    rw [List.length_append]
    exact Nat.le_add_right _ _
  have some : own ≠ [] := own_ne_nil whole (Nat.lt_of_lt_of_le pos inside)
  have empty : ([] : List UInt8).length < cfg.bufferSize := cfg.bufferSize_pos
  have got : reply.got cfg [] (own ++ later) =
      arrive cfg.bufferSize (responseHead response).length 0 own :=
    arrive_append some (by rw [List.length_nil, Nat.zero_add, whole]; exact inside)
  have size : response.toString.length = reply.bytes.length := congrArg List.length (whole ▸ bytes).symm
  have notBeyond : reply.got cfg [] (own ++ later) ≤ reply.bytes.length :=
    arrive_own whole pos inside
  have bytesLength : reply.bytes.length = (responseHead response).length + response.body.length :=
    List.length_append
  -- what the call needs is what `Lands` says of the segments of this response
  have lands_iff : (Reply.sized reply).Returned cfg [] (own ++ later) ↔ Lands cfg response own := by
    show reply.Begun cfg (own ++ later) ∧ ¬ reply.Overrun cfg [] (own ++ later) ∧ _ ↔ _
    unfold SizedReply.Begun SizedReply.Overrun Lands
    rw [← got, size, show toInt64 (responseParser.getContentLength reply.state) =
      response.body.length from by rw [length, toInt64_of_lt (by omega)]]
    have found (fits : (responseHead response).length ≤ cfg.bufferSize) :
        (responseHead response).length ≤ reply.got cfg [] (own ++ later) := by
      rw [got]
      exact need_le_arrive fits (by rw [Nat.zero_add, whole]; exact inside)
    constructor
    · rintro ⟨⟨_, fits, within⟩, noOverrun, _⟩
      refine ⟨fits, within, fun short => ?_⟩
      obtain ⟨inBody, inBuffer⟩ := not_or.mp fun overrun => noOverrun ⟨short, overrun⟩
      exact ⟨Nat.le_of_not_lt inBody, Nat.le_of_not_lt inBuffer⟩
    · rintro ⟨fits, within, room⟩
      refine ⟨⟨List.append_ne_nil_of_left_ne_nil some _, fits, within⟩, ?_, fun short => ?_⟩
      · rintro ⟨short, overrun⟩
        obtain ⟨inBody, inBuffer⟩ := room short
        rcases overrun with overBody | overBuffer
        · exact absurd overBody (Nat.not_lt_of_le inBody)
        · exact absurd overBuffer (Nat.not_lt_of_le inBuffer)
      · have here := found fits
        rw [toInt32_of_lt (by omega)]
        omega
  split_ifs with lands
  · have returned := Reply.recvResponse_ok stream empty proper (lands_iff.mpr lands)
    have saved : ((Reply.sized reply).allRead cfg [] (own ++ later)).saved = [] := by
      show (if reply.got cfg [] (own ++ later) < reply.bytes.length then [] else _) = []
      split_ifs with short
      · rfl
      · rw [Nat.sub_eq_zero_of_le notBeyond]
        exact List.take_zero
    have wire : ((Reply.sized reply).allRead cfg [] (own ++ later)).wire = later :=
      behind_own whole (List.forall_mem_append.mp proper).2 pos inside
    rw [saved, wire] at returned
    refine ⟨_, returned, ?_⟩
    show ({ state.message.getData with
      body := response.body
      close := isClose (responseParser.connection (.response state)) } : Message.HttpResponse) = _
    rw [data, close]
    rfl
  · obtain ⟨failure, failed, _⟩ :=
      Reply.recvResponse_error stream empty proper (mt lands_iff.mp lands)
    exact ⟨failure, failed⟩

/-! ### Conversations -/

/-- A turn: a request, the segments in which it arrives, and those of the response to it. -/
structure Turn where
  request : Message.HttpRequest
  there : List (List UInt8)
  back : List (List UInt8)

namespace HttpServer

/-- The response to the request of a turn. -/
def answer (server : HttpServer) (turn : Turn) : Message.HttpResponse :=
  server.respond (arrived turn.request)

/-- The turns that the loop handles: it stops behind a request that closes the connection. -/
def handled (server : HttpServer) : List Turn → List Turn
  | [] => []
  | turn :: later =>
    turn :: if turn.request.close || !server.isKeepalive then [] else handled server later

end HttpServer

/-- A turn as the two sides and the network between them make it. -/
structure Turn.Sound (server : HttpServer) (turn : Turn) : Prop where
  sendable : Sendable server.cfg turn.request
  cutThere : turn.there.flatten = turn.request.toString
  properThere : Proper turn.there
  answerable : Answerable (server.answer turn)
  cutBack : turn.back.flatten = (server.answer turn).toString
  properBack : Proper turn.back

/-- The calls of `recvResponse` of a client. -/
def recvResponses (cfg : Config) : Nat → HttpConnection → Except Failure (List Message.HttpResponse)
  | 0, _ => .ok []
  | count + 1, connection =>
    match recvResponse cfg responseParser connection with
    | .error failure => .error failure
    | .ok (response, next) => (recvResponses cfg count next).map (response.whole :: ·)

variable {turns : List Turn}

theorem handled_subset (server : HttpServer) (turns : List Turn) :
    server.handled turns ⊆ turns := by
  induction turns with
  | nil => exact List.Subset.refl _
  | cons turn later ih =>
      rw [HttpServer.handled]
      split_ifs
      · exact List.cons_subset_cons _ (List.nil_subset _)
      · exact List.cons_subset_cons _ ih

theorem proper_flatten_map {segments : Turn → List (List UInt8)}
    (proper : ∀ turn ∈ turns, Proper (segments turn)) : Proper (turns.map segments).flatten := by
  intro segment mem
  obtain ⟨among, isAmong, isSegment⟩ := List.mem_flatten.mp mem
  obtain ⟨turn, isTurn, rfl⟩ := List.mem_map.mp isAmong
  exact proper turn isTurn segment isSegment

/-- **Every request is handled once, in order**, up to one that closes the connection. -/
theorem serve_eq (sound : ∀ turn ∈ turns, turn.Sound server) :
    server.serve (turns.map Turn.there).flatten =
      (server.handled turns).map fun turn => (arrived turn.request, server.answer turn) := by
  have run (fuel : Nat) (turns : List Turn) (sound : ∀ turn ∈ turns, turn.Sound server)
      (enough : (turns.map Turn.there).flatten.flatten.length < fuel) :
      server.handleClient fuel ⟨[], (turns.map Turn.there).flatten⟩ =
        (server.handled turns).map fun turn => (arrived turn.request, server.answer turn) := by
    induction turns generalizing fuel with
    | nil =>
        obtain ⟨fuel, rfl⟩ := Nat.exists_eq_add_one_of_ne_zero (Nat.ne_of_gt enough)
        rfl
    | cons turn later ih =>
        obtain ⟨fuel, rfl⟩ := Nat.exists_eq_add_one_of_ne_zero (by omega : fuel ≠ 0)
        obtain ⟨here, soundLater⟩ := List.forall_mem_cons.mp sound
        have proper : Proper (turn.there ++ (later.map Turn.there).flatten) :=
          List.forall_mem_append.mpr
            ⟨here.properThere, proper_flatten_map fun turn mem => (soundLater turn mem).properThere⟩
        obtain ⟨result, received, whole, close⟩ :=
          recvRequest_printed here.sendable here.cutThere proper
        have shorter := (recvRequest_shorter proper received).1
        rw [List.map_cons, List.flatten_cons] at enough ⊢
        rw [HttpServer.handleClient, received]
        dsimp only at shorter ⊢
        rw [whole, close, HttpServer.handled, List.map_cons]
        refine congrArg (_ :: ·) ?_
        split_ifs with ends
        · rfl
        · exact ih fuel soundLater (by omega)
  exact run _ turns sound (Nat.lt_succ_self _)

/-- **The client has every response exactly when every one lands.** -/
theorem recvResponses_iff (sound : ∀ turn ∈ turns, turn.Sound server) :
    if ∀ turn ∈ turns, Lands cfg (server.answer turn) turn.back then
      recvResponses cfg turns.length ⟨[], (turns.map Turn.back).flatten⟩ =
        .ok (turns.map fun turn => cameBack (server.answer turn))
    else ∃ failure,
      recvResponses cfg turns.length ⟨[], (turns.map Turn.back).flatten⟩ = .error failure := by
  induction turns with
  | nil => exact (if_pos (List.forall_mem_nil _)).mpr rfl
  | cons turn later ih =>
      obtain ⟨here, soundLater⟩ := List.forall_mem_cons.mp sound
      have proper : Proper (turn.back ++ (later.map Turn.back).flatten) :=
        List.forall_mem_append.mpr
          ⟨here.properBack, proper_flatten_map fun turn mem => (soundLater turn mem).properBack⟩
      have call := @recvResponse_printed cfg _ here.answerable _ _ here.cutBack proper
      have rest := ih soundLater
      have split : (∀ other ∈ turn :: later, Lands cfg (server.answer other) other.back) ↔
          Lands cfg (server.answer turn) turn.back ∧
            ∀ other ∈ later, Lands cfg (server.answer other) other.back := List.forall_mem_cons
      rw [List.length_cons, List.map_cons, List.flatten_cons, recvResponses, List.map_cons]
      by_cases lands : Lands cfg (server.answer turn) turn.back
      · rw [if_pos lands] at call
        obtain ⟨result, received, whole⟩ := call
        rw [received]
        dsimp only
        by_cases allLand : ∀ other ∈ later, Lands cfg (server.answer other) other.back
        · rw [if_pos allLand] at rest
          rw [if_pos (split.mpr ⟨lands, allLand⟩), rest, whole]
          rfl
        · rw [if_neg allLand] at rest
          obtain ⟨failure, failed⟩ := rest
          rw [if_neg fun all => allLand (split.mp all).2, failed]
          exact ⟨failure, rfl⟩
      · rw [if_neg lands] at call
        obtain ⟨failure, failed⟩ := call
        rw [if_neg fun all => lands (split.mp all).1, failed]
        exact ⟨failure, rfl⟩

/-- **A conversation.** The requests come through to the server one by one, each is answered with what
the servlets make of it, and the client has all the answers exactly when every one lands. -/
theorem conversation_iff (server : HttpServer) (client : Config) (turns : List Turn)
    (sound : ∀ turn ∈ turns, turn.Sound server) :
    List.Forall₂
        (fun turn handled => ComesThrough turn.request handled.1 ∧ handled.2 = server.respond handled.1)
        (server.handled turns) (server.serve (turns.map Turn.there).flatten) ∧
      ((∃ responses,
          recvResponses client (server.handled turns).length
            ⟨[], ((server.handled turns).map Turn.back).flatten⟩ = .ok responses ∧
          List.Forall₂ (fun handled response => ComesBack handled.2 response)
            (server.serve (turns.map Turn.there).flatten) responses) ↔
        ∀ turn ∈ server.handled turns, Lands client (server.answer turn) turn.back) := by
  have soundHandled : ∀ turn ∈ server.handled turns, turn.Sound server :=
    fun turn mem => sound turn (handled_subset server turns mem)
  have received := @recvResponses_iff server client _ soundHandled
  rw [serve_eq sound]
  refine ⟨?_, ?_⟩
  · refine List.forall₂_map_right_iff.mpr (List.forall₂_same.mpr fun turn mem => ?_)
    exact ⟨comesThrough_arrived (soundHandled turn mem).sendable.printable, rfl⟩
  · split_ifs at received with lands
    · refine iff_of_true ⟨_, received, ?_⟩ lands
      refine List.forall₂_map_left_iff.mpr (List.forall₂_map_right_iff.mpr ?_)
      exact List.forall₂_same.mpr fun turn mem => comesBack_cameBack (soundHandled turn mem).answerable
    · obtain ⟨failure, failed⟩ := received
      refine iff_of_false ?_ lands
      rintro ⟨responses, ok, _⟩
      rw [failed] at ok
      cases ok

/-! ### A server without servlets -/

/-- A new `HttpServer` with keep-alive: its dispatcher has only the default servlet. -/
def notFoundServer (name : List UInt8) : HttpServer :=
  { cfg := defaultConfig
    isKeepalive := true
    name := name
    handle := ServletDispatch.handle (fun _ _ => false) (ServletDispatch.new (some notFound)) }

theorem length_notFoundPage (server : List UInt8) : (notFoundPage server).length < 1024 := by
  unfold notFoundPage
  rw [List.length_take]
  omega

/-- **The page for a missing servlet can be sent**, to every request, if the server's name fits on a
line. -/
theorem answerable_notFound {name : List UInt8} (unbroken : ∀ byte ∈ name, byte ≠ 10 ∧ byte ≠ 13)
    (unspaced : ∀ byte ∈ name.head?, (byte ≠ 9 ∧ byte ≠ 32) ∧ byte ≠ 11 ∧ byte ≠ 12)
    (printable : request.Printable false) :
    Answerable ((notFoundServer name).respond (arrived request)) := by
  have mem : ∀ entry ∈ ((notFoundServer name).respond (arrived request)).headers.entries,
      entry = (ascii "Content-Type", ascii "text/html") ∨ entry = (ascii "Server", name) := by
    intro entry isEntry
    have absent : (Headers.empty.setHeader (ascii "Server") name).find (ascii "Content-Type") =
        none := by
      rw [← Option.not_isSome_iff_eq_none, Headers.isSome_find_setHeader]
      rintro (same | there)
      · exact absurd same (by decide)
      · cases there
    refine ((Headers.mem_setHeader absent entry).mp isEntry).imp_right fun isOld => ?_
    exact ((Headers.mem_setHeader rfl entry).mp isOld).resolve_right List.not_mem_nil
  have small := length_notFoundPage
    ((Headers.empty.setHeader (ascii "Server") name).getHeader (ascii "Server"))
  refine ⟨⟨printable.version, ?_, ?_, ?_, ?_⟩, ?_, ?_, ?_⟩
  · show (httpStatusMap.lookup 404).isSome = true
    decide
  · exact fun byte isByte => absurd isByte List.not_mem_nil
  · intro entry isEntry
    rcases mem entry isEntry with rfl | rfl
    · exact ⟨by decide, forall_mem_of_all (by decide), by decide, by decide,
        forall_mem_of_all (by decide), by rintro _ ⟨⟩; decide⟩
    · exact ⟨show ascii "Server" ≠ [] by decide,
        List.all_eq_true.mp (show (ascii "Server").all isToken = true by decide),
        show foldCase (ascii "Server") ≠ foldCase (ascii "connection") by decide,
        show foldCase (ascii "Server") ≠ foldCase (ascii "content-length") by decide, unbroken,
        fun byte isFirst => (unspaced byte isFirst).1⟩
  · exact Nat.lt_trans small (by decide)
  · intro entry isEntry
    rcases mem entry isEntry with rfl | rfl
    · rintro _ ⟨⟩
      decide
    · exact fun byte isFirst => (unspaced byte isFirst).2
  · rw [← Option.not_isSome_iff_eq_none, Headers.isSome_find_iff]
    rintro ⟨entry, isEntry, isKey⟩
    rcases mem entry isEntry with rfl | rfl
    · exact absurd isKey (by decide)
    · exact absurd (show foldCase (ascii "Server") = _ from isKey) (by decide)
  · exact Nat.lt_trans small (by decide)

/-- A turn: a request, cut behind its twentieth byte, and the page in one segment. -/
def pageTurn (close : Bool) : Turn :=
  let request := { sampleRequest .get (ascii "wyze sylar") with close := close }
  { request := request
    there := [request.toString.take 20, request.toString.drop 20]
    back := [((notFoundServer (ascii "wyze/1.0.0")).respond (arrived request)).toString] }

theorem sound_pageTurn (close : Bool) :
    (pageTurn close).Sound (notFoundServer (ascii "wyze/1.0.0")) := by
  have sample := printable_sampleRequest .get
    (forall_mem_of_all (show (ascii "wyze sylar").all _ = true by decide)) (by rintro _ ⟨⟩; decide)
  have printable : (pageTurn close).request.Printable false :=
    ⟨sample.version, sample.path, sample.query, sample.fragment, sample.headers, sample.body⟩
  have inGrammar : (pageTurn close).request.method.InGrammar :=
    ⟨show HttpMethod.get ≠ .invalidMethod by decide, show HttpMethod.get ≠ .msearch by decide⟩
  have unbarred : (pageTurn close).request.Unbarred := by
    intro entry mem
    rw [show entry = (ascii "Host", ascii "wyze sylar") from @mem_sampleRequest .get _ _ mem]
    exact forall_mem_of_all (by decide)
  refine ⟨⟨printable, inGrammar, unbarred, ?_,
      show ((ascii "body").length : Int) ≤ toInt64 defaultConfig.maxBodySize by decide,
      show (ascii "body").length < 2 ^ 31 by decide⟩, ?_, ?_,
    answerable_notFound (forall_mem_of_all (by decide)) (by rintro _ ⟨⟩; decide) printable, ?_, ?_⟩
  · cases close <;> decide +kernel
  · show [_, _].flatten = _
    rw [List.flatten_cons, List.flatten_singleton]
    exact List.take_append_drop _ _
  · cases close <;> (unfold Proper; decide +kernel)
  · exact List.flatten_singleton
  · cases close <;> (unfold Proper; decide +kernel)

theorem conversation_page :
    List.Forall₂
        (fun turn handled => ComesThrough turn.request handled.1 ∧
          handled.2 = (notFoundServer (ascii "wyze/1.0.0")).respond handled.1)
        ((notFoundServer (ascii "wyze/1.0.0")).handled [pageTurn false, pageTurn true])
        ((notFoundServer (ascii "wyze/1.0.0")).serve
          ([pageTurn false, pageTurn true].map Turn.there).flatten) ∧
      ((∃ responses,
          recvResponses defaultConfig
            ((notFoundServer (ascii "wyze/1.0.0")).handled [pageTurn false, pageTurn true]).length
            ⟨[], (((notFoundServer (ascii "wyze/1.0.0")).handled
              [pageTurn false, pageTurn true]).map Turn.back).flatten⟩ = .ok responses ∧
          List.Forall₂ (fun handled response => ComesBack handled.2 response)
            ((notFoundServer (ascii "wyze/1.0.0")).serve
              ([pageTurn false, pageTurn true].map Turn.there).flatten) responses) ↔
        ∀ turn ∈ (notFoundServer (ascii "wyze/1.0.0")).handled [pageTurn false, pageTurn true],
          Lands defaultConfig ((notFoundServer (ascii "wyze/1.0.0")).answer turn) turn.back) :=
  conversation_iff (notFoundServer (ascii "wyze/1.0.0")) defaultConfig [pageTurn false, pageTurn true]
    (List.forall_mem_cons.mpr ⟨sound_pageTurn false,
      List.forall_mem_singleton.mpr (sound_pageTurn true)⟩)

end Wyze.Http
