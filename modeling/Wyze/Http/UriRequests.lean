/-
**The requests that are built from a `Uri`.**

`HttpConnection::DoRequest` puts the parts of the URI into the request, and the pool makes one text of
them for `setPath`. Both take the headers of the caller one by one. `uri_requests_iff` compares what is
issued: the pool begins its text with the host, and its `doPost` asks for GET.

* `HttpRequest.requestTarget`: what `dump` prints between the method and the version.
* `toString_target`: where it stands in the printed request.
* `sameLine_addHeaders`: the loops over the headers leave method and target.
-/
import Wyze.Http.Message
import Wyze.Uri.Parser

namespace Wyze.Http

open Message

/-- The request target that `dump` prints. -/
def Message.HttpRequest.requestTarget (request : Message.HttpRequest) : List UInt8 :=
  request.path ++ (if request.query = [] then [] else ascii "?") ++ request.query ++
    (if request.fragment = [] then [] else ascii "#") ++ request.fragment

/-- **`dump` prints method and target** in the first line. -/
theorem toString_target (request : Message.HttpRequest) :
    request.toString = httpMethodToString request.method ++ ascii " " ++ request.requestTarget ++
      ascii " " ++ printVersion request.version ++ crlf ++
      (ascii "connection: " ++ ascii (if request.close then "close" else "keep-alive") ++ crlf ++
        printHeaders request.headers ++ printBody request.body) := by
  simp only [Message.HttpRequest.toString, Message.HttpRequest.requestTarget, List.append_assoc]

/-! ### The loops over the headers -/

/-- The locals of a loop over `headers`; the pool calls `find_connection` `find_close`. -/
structure HeaderLoop where
  request : Message.HttpRequest
  hasHost : Bool
  findConnection : Bool
  findHost : Bool

/-- `strcasecmp` says that two texts are the same. -/
def sameNoCase (first second : List UInt8) : Bool := foldCase first = foldCase second

namespace HeaderLoop

def start (request : Message.HttpRequest) : HeaderLoop := ⟨request, false, false, false⟩

/-- The end of a round: the first `host` is looked at, and the header is set. -/
def set (loop : HeaderLoop) (name value : List UInt8) : HeaderLoop :=
  let request := { loop.request with headers := loop.request.headers.setHeader name value }
  if !loop.findHost && sameNoCase name (ascii "host") then
    { loop with request := request, hasHost := !value.isEmpty, findHost := true }
  else { loop with request := request }

/-- A round of `HttpConnection::DoRequest`. -/
def connectionRound (loop : HeaderLoop) : List UInt8 × List UInt8 → HeaderLoop
  | (name, value) =>
    if !loop.findConnection && sameNoCase name (ascii "connection") then
      let request := if sameNoCase value (ascii "keep-alive")
        then { loop.request with close := false } else loop.request
      { loop with request := request, findConnection := true }
    else loop.set name value

/-- A round of `HttpConnectionPool::doRequest`. -/
def poolRound (loop : HeaderLoop) : List UInt8 × List UInt8 → HeaderLoop
  | (name, value) =>
    if !loop.findConnection && sameNoCase name (ascii "connection") then
      { loop with findConnection := true }
    else loop.set name value

/-- After the loop: the host of the caller or the default one, and the body. -/
def finish (loop : HeaderLoop) (host body : List UInt8) : Message.HttpRequest :=
  let request := if loop.hasHost then loop.request
    else { loop.request with headers := loop.request.headers.setHeader (ascii "host") host }
  { request with body := body }

end HeaderLoop

/-! ### `HttpConnection` -/

namespace HttpConnection

/-- `DoRequest` of a URI, up to the request it sends. -/
def doRequest (method : HttpMethod) (uri : Uri) (headers : List (List UInt8 × List UInt8))
    (body : List UInt8) : Message.HttpRequest :=
  let request := { Message.HttpRequest.new with
    path := uri.getPath, query := uri.query, fragment := uri.fragment, method := method }
  (headers.foldl HeaderLoop.connectionRound (.start request)).finish uri.host body

/-- `DoGet` of a URI. -/
def doGet (uri : Uri) (headers : List (List UInt8 × List UInt8)) (body : List UInt8) :
    Message.HttpRequest :=
  doRequest .get uri headers body

/-- `DoPost` of a URI. -/
def doPost (uri : Uri) (headers : List (List UInt8 × List UInt8)) (body : List UInt8) :
    Message.HttpRequest :=
  doRequest .post uri headers body

end HttpConnection

/-! ### `HttpConnectionPool` -/

namespace HttpConnectionPool

/-- The names a pool has for its host: `m_host` and `m_vhost`. -/
structure Names where
  host : List UInt8
  vhost : List UInt8

/-- `doRequest` of a text, up to the request it sends. -/
def doRequestText (pool : Names) (method : HttpMethod) (url : List UInt8)
    (headers : List (List UInt8 × List UInt8)) (body : List UInt8) : Message.HttpRequest :=
  let request := { Message.HttpRequest.new with path := url, method := method, close := false }
  (headers.foldl HeaderLoop.poolRound (.start request)).finish
    (if pool.vhost.isEmpty then pool.host else pool.vhost) body

/-- The text that the overloads for a URI make of it. -/
def uriText (uri : Uri) : List UInt8 :=
  uri.host ++ (if uri.query = [] then [] else ascii "?") ++ uri.query ++
    (if uri.fragment = [] then [] else ascii "#") ++ uri.fragment

/-- `doGet` of a URI. -/
def doGet (pool : Names) (uri : Uri) (headers : List (List UInt8 × List UInt8))
    (body : List UInt8) : Message.HttpRequest :=
  doRequestText pool .get (uriText uri) headers body

/-- `doPost` of a URI. -/
def doPost (pool : Names) (uri : Uri) (headers : List (List UInt8 × List UInt8))
    (body : List UInt8) : Message.HttpRequest :=
  doRequestText pool .get (uriText uri) headers body

/-- `doRequest` of a URI. -/
def doRequest (pool : Names) (method : HttpMethod) (uri : Uri)
    (headers : List (List UInt8 × List UInt8)) (body : List UInt8) : Message.HttpRequest :=
  doRequestText pool method (uriText uri) headers body

end HttpConnectionPool

/-! ### Method and target -/

/-- Two requests have the same method and the same target. -/
def SameLine (first second : Message.HttpRequest) : Prop :=
  first.method = second.method ∧ first.requestTarget = second.requestTarget

theorem SameLine.trans {first second third : Message.HttpRequest} (front : SameLine first second)
    (back : SameLine second third) : SameLine first third :=
  ⟨front.1.trans back.1, front.2.trans back.2⟩

theorem sameLine_set (loop : HeaderLoop) (name value : List UInt8) :
    SameLine (loop.set name value).request loop.request := by
  rw [HeaderLoop.set]
  dsimp only
  split <;> exact ⟨rfl, rfl⟩

theorem sameLine_connectionRound (loop : HeaderLoop) (entry : List UInt8 × List UInt8) :
    SameLine (loop.connectionRound entry).request loop.request := by
  rw [HeaderLoop.connectionRound]
  split
  · dsimp only
    split <;> exact ⟨rfl, rfl⟩
  · exact sameLine_set loop _ _

theorem sameLine_poolRound (loop : HeaderLoop) (entry : List UInt8 × List UInt8) :
    SameLine (loop.poolRound entry).request loop.request := by
  rw [HeaderLoop.poolRound]
  split
  · exact ⟨rfl, rfl⟩
  · exact sameLine_set loop _ _

theorem sameLine_finish (loop : HeaderLoop) (host body : List UInt8) :
    SameLine (loop.finish host body) loop.request := by
  rw [HeaderLoop.finish]
  dsimp only
  split <;> exact ⟨rfl, rfl⟩

/-- **The headers change neither method nor target.** -/
theorem sameLine_addHeaders {round : HeaderLoop → List UInt8 × List UInt8 → HeaderLoop}
    (keeps : ∀ loop entry, SameLine (round loop entry).request loop.request)
    (headers : List (List UInt8 × List UInt8)) (loop : HeaderLoop) (host body : List UInt8) :
    SameLine ((headers.foldl round loop).finish host body) loop.request := by
  induction headers generalizing loop with
  | nil => exact sameLine_finish loop host body
  | cons entry headers ih => exact (ih (round loop entry)).trans (keeps loop entry)

/-- What comes behind the path in a target. -/
def targetRest (uri : Uri) : List UInt8 :=
  (if uri.query = [] then [] else ascii "?") ++ uri.query ++
    (if uri.fragment = [] then [] else ascii "#") ++ uri.fragment

/-- **`HttpConnection` asks for path, query and fragment** with the method it is called with. -/
theorem connection_line (method : HttpMethod) (uri : Uri) (headers : List (List UInt8 × List UInt8))
    (body : List UInt8) :
    (HttpConnection.doRequest method uri headers body).method = method ∧
      (HttpConnection.doRequest method uri headers body).requestTarget =
        uri.getPath ++ targetRest uri := by
  obtain ⟨sameMethod, sameTarget⟩ := sameLine_addHeaders sameLine_connectionRound headers
    (.start { Message.HttpRequest.new with
      path := uri.getPath, query := uri.query, fragment := uri.fragment, method := method })
    uri.host body
  refine ⟨sameMethod, sameTarget.trans ?_⟩
  simp only [HeaderLoop.start, Message.HttpRequest.requestTarget, targetRest, List.append_assoc]
  rfl

/-- **The pool asks for host, query and fragment.** -/
theorem pool_line (pool : HttpConnectionPool.Names) (method : HttpMethod) (uri : Uri)
    (headers : List (List UInt8 × List UInt8)) (body : List UInt8) :
    (HttpConnectionPool.doRequest pool method uri headers body).method = method ∧
      (HttpConnectionPool.doRequest pool method uri headers body).requestTarget =
        uri.host ++ targetRest uri := by
  obtain ⟨sameMethod, sameTarget⟩ := sameLine_addHeaders sameLine_poolRound headers
    (.start { Message.HttpRequest.new with
      path := HttpConnectionPool.uriText uri, method := method, close := false })
    (if pool.vhost.isEmpty then pool.host else pool.vhost) body
  refine ⟨sameMethod, sameTarget.trans ?_⟩
  simp [HeaderLoop.start, Message.HttpRequest.requestTarget, HttpConnectionPool.uriText, targetRest,
    Message.HttpRequest.new]

/-- A request has the asked method and the target of another one. -/
def Issues (method : HttpMethod) (issued built : Message.HttpRequest) : Prop :=
  issued.method = method ∧ issued.requestTarget = built.requestTarget

variable (pool : HttpConnectionPool.Names) (uri : Uri) (headers : List (List UInt8 × List UInt8))
  (body : List UInt8)

theorem issues_doRequest_iff (method : HttpMethod) :
    Issues method (HttpConnectionPool.doRequest pool method uri headers body)
      (HttpConnection.doRequest method uri headers body) ↔ uri.host = uri.getPath := by
  rw [Issues, (pool_line pool method uri headers body).2,
    (connection_line method uri headers body).2, List.append_left_inj]
  exact and_iff_right (pool_line pool method uri headers body).1

/-- **When the pool issues the request of `HttpConnection`**: `doGet` and `doRequest` exactly for a
URI whose host is its path, and `doPost` for none. -/
theorem uri_requests_iff :
    (Issues .get (HttpConnectionPool.doGet pool uri headers body)
      (HttpConnection.doGet uri headers body) ↔ uri.host = uri.getPath) ∧
    ¬ Issues .post (HttpConnectionPool.doPost pool uri headers body)
      (HttpConnection.doPost uri headers body) ∧
    ∀ method, Issues method (HttpConnectionPool.doRequest pool method uri headers body)
      (HttpConnection.doRequest method uri headers body) ↔ uri.host = uri.getPath := by
  refine ⟨issues_doRequest_iff pool uri headers body .get, ?_,
    issues_doRequest_iff pool uri headers body⟩
  rintro ⟨isPost, _⟩
  have isGet : (HttpConnectionPool.doPost pool uri headers body).method = .get :=
    (pool_line pool .get uri headers body).1
  rw [isGet] at isPost
  cases isPost

/-- The pool asks for `www.sylar.top?id=1` where the connection asks for `/blog?id=1`. -/
theorem uri_requests_host :
    let uri : Uri := ⟨ascii "http", [], ascii "www.sylar.top", ascii "/blog", ascii "id=1", [], 0⟩
    ¬ Issues .get (HttpConnectionPool.doGet ⟨ascii "www.sylar.top", []⟩ uri [] [])
      (HttpConnection.doGet uri [] []) :=
  fun same => absurd same.2 (by decide)

end Wyze.Http
