import QuorumStore.Http.Basic
import QuorumStore.Server.Values
import QuorumStore.Message.Heartbeat
import QuorumStore.Message.Status
/-! # Routes

What a member serves over HTTP: values for clients, the two calls of its peers, and its health and
metrics for operators. The path decides before the method does, and whatever comes of a request is
counted, except for requests for the metrics themselves.
-/

namespace QuorumStore

/-- What a response carries. -/
inductive Body where
  | empty
  | json (j : Json)
  | text (s : String)
  /-- The exposition of some metrics. -/
  | metrics (m : Metrics)

structure HttpResponse where
  status : Nat
  body : Body
  contentType : Option String := none
  /-- The methods that would have been allowed. -/
  allow : Option String := none

def serverName : String := "blockserver"

namespace HttpResponse

def json (status : Nat) (j : Json) : HttpResponse :=
  { status, body := .json j, contentType := some "application/json" }

/-- A response that people read. -/
def plain (status : Nat) (s : String) : HttpResponse :=
  { status, body := .text s, contentType := some "text/plain; charset=utf-8" }

def refusal (e : NodeError) : HttpResponse := .json e.status (ClientReply.failure e).toJson

def ofOutcome : Except NodeError RecordPayload → HttpResponse
  | .ok payload => .json 200 (ClientReply.success payload).toJson
  | .error e => .refusal e

/-- The same response without its body; of an exposition the empty one is left. -/
def withoutBody (r : HttpResponse) : HttpResponse :=
  match r.body with
  | .metrics _ => { r with body := .metrics [] }
  | _ => { r with body := .empty }

/-- The exposition of the metrics, in the version of its format that is served. -/
def exposition (m : Metrics) : HttpResponse :=
  { status := 200, body := .metrics m, contentType := some "text/plain; version=0.0.4" }

def notFound : HttpResponse := { status := 404, body := .empty }

def wrongMethod (allow : String) : HttpResponse := { status := 405, body := .empty, allow }

/-- The body is longer than a server is willing to read. -/
def tooLarge : HttpResponse :=
  .plain 413 "Failed to buffer the request body: length limit exceeded"

end HttpResponse

inductive Route where
  | health
  | metrics
  | values
  | vote
  | heartbeat
  deriving Repr, DecidableEq

namespace Route

/-- The path of a target, without its query. -/
def path (target : String) : String :=
  String.ofList (target.toList.takeWhile fun c => c != '?' && c != '#')

def ofPath? : String → Option Route
  | "/health" => some .health
  | "/metrics" => some .metrics
  | "/request" => some .values
  | "/vote_req" => some .vote
  | "/heartbeat" => some .heartbeat
  | _ => none

/-- The path under which requests are counted. Unknown paths share one, or strangers could make
    the metrics grow without bound. -/
def label : Option Route → String
  | some .health => "/health"
  | some .metrics => "/metrics"
  | some .values => "/request"
  | some .vote => "/vote_req"
  | some .heartbeat => "/heartbeat"
  | none => "/other"

def allow : Route → String
  | .health | .metrics => "GET,HEAD"
  | .values => "GET,HEAD,PUT"
  | .vote | .heartbeat => "POST"

end Route

/-- How many bytes of a body are read at most. -/
def maxBody : Nat := 2097152

/-- What a server is set up with. -/
structure Server where
  verify : Verifier
  exposing : Bool

/-- What became of a request for now. -/
inductive Reception where
  | answered (r : HttpResponse)
  | waits (staged : Staged) (operation : Operation)

/-- The outcome under which an operation is counted. -/
def outcomeName {α : Type} : Except NodeError α → String
  | .ok _ => "success"
  | .error e => e.code

namespace Member

def countOperation {α : Type} (operation : String) (outcome : Except NodeError α) (m : Member) :
    Member :=
  m.count .operations [("operation", operation), ("outcome", outcomeName outcome)]

def countRequest (method : String) (route : Option Route) (status : Nat) (m : Member) : Member :=
  if route = some .metrics then m
  else
    m.count .requests
      [("method", method), ("path", Route.label route), ("status", Decimal.text status)]

def serveRead (verify : Verifier) (body : List UInt8) (m : Member) : HttpResponse × Member :=
  let outcome := readValue verify body m.node
  (.ofOutcome outcome, m.countOperation "get" outcome)

/-- Takes in a write request. -/
def serveWrite (verify : Verifier) (body : List UInt8) (m : Member) : Reception × Member :=
  match stageValue verify body m with
  | (operation, .error e) =>
    (.answered (.refusal e), m.countOperation operation.name (.error e : Except NodeError Unit))
  | (operation, .ok (staged, m)) => (.waits staged operation, m)

def serveVote (t : Moment) (body : List UInt8) (m : Member) : HttpResponse × Member :=
  match decodeBody VoteRequest.reading body with
  | .error e => (.refusal e, m)
  | .ok r =>
    let (reply, m) := m.decideVote t r
    (.json 200 reply.toJson, m)

def serveHeartbeat (t : Moment) (body : List UInt8) (m : Member) : HttpResponse × Member :=
  match decodeBody HeartbeatRequest.reading body with
  | .error e => (.refusal e, m)
  | .ok r =>
    let (reply, m) := m.handleHeartbeat t r
    (.json 200 reply.toJson, m)

/-- The health of a member: it is well, and this is its status. -/
def health (m : Member) : HttpResponse :=
  .json 200 (.object (("status", .string "ok") :: m.node.status.members))

end Member

namespace Server

/-- Serves a request that is answered at once. `none` if the route has no such method. -/
def answer? (s : Server) (t : Moment) (route : Route) (r : HttpRequest) (m : Member) :
    Option (HttpResponse × Member) :=
  let reading := r.method = "GET" ∨ r.method = "HEAD"
  let large := maxBody < r.body.length
  match route with
  | .health => if reading then some (m.health, m) else none
  | .metrics =>
    if reading then
      some (if s.exposing then .exposition m.metrics else .plain 404 "metrics disabled", m)
    else none
  | .values =>
    if reading then
      some (if large then (.tooLarge, m) else m.serveRead s.verify r.body)
    else none
  | .vote =>
    if r.method = "POST" then
      some (if large then (.tooLarge, m) else m.serveVote t r.body)
    else none
  | .heartbeat =>
    if r.method = "POST" then
      some (if large then (.tooLarge, m) else m.serveHeartbeat t r.body)
    else none

/-- Takes in a request for a route, before it is counted. -/
def dispatch (s : Server) (t : Moment) (route : Option Route) (r : HttpRequest) (m : Member) :
    Reception × Member :=
  match route with
  | none => (.answered .notFound, m)
  | some route =>
    if route = .values ∧ r.method = "PUT" then
      if maxBody < r.body.length then (.answered .tooLarge, m) else m.serveWrite s.verify r.body
    else
      match s.answer? t route r m with
      | some (response, m) =>
        (.answered (if r.method = "HEAD" then response.withoutBody else response), m)
      | none => (.answered (.wrongMethod route.allow), m)

/-- Takes in a request. One that is answered is counted; a write counts when its verdict is
    there. -/
def receive (s : Server) (t : Moment) (r : HttpRequest) (m : Member) : Reception × Member :=
  let route := Route.ofPath? (Route.path r.target)
  match s.dispatch t route r m with
  | (.answered response, m) =>
    (.answered response, m.countRequest r.method route response.status)
  | (.waits staged operation, m) => (.waits staged operation, m)

end Server

/-- Answers a write request when its outcome is known. -/
def Member.finishWrite (staged : Staged) (operation : Operation)
    (outcome : Except NodeError Record) (m : Member) : HttpResponse × Member :=
  let response := HttpResponse.ofOutcome (outcome.map fun _ => staged.payload)
  (response, (m.countOperation operation.name outcome).countRequest "PUT" (some .values)
    response.status)

end QuorumStore
