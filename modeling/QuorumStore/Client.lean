import QuorumStore.Http.Basic
import QuorumStore.Message.Client
/-! # Clients

A client knows some members, but not which of them leads. It asks them in turn, goes where a reply
points it to, and pauses for longer and longer while nobody knows a leader. A reply that is not
about leadership ends the request, whether it is a good one or a bad one.
-/

namespace QuorumStore

/-- What a request came to. -/
inductive ClientOutcome where
  | granted (record : RecordPayload)
  | refused (error message : String)
  deriving Repr, DecidableEq

/-- Why a call brought no reply. -/
inductive CallFault where
  | unanswered (url : String)
  /-- What came is no reply to a client. -/
  | undecodable
  deriving Repr, DecidableEq

def CallFault.text : CallFault → String
  | .unanswered url => "error sending request for url (" ++ url ++ ")"
  | .undecodable => "error decoding response body"

/-- Why a request came to nothing. -/
inductive ClientError where
  | noServers
  /-- All attempts were made. The fault is that of the last call which brought no reply. -/
  | noLeader (attempts : Nat) (fault : Option CallFault)
  deriving Repr, DecidableEq

def ClientError.text : ClientError → String
  | .noServers => "no server list given"
  | .noLeader attempts _ => "no leader reachable after " ++ Decimal.text attempts ++ " attempts"

/-- The reply that a call brought. What its status says does not count. -/
def clientReply (url : String) : Option HttpAnswer → Except CallFault ClientReply
  | none => .error (.unanswered url)
  | some answer =>
    match Json.decode? ClientReply.reading (Utf8.scan answer.body) with
    | some reply => .ok reply
    | none => .error .undecodable

/-- The leader that a reply points to, in either of the two places where it may stand. -/
def ClientReply.leader? (r : ClientReply) : Option String :=
  (r.redirect.or (r.payload.bind fun p => (p.get? "message").bind Json.string?)).filter (· ≠ "")

/-! ## Attempts -/

def maxRedirects : Nat := 4

/-- The first pause, in milliseconds. -/
def firstPause : Nat := 50

/-- The longest pause, in milliseconds. -/
def longestPause : Nat := 2000

/-- Where the attempts of a request stand. -/
structure Retry where
  /-- Where the last reply pointed to, if it is to be followed. -/
  leader : Option String
  /-- How many calls went to servers in their turn. -/
  turns : Nat
  redirects : Nat
  pause : Nat
  /-- The fault of the last call that brought no reply. -/
  fault : Option CallFault
  deriving Repr, DecidableEq

/-- What comes after an attempt. -/
inductive Attempt where
  | ended (outcome : ClientOutcome)
  /-- Another attempt, perhaps after a pause. -/
  | again (pause : Option Nat) (r : Retry)
  deriving Repr, DecidableEq

namespace Retry

def start : Retry := ⟨none, 0, 0, firstPause, none⟩

def follow (leader : String) (r : Retry) : Retry :=
  { r with leader := some leader, redirects := r.redirects + 1 }

/-- Pauses, and doubles the next pause up to the longest one. -/
def backOff (r : Retry) : Attempt :=
  .again (some r.pause) { r with pause := min (2 * r.pause) longestPause }

/-- Takes in what a call to a server brought. -/
def hear (server : String) (reply : Except CallFault ClientReply) (r : Retry) : Attempt :=
  match reply with
  | .error fault => .again none { r with fault := some fault }
  | .ok reply =>
    match reply.code with
    | .success =>
      .ended (.granted ((reply.payload.bind RecordPayload.ofJson?).getD ⟨"", ""⟩))
    | .fail =>
      let error := reply.error.getD ""
      if error ≠ (NodeError.notLeader none).code then
        .ended (.refused error (reply.message.getD ""))
      else
        match reply.leader? with
        | some leader =>
          if leader ≠ server ∧ r.redirects < maxRedirects then .again none (r.follow leader)
          else r.backOff
        | none => r.backOff

end Retry

/-! ## Requests -/

/-- Someone who reads and writes values. -/
structure Client where
  /-- The members it knows, in the order in which it asks them. -/
  servers : List String
  servers_ne_nil : servers ≠ []
  token : String
  /-- How many calls it makes before it gives up. -/
  attempts : Nat
  attempts_pos : 0 < attempts

namespace Client

def new (servers : List String) (token : String) : Except ClientError Client :=
  if h : servers ≠ [] then .ok ⟨servers, h, token, 8, by decide⟩ else .error .noServers

/-- The same client with another number of attempts, of which there is at least one. -/
def withAttempts (c : Client) (attempts : Nat) : Client :=
  { c with attempts := max attempts 1, attempts_pos := by omega }

def serverAt (c : Client) (turn : Nat) : String :=
  c.servers.get ⟨turn % c.servers.length, Nat.mod_lt _ (List.length_pos_iff.mpr c.servers_ne_nil)⟩

/-- Where the next call goes: to the leader that was pointed to, or to the next server. -/
def target (c : Client) (r : Retry) : String × Retry :=
  match r.leader with
  | some leader => (leader, { r with leader := none })
  | none => (c.serverAt r.turns, { r with turns := r.turns + 1 })

/-- Makes up to a number of attempts. -/
def persist {m : Type → Type} [Monad m] (wire : Wire m) (sleep : Nat → m Unit) (c : Client)
    (request : HttpRequest) : Nat → Retry → m (Except ClientError ClientOutcome)
  | 0, r => return .error (.noLeader c.attempts r.fault)
  | n + 1, r => do
    let (server, r) := c.target r
    let answer ← wire server request
    match r.hear server (clientReply (request.url server) answer) with
    | .ended outcome => return .ok outcome
    | .again none r => persist wire sleep c request n r
    | .again (some pause) r => do
      sleep pause
      persist wire sleep c request n r

def send {m : Type → Type} [Monad m] (wire : Wire m) (sleep : Nat → m Unit) (c : Client)
    (request : HttpRequest) : m (Except ClientError ClientOutcome) :=
  c.persist wire sleep request c.attempts .start

/-- The state after a pause, if there is one. -/
def afterPause {σ : Type} (sleep : Nat → StateM σ Unit) (s : σ) : Option Nat → σ
  | none => s
  | some pause => ((sleep pause).run s).2

/-- One attempt over a wire with a state, and what comes after it. -/
theorem persist_succ {σ : Type} (wire : Wire (StateM σ)) (sleep : Nat → StateM σ Unit) (c : Client)
    (request : HttpRequest) (attempts : Nat) {server : String} {retry aimed : Retry} (s : σ)
    (target : c.target retry = (server, aimed)) :
    (c.persist wire sleep request (attempts + 1) retry).run s =
      match aimed.hear server (clientReply (request.url server) ((wire server request).run s).1) with
      | .ended outcome => (.ok outcome, ((wire server request).run s).2)
      | .again pause retry' => (c.persist wire sleep request attempts retry').run
        (afterPause sleep ((wire server request).run s).2 pause) := by
  rw [persist, target, StateT.run_bind]
  simp only [bind, pure]
  rcases aimed.hear server (clientReply (request.url server) ((wire server request).run s).1) with
    outcome | ⟨_ | milliseconds, retry'⟩
  · rfl
  · rfl
  · rfl

def valuesPath : String := "/request"

def getRequest (c : Client) (key : String) : HttpRequest :=
  .json "GET" valuesPath (GetRequest.toJson ⟨key, c.token⟩)

/-- Asks to store a text as the value of a key. -/
def putText (c : Client) (key text : String) : HttpRequest :=
  .json "PUT" valuesPath (PutRequest.toJson ⟨key, .string text, some c.token⟩)

/-- Asks to store a document in the place of the version it is based on. -/
def putRequest (c : Client) (key : String) (document : Json.Fields) (version : Nat) :
    HttpRequest :=
  c.putText key (Json.object (document.insert versionField (.ofNat version))).compact

def deleteRequest (c : Client) (key : String) : HttpRequest := c.putText key tombstoneText

end Client

end QuorumStore
