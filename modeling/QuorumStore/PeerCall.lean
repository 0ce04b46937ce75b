import QuorumStore.Http.Basic
import QuorumStore.Json.Reading
import QuorumStore.Message.Heartbeat
import QuorumStore.Message.Vote
/-! # Calls to peers

A member asks its peers for votes and sends them heartbeats. A call fails if no answer comes, if the
answer is an error, or if it cannot be read; the member takes all three for silence.
-/

namespace QuorumStore

/-- Why a call to a peer failed. -/
inductive PeerFault where
  /-- No answer came, or one that says the call failed. -/
  | failed (url : String)
  /-- An answer came that is none to this call. -/
  | undecodable (url : String)
  deriving Repr, DecidableEq

def PeerFault.text : PeerFault → String
  | .failed url => "POST " ++ url
  | .undecodable url => "decoding reply from " ++ url

/-- Whether an answer says that its request failed. -/
def HttpAnswer.isError (a : HttpAnswer) : Bool := 400 ≤ a.status && a.status < 600

/-- The reply that came for a call to an address. -/
def peerReply {α : Type} (read : Json.Reading α) (url : String) :
    Option HttpAnswer → Except PeerFault α
  | none => .error (.failed url)
  | some answer =>
    if answer.isError then .error (.failed url)
    else
      match Json.decode? read (Utf8.scan answer.body) with
      | some reply => .ok reply
      | none => .error (.undecodable url)

/-- Calls a peer. -/
def callPeer {m : Type → Type} [Monad m] {α : Type} (wire : Wire m) (read : Json.Reading α)
    (peer : String) (r : HttpRequest) : m (Except PeerFault α) := do
  return peerReply read (r.url peer) (← wire peer r)

def VoteRequest.call (r : VoteRequest) : HttpRequest := .json "POST" "/vote_req" r.toJson

def HeartbeatRequest.call (r : HeartbeatRequest) : HttpRequest := .json "POST" "/heartbeat" r.toJson

def askVote {m : Type → Type} [Monad m] (wire : Wire m) (peer : String) (r : VoteRequest) :
    m (Except PeerFault VoteReply) :=
  callPeer wire VoteReply.reading peer r.call

def sendHeartbeat {m : Type → Type} [Monad m] (wire : Wire m) (peer : String)
    (r : HeartbeatRequest) : m (Except PeerFault HeartbeatReply) :=
  callPeer wire HeartbeatReply.reading peer r.call

end QuorumStore
