import QuorumStore.Server.Access
import QuorumStore.Member
/-! # Reading and writing values

Every request runs through its checks in a fixed order, and the first that fails decides the reply.
A write that passes them all is staged; its reply waits until it is committed.
-/

namespace QuorumStore

/-- The payload that a read request asks for. -/
def readValue (verify : Verifier) (body : List UInt8) (n : Node) :
    Except NodeError RecordPayload := do
  let request ← decodeBody GetRequest.reading body
  checkKey request.key
  n.ensureLeader
  let principal ← authorize verify request.token
  let key := Key.owned principal request.key
  match ← n.read key with
  | some record => return .ofRecord key record
  | none => throw .notFound

/-- What a write request turns out to be. -/
inductive Operation where
  | put
  | delete
  deriving Repr, DecidableEq

def Operation.name : Operation → String
  | .put => "put"
  | .delete => "delete"

/-- A write request that passed the checks up to its value. -/
structure Proposal where
  requested : String
  submission : Submission
  /-- The token of the request; the one inside the value counts if there is none. -/
  token : String

/-- Reads a write request as far as it can be told whether it deletes. -/
def readProposal (body : List UInt8) (n : Node) : Except NodeError Proposal := do
  let request ← decodeBody PutRequest.reading body
  checkKey request.key
  n.ensureLeader
  let submission ← takeApart request.value
  return ⟨request.key, submission, (request.token.or submission.token).getD ""⟩

/-- The operation of a proposal. -/
def Proposal.operation (p : Proposal) : Operation :=
  match p.submission.write with
  | .delete => .delete
  | .upsert .. => .put

/-- A staged write whose client waits for a verdict. -/
structure Staged where
  key : String
  record : Record
  ticket : Nat
  deriving Repr, DecidableEq

/-- The payload of the reply once the write is committed. -/
def Staged.payload (s : Staged) : RecordPayload := .ofRecord s.key s.record

/-- What has come of a staged write: its record, the news that nobody can tell, or nothing yet. -/
def Staged.outcome? (s : Staged) (n : Node) (expired : Bool) : Option (Except NodeError Record) :=
  match n.verdict s.ticket with
  | .committed => some (.ok s.record)
  | .dropped => some (.error .replicationTimeout)
  | .pending => if expired then some (.error .replicationTimeout) else none

/-- Stages what a proposal asks for under the name of its principal. -/
def Proposal.stage (verify : Verifier) (p : Proposal) (m : Member) :
    Except NodeError (Staged × Member) := do
  let principal ← authorize verify p.token
  let key := Key.owned principal p.requested
  let ((record, ticket), m) ← m.put key p.submission.write
  return (⟨key, record, ticket⟩, m)

/-- Stages what a write request asks for. As long as its value is unknown it counts as a put. -/
def stageValue (verify : Verifier) (body : List UInt8) (m : Member) :
    Operation × Except NodeError (Staged × Member) :=
  match readProposal body m.node with
  | .error e => (.put, .error e)
  | .ok p => (p.operation, p.stage verify m)

end QuorumStore
