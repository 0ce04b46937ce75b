/-! # Why a node refuses

Whatever a node does not do, it says why. Each cause has a stable code, a text, and the status of
the reply that carries it; most refusals are ordinary replies, so that a client can tell "this
write did not happen" from "the server is out of reach".
-/

namespace QuorumStore

/-- What is wrong with a request. -/
inductive Malformation where
  /-- The body is no JSON text of the expected message. -/
  | body
  | keyTooShort
  | keyTooLong
  /-- The value is a string that holds no JSON text. -/
  | valueText
  /-- The value is neither an object nor the tombstone text. -/
  | valueShape
  | versionMissing
  | versionInvalid
  /-- A fault in words of its own. -/
  | other (text : String)
  deriving Repr, DecidableEq

def Malformation.text : Malformation → String
  | .body => "invalid request body"
  | .keyTooShort => "payload.key: length is lower than 1\n"
  | .keyTooLong => "payload.key: length is greater than 1024\n"
  | .valueText => "value is not valid JSON"
  | .valueShape => "value must be a JSON object or \"__DELETE__\""
  | .versionMissing => "value is missing version_number"
  | .versionInvalid => "version_number must be a non-negative integer"
  | .other text => text

/-- Why a node refuses a request. -/
inductive NodeError where
  /-- The token was not accepted. -/
  | invalidToken
  /-- The write is based on a version that is not the current one. -/
  | versionMismatch (current supplied : Nat)
  /-- This node does not lead; it names the leader it knows. -/
  | notLeader (leader : Option String)
  /-- The write was not confirmed in time. It may still commit. -/
  | replicationTimeout
  /-- A message from an earlier term. -/
  | staleTerm (received current : Nat)
  | notFound
  | malformedRequest (why : Malformation)
  | internal
  deriving Repr, DecidableEq

namespace NodeError

def code : NodeError → String
  | .invalidToken => "InvalidToken"
  | .versionMismatch .. => "VersionMismatch"
  | .notLeader _ => "NotLeader"
  | .replicationTimeout => "ReplicationTimeout"
  | .staleTerm .. => "StaleTerm"
  | .notFound => "NotFound"
  | .malformedRequest _ => "MalformedRequest"
  | .internal => "InternalError"

def text : NodeError → String
  | .invalidToken => "Invalid token"
  | .versionMismatch .. => "Version mismatch"
  | .notLeader _ => "Not the leader"
  | .replicationTimeout => "Write was not committed within the replication timeout"
  | .staleTerm received current => s!"Stale term {received} (current term {current})"
  | .notFound => "Key not found"
  | .malformedRequest why => why.text
  | .internal => "Internal error"

def status : NodeError → Nat
  | .staleTerm .. => 409
  | .malformedRequest _ => 400
  | .internal => 500
  | _ => 200

end NodeError

end QuorumStore
