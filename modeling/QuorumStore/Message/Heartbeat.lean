import QuorumStore.Message.Entry
/-! # Heartbeat messages

A heartbeat tells a follower who leads, what is committed, and which entries it may lack. Without
entries it is a sign of life only.
-/

namespace QuorumStore

/-- A leader's message to one peer. -/
structure HeartbeatRequest where
  term : Nat
  commit : Nat
  leader : String
  /-- The position before the entries sent along. -/
  prevIndex : Nat
  /-- The term of the leader's entry at that position. -/
  prevTerm : Nat
  entries : Log
  deriving Repr, DecidableEq

structure HeartbeatReply where
  term : Nat
  commit : Nat
  success : Bool
  /-- After a success the last position that matches the leader's log, otherwise a hint where the
      leader should go on. -/
  matched : Nat
  deriving Repr, DecidableEq

namespace HeartbeatRequest

/-- The last position that the entries sent along cover. -/
def lastIndex (r : HeartbeatRequest) : Nat := r.prevIndex + r.entries.length

def toJson (r : HeartbeatRequest) : Json :=
  .object
    [("term", .ofNat r.term), ("commitIdx", .ofNat r.commit), ("leader", .string r.leader),
      ("prevIdx", .ofNat r.prevIndex), ("prevTerm", .ofNat r.prevTerm),
      ("entries", .array (r.entries.map Entry.toJson))]

def reading : Json.Reading HeartbeatRequest :=
  Json.record ["term", "commitIdx", "leader", "prevIdx", "prevTerm", "entries"]
    fun depth fields =>
      match fields with
      | [term, commit, leader, prevIndex, prevTerm, entries] => do
        let term ← Json.required .natural depth term
        let commit ← Json.required .natural depth commit
        let leader ← Json.required .string depth leader
        let prevIndex ← Json.optional .natural 0 depth prevIndex
        let prevTerm ← Json.optional .natural 0 depth prevTerm
        let entries ← Json.optional (.list Entry.reading) [] depth entries
        return { term, commit, leader, prevIndex, prevTerm, entries }
      | _ => none

end HeartbeatRequest

namespace HeartbeatReply

def toJson (r : HeartbeatReply) : Json :=
  .object
    [("term", .ofNat r.term), ("commitIdx", .ofNat r.commit), ("success", .bool r.success),
      ("matchIdx", .ofNat r.matched)]

def reading : Json.Reading HeartbeatReply :=
  Json.record ["term", "commitIdx", "success", "matchIdx"] fun depth fields =>
    match fields with
    | [term, commit, success, matched] => do
      let term ← Json.required .natural depth term
      let commit ← Json.required .natural depth commit
      let success ← Json.optional .bool false depth success
      let matched ← Json.optional .natural 0 depth matched
      return { term, commit, success, matched }
    | _ => none

end HeartbeatReply

end QuorumStore
