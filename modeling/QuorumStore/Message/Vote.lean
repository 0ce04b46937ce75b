import QuorumStore.Json.Reading
import QuorumStore.Json.Printer
/-! # Vote messages -/

namespace QuorumStore

/-- A candidate asks for a vote. Its log is described by the term of its last entry and by how many
    entries are committed and how many are not. -/
structure VoteRequest where
  term : Nat
  commit : Nat
  staged : Nat
  lastTerm : Nat
  /-- The candidate's address; an anonymous candidate has none. -/
  candidate : Option String
  deriving Repr, DecidableEq

structure VoteReply where
  granted : Bool
  term : Nat
  deriving Repr, DecidableEq

namespace VoteRequest

def toJson (r : VoteRequest) : Json :=
  .object <| Json.Fields.present
    [("term", some (.ofNat r.term)), ("commitIdx", some (.ofNat r.commit)),
      ("staged", some (.ofNat r.staged)), ("lastTerm", some (.ofNat r.lastTerm)),
      ("candidate", r.candidate.map .string)]

def reading : Json.Reading VoteRequest :=
  Json.record ["term", "commitIdx", "staged", "lastTerm", "candidate"] fun depth fields =>
    match fields with
    | [term, commit, staged, lastTerm, candidate] => do
      let term ← Json.required .natural depth term
      let commit ← Json.required .natural depth commit
      let staged ← Json.required .natural depth staged
      let lastTerm ← Json.optional .natural 0 depth lastTerm
      let candidate ← Json.optional (.nullable .string) none depth candidate
      return { term, commit, staged, lastTerm, candidate }
    | _ => none

end VoteRequest

namespace VoteReply

def toJson (r : VoteReply) : Json :=
  .object [("choice", .bool r.granted), ("term", .ofNat r.term)]

def reading : Json.Reading VoteReply :=
  Json.record ["choice", "term"] fun depth fields =>
    match fields with
    | [choice, term] => do
      let granted ← Json.required .bool depth choice
      let term ← Json.required .natural depth term
      return { granted, term }
    | _ => none

end VoteReply

end QuorumStore
