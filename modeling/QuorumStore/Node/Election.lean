import QuorumStore.Counter
import QuorumStore.Node.Basic
import QuorumStore.Message.Vote
import QuorumStore.Quorum
/-! # Votes and leadership

A node gives one vote in a term, and only to a candidate whose log is at least as advanced as its
own. Two majorities share a member, so a term has at most one leader, and that leader holds
whatever a majority held before.
-/

namespace QuorumStore

/-- How far a log has come: the term of its last entry counts first, then its length, then how much
    of it is committed. -/
structure Standing where
  lastTerm : Nat
  length : Nat
  commit : Nat
  deriving Repr, DecidableEq

def Standing.le (a b : Standing) : Bool :=
  a.lastTerm < b.lastTerm ||
    a.lastTerm == b.lastTerm &&
      (a.length < b.length || a.length == b.length && a.commit ≤ b.commit)

/-- The standing a candidate claims, in numbers that may be any. -/
def VoteRequest.standing (r : VoteRequest) : Standing :=
  ⟨r.lastTerm, Counter.add r.commit r.staged, r.commit⟩

namespace Node

def standing (n : Node) : Standing := ⟨n.log.lastTerm, n.lastIndex, n.commit⟩

/-- Whether the vote of this term is out of a candidate's reach. A vote that has been given is given
    again only to the same named candidate. -/
def voteTaken (n : Node) (candidate : Option String) : Bool :=
  match n.votedFor, candidate with
  | none, _ => false
  | some voted, some name => voted != name
  | some _, none => true

/-- Answers a vote request. An anonymous candidate gets the vote of the empty name. -/
def decideVote (m : Moment) (r : VoteRequest) (n : Node) : VoteReply × Node :=
  if r.term < n.term then (⟨false, n.term⟩, n)
  else
    let n := if n.term < r.term then n.stepDown m r.term else n
    if !n.voteTaken r.candidate && n.standing.le r.standing then
      (⟨true, n.term⟩, { n with
        votedFor := some (r.candidate.getD "")
        deadline := m.now + m.timeout })
    else (⟨false, n.term⟩, n)

/-- The term of the next candidacy. The greatest term can come from any message, and zero follows
    it. -/
def nextTerm (n : Node) : Nat := Counter.add n.term 1

/-- Whether there is a term after the one that the node is in. -/
def HasNextTerm (n : Node) : Prop := n.term + 1 < Decimal.limit64

instance (n : Node) : Decidable n.HasNextTerm := inferInstanceAs (Decidable (_ < _))

theorem HasNextTerm.nextTerm {n : Node} (h : n.HasNextTerm) : n.nextTerm = n.term + 1 :=
  Counter.add_of_lt h

/-- Becomes a candidate in the next term, votes for itself, and says what it asks the others. -/
def beginCandidacy (m : Moment) (me : String) (n : Node) : VoteRequest × Node :=
  let n := { n with
    term := n.nextTerm
    role := .candidate
    votedFor := some me
    leader := none
    progress := []
    deadline := m.now + m.timeout }
  (⟨n.term, n.commit, n.lastIndex - n.commit, n.log.lastTerm, some me⟩, n)

/-- Commits the highest entry of the current term that a majority holds. An entry of an earlier
    term is committed by what follows it, never by being counted itself. -/
def advanceCommit (n : Node) : Node :=
  if n.role = .leader then
    let reached := reachedByQuorum (n.progress.map Progress.matched ++ [n.lastIndex])
    if n.commit < reached ∧ n.log.termAt reached = n.term then n.commitThrough reached else n
  else n

/-- Takes the lead of the current term and puts a barrier into the log. -/
def becomeLeader (me : String) (peers : Nat) (n : Node) : Node :=
  let n := { n with role := .leader, leader := some me }
  let n := n.append ⟨n.term, .barrier⟩
  advanceCommit { n with progress := List.replicate peers ⟨n.lastIndex, 0⟩ }

end Node

/-- An election under way. -/
structure Election where
  term : Nat
  /-- The votes so far, its own included. -/
  granted : Nat
  /-- How many votes win. -/
  needed : Nat
  deriving Repr, DecidableEq

/-- What a vote reply did to an election. -/
inductive Tally where
  | goesOn
  | won
  | abandoned
  deriving Repr, DecidableEq

namespace Election

/-- Looks whether the candidate has won by now, or is no candidate of this term any more. -/
def count (me : String) (peers : Nat) (e : Election) (n : Node) : Tally × Node :=
  if n.role ≠ .candidate ∨ n.term ≠ e.term then (.abandoned, n)
  else if e.needed ≤ e.granted then (.won, n.becomeLeader me peers)
  else (.goesOn, n)

/-- Takes in one reply. A later term ends the candidacy, whatever had been granted. -/
def fold (m : Moment) (me : String) (peers : Nat) (reply : VoteReply) (e : Election) (n : Node) :
    Tally × Election × Node :=
  if n.term < reply.term then (.abandoned, e, n.stepDown m reply.term)
  else
    let e := if reply.granted then { e with granted := e.granted + 1 } else e
    let (tally, n) := e.count me peers n
    (tally, e, n)

end Election

end QuorumStore
