import QuorumStore.Log
import QuorumStore.NodeError
/-! # The state of a node

Everything that a step of the protocol reads or changes is in one value, and every step is a
function from the state before to the state after. Time and chance come in from outside.
-/

namespace QuorumStore

/-- The three roles of a node. -/
inductive Role where
  /-- Follows the leader's heartbeats and votes when asked. -/
  | follower
  /-- Asks for votes in the current term. -/
  | candidate
  /-- Serves clients and replicates its log. -/
  | leader
  deriving Repr, DecidableEq

/-- What a leader knows about one peer. -/
structure Progress where
  /-- The first position that is sent next. -/
  next : Nat
  /-- The highest position up to which the peer is known to hold the leader's log. -/
  matched : Nat
  deriving Repr, DecidableEq

/-- What became of a staged write. -/
inductive Verdict where
  | pending
  | committed
  /-- Nobody will tell any more; the write may be lost. -/
  | dropped
  deriving Repr, DecidableEq

/-- The claim of a client to learn what became of its write. -/
structure Ticket where
  index : Nat
  term : Nat
  verdict : Verdict
  deriving Repr, DecidableEq

/-- Gives up a ticket that has no verdict yet. -/
def Ticket.drop (t : Ticket) : Ticket :=
  if t.verdict = .pending then { t with verdict := .dropped } else t

/-- The time at which a step happens, and the election timeout that is drawn for it. -/
structure Moment where
  now : Nat
  timeout : Nat
  deriving Repr, DecidableEq

/-- What a node has in mind. Its term, the positions in its log and the versions of its writes are
    numbers of 64 bits. What the node counts up by itself is assumed to stay one, but a sum with what
    a message has told it may start again at zero (`Counter.add`). -/
structure Node where
  role : Role
  term : Nat
  /-- The candidate that has the vote of this term. -/
  votedFor : Option String
  leader : Option String
  log : Log
  /-- How many entries are committed. -/
  commit : Nat
  /-- The replay of the committed entries. -/
  store : Store
  /-- One for each peer while leading, none otherwise. -/
  progress : List Progress
  /-- When an election is due unless a leader is heard of before. -/
  deadline : Nat
  /-- One ticket for every write this node ever staged, in that order. -/
  tickets : List Ticket
  deriving Repr, DecidableEq

namespace Node

/-- A node starts as a follower that knows nothing. -/
def start (m : Moment) : Node where
  role := .follower
  term := 0
  votedFor := none
  leader := none
  log := []
  commit := 0
  store := .empty
  progress := []
  deadline := m.now + m.timeout
  tickets := []

def lastIndex (n : Node) : Nat := n.log.length

/-- The entries that are not committed. -/
def staged (n : Node) : Log := n.log.drop n.commit

def resetDeadline (m : Moment) (n : Node) : Node :=
  { n with deadline := m.now + m.timeout }

/-- Whether it is time for an election. A leader needs none. -/
def electionDue (now : Nat) (n : Node) : Bool := n.role != .leader && n.deadline ≤ now

/-- Refuses a message from an earlier term. -/
def checkTerm (n : Node) (received : Nat) : Except NodeError Unit :=
  if received < n.term then .error (.staleTerm received n.term) else .ok ()

/-- Moves to a later term, in which there is neither a vote nor a leader yet. -/
def adoptTerm (term : Nat) (n : Node) : Node :=
  if n.term < term then { n with term := term, votedFor := none, leader := none } else n

/-- Becomes a follower, in a later term if the given one is. Nobody waits any longer for a write
    that this node staged, as it can no longer see to it. -/
def stepDown (m : Moment) (term : Nat) (n : Node) : Node :=
  let n := n.adoptTerm term
  { n with
    role := .follower
    progress := []
    tickets := n.tickets.map Ticket.drop
    deadline := m.now + m.timeout }

/-- Removes the entries after a position, but never a committed one. -/
def truncateAfter (index : Nat) (n : Node) : Node :=
  let keep := max index n.commit
  { n with
    log := n.log.take keep
    tickets := n.tickets.map fun t => if keep < t.index then t.drop else t }

/-- The ticket after everything up to a position is committed. The entry at its position may be
    another one by now. -/
def settle (log : Log) (upTo : Nat) (t : Ticket) : Ticket :=
  if t.verdict = .pending ∧ t.index ≤ upTo then
    { t with verdict := if Log.termAt log t.index = t.term then .committed else .dropped }
  else t

/-- Commits and applies the entries up to a position, in order. -/
def commitThrough (target : Nat) (n : Node) : Node :=
  let upTo := min target n.lastIndex
  if upTo ≤ n.commit then n
  else
    { n with
      store := n.store.applyAll ((n.log.take upTo).drop n.commit)
      commit := upTo
      tickets := n.tickets.map (settle n.log upTo) }

def append (e : Entry) (n : Node) : Node := { n with log := n.log ++ [e] }

def ensureLeader (n : Node) : Except NodeError Unit :=
  if n.role = .leader then .ok () else .error (.notLeader n.leader)

end Node

/-- What a node tells about itself. -/
structure Status where
  role : Role
  term : Nat
  leader : Option String
  commit : Nat
  logLength : Nat
  deriving Repr, DecidableEq

def Node.status (n : Node) : Status := ⟨n.role, n.term, n.leader, n.commit, n.lastIndex⟩

end QuorumStore
