import QuorumStore.Metrics
import QuorumStore.Node.Replication
import QuorumStore.Node.Staging
/-! # A member of a cluster

A member is a node with its surroundings: the address under which the others know it, their
addresses, its timing, its metrics, and a wake-up for its timer. The wake-up is a permit: however
often it is given before the timer looks, the timer finds one.
-/

namespace QuorumStore

/-- How long things take, in milliseconds. -/
structure Timing where
  /-- The shortest time without a sign of a leader after which an election is due. -/
  electionMin : Nat
  /-- The longest such time. -/
  electionMax : Nat
  /-- The pause between two rounds of heartbeats. -/
  heartbeat : Nat
  /-- How long a peer may take to answer. -/
  call : Nat
  /-- How long a client waits for its write. -/
  replication : Nat
  deriving Repr, DecidableEq

/-- A moment at which the shortest election timeout is drawn. -/
def Timing.earliest (t : Timing) (now : Nat) : Moment := ⟨now, t.electionMin⟩

/-- A node and its surroundings. -/
structure Member where
  address : String
  /-- The addresses of the other members. -/
  peers : List String
  timing : Timing
  node : Node
  wakeUp : Bool
  metrics : Metrics
  deriving Repr, DecidableEq

namespace Member

def start (now : Nat) (address : String) (peers : List String) (timing : Timing) : Member :=
  ⟨address, peers, timing, .start (timing.earliest now), false, []⟩

/-- How many votes win an election. -/
def needed (m : Member) : Nat := quorum (m.peers.length + 1)

def count (metric : Metric) (labels : List (String × String)) (m : Member) : Member :=
  { m with metrics := m.metrics.count metric labels }

/-- Puts a new state of the node in place. The gauges follow the term and the commit index where
    these move. -/
def become (m : Member) (n : Node) : Member :=
  let metrics := if n.term = m.node.term then m.metrics else m.metrics.set .currentTerm n.term
  let metrics :=
    if n.commit = m.node.commit then metrics else metrics.set .commitIndex n.commit
  { m with node := n, metrics }

/-- Puts the state in place that a request of another member led to. A leader that was deposed
    wakes the timer, which has heartbeats on its mind. -/
def becomeAsked (m : Member) (n : Node) : Member :=
  let deposed := m.node.role = .leader ∧ n.role ≠ .leader
  { m.become n with wakeUp := m.wakeUp || decide deposed }

def decideVote (t : Moment) (r : VoteRequest) (m : Member) : VoteReply × Member :=
  let (reply, n) := m.node.decideVote t r
  (reply, m.becomeAsked n)

def handleHeartbeat (t : Moment) (r : HeartbeatRequest) (m : Member) : HeartbeatReply × Member :=
  let (reply, n) := m.node.handleHeartbeat t r
  (reply, m.becomeAsked n)

def becomeLeader (m : Member) : Member :=
  (m.become (m.node.becomeLeader m.address m.peers.length)).count .electionsWon []

/-- Stages a write of a client and wakes the timer, so that it is sent out at once. -/
def put (key : String) (write : Write) (m : Member) :
    Except NodeError ((Record × Nat) × Member) :=
  match m.node.stageWrite key write with
  | .error e => .error e
  | .ok (staged, n) => .ok (staged, { m.become n with wakeUp := true })

/-- Draws the consequence of a tally. -/
def settle (tally : Tally) (n : Node) (m : Member) : Member :=
  match tally with
  | .won => { (m.become n).count .electionsWon [] with wakeUp := true }
  | _ => m.become n

/-- Opens an election if one is due. Unless the member wins it alone, there is an election to go
    on with and a request for every peer. -/
def openElection (t : Moment) (m : Member) : Option (VoteRequest × Election) × Member :=
  if m.node.electionDue t.now then
    let (request, n) := m.node.beginCandidacy t m.address
    let m := (m.become n).count .elections []
    let election : Election := ⟨request.term, 1, m.needed⟩
    if election.needed ≤ election.granted then
      let (tally, n) := election.count m.address m.peers.length m.node
      (none, m.settle tally n)
    else (some (request, election), m)
  else (none, m)

/-- Takes in what became of one vote request: its reply, or nothing. -/
def foldVote (t : Moment) (e : Election) (reply : Option VoteReply) (m : Member) :
    Tally × Election × Member :=
  match reply with
  | none => (.goesOn, e, m.count .peerFailures [("rpc", "vote")])
  | some r =>
    let (tally, e, n) := e.fold t m.address m.peers.length r m.node
    (tally, e, m.settle tally n)

/-- The heartbeats of a round, one for each peer, and the term they belong to. Only a leader sends
    any. -/
def openRound (m : Member) : Option (Nat × List HeartbeatRequest) :=
  if m.node.role = .leader then
    some (m.node.term, (List.range m.peers.length).filterMap (m.node.heartbeatFor? · m.address))
  else none

/-- Takes in what became of one heartbeat, and tells whether the round goes on. -/
def foldHeartbeat (t : Moment) (term peer : Nat) (sent : HeartbeatRequest)
    (reply : Option HeartbeatReply) (m : Member) : Bool × Member :=
  match reply with
  | none => (true, m.count .peerFailures [("rpc", "heartbeat")])
  | some r =>
    let (goesOn, n) := m.node.recordReply t term peer sent r
    (goesOn, m.become n)

end Member

end QuorumStore
