import QuorumStore.Node.Election
import QuorumStore.Message.Heartbeat
/-! # Replication

The leader sends every peer the entries from the first position the peer may lack, with the term of
the entry before them. A follower that holds that entry holds all before it, and takes the rest
over.
-/

namespace QuorumStore

/-- How many entries one heartbeat carries at most. -/
def maxEntries : Nat := 128

namespace Node

/-- The answer of a follower as it stands. -/
def heartbeatReply (n : Node) (success : Bool) (matched : Nat) : HeartbeatReply :=
  ⟨n.term, n.commit, success, matched⟩

/-- Takes over entries that belong from a position on. Entries it holds already are kept; the first
    that differs replaces all from there. The result tells whether it got through: it stops where a
    committed entry would have to go, in the state that it has reached by then. -/
def takeOver : Nat → Log → Node → Bool × Node
  | _, [], n => (true, n)
  | index, e :: rest, n =>
    if index ≤ n.lastIndex then
      if n.log.termAt index = e.term then takeOver (index + 1) rest n
      else if index ≤ n.commit then (false, n)
      else takeOver (index + 1) rest ((n.truncateAfter (index - 1)).append e)
    else takeOver (index + 1) rest (n.append e)

/-- Recognises the sender of a heartbeat of the current or a later term as the leader. -/
def follow (m : Moment) (r : HeartbeatRequest) (n : Node) : Node :=
  let n := if n.term < r.term ∨ n.role ≠ .follower then n.stepDown m r.term else n
  { n with leader := some r.leader, deadline := m.now + m.timeout }

def handleHeartbeat (m : Moment) (r : HeartbeatRequest) (n : Node) : HeartbeatReply × Node :=
  if r.term < n.term then (n.heartbeatReply false n.lastIndex, n)
  else
    let n := n.follow m r
    if n.lastIndex < r.prevIndex then (n.heartbeatReply false n.lastIndex, n)
    else if 0 < r.prevIndex ∧ n.log.termAt r.prevIndex ≠ r.prevTerm then
      (n.heartbeatReply false (min n.commit (r.prevIndex - 1)), n)
    else
      let (through, n) := n.takeOver (r.prevIndex + 1) r.entries
      if through then
        let n := n.commitThrough (min r.commit r.lastIndex)
        (n.heartbeatReply true r.lastIndex, n)
      else (n.heartbeatReply false n.commit, n)

/-- The heartbeat for a peer, if the node keeps track of it. -/
def heartbeatFor? (peer : Nat) (me : String) (n : Node) : Option HeartbeatRequest :=
  match n.progress[peer]? with
  | none => none
  | some p =>
    let next := max 1 (min p.next (n.lastIndex + 1))
    let prevIndex := next - 1
    some ⟨n.term, n.commit, me, prevIndex, n.log.termAt prevIndex,
      (n.log.drop prevIndex).take maxEntries⟩

/-- Changes what the leader knows about a peer. -/
def updateProgress (peer : Nat) (f : Progress → Progress) (n : Node) : Node :=
  { n with progress := n.progress.modify peer f }

/-- Takes in the answer of a peer to the heartbeat that was sent to it. The result tells whether the
    node still leads the term it sent the heartbeat in. -/
def recordReply (m : Moment) (term : Nat) (peer : Nat) (sent : HeartbeatRequest)
    (reply : HeartbeatReply) (n : Node) : Bool × Node :=
  if n.term < reply.term then (false, n.stepDown m reply.term)
  else if n.role ≠ .leader ∨ n.term ≠ term then (false, n)
  else if reply.success then
    (true, (n.updateProgress peer fun p =>
      let matched := max p.matched sent.lastIndex
      ⟨matched + 1, matched⟩).advanceCommit)
  else
    (true, n.updateProgress peer fun p =>
      { p with next := max 1 (min (Counter.add reply.matched 1) sent.prevIndex) })

end Node

end QuorumStore
