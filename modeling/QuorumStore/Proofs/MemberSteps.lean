import QuorumStore.Member
import QuorumStore.Proofs.NodeSteps
/-! # What the steps of a member do

A member does to its node what the node's own functions say, and keeps its address and its peers.
Its metrics and its timer are of no account to the cluster.
-/

namespace QuorumStore

namespace Member

variable (m : Member)

@[simp] theorem settle_node (tally : Tally) (n : Node) : (m.settle tally n).node = n := by
  cases tally <;> rfl

@[simp] theorem foldVote_some_node (t : Moment) (e : Election) (r : VoteReply) :
    (m.foldVote t e (some r)).2.2.node = (e.fold t m.address m.peers.length r m.node).2.2 := by
  simp [foldVote]

theorem foldVote_some_tally (t : Moment) (e : Election) (r : VoteReply) :
    (m.foldVote t e (some r)).1 = (e.fold t m.address m.peers.length r m.node).1 := rfl

/-- What becomes of an election when a call for a vote ends. -/
theorem foldVote_election (t : Moment) (e : Election) (reply : Option VoteReply) :
    (m.foldVote t e reply).2.1 = e ∨
      ∃ r, reply = some r ∧ (m.foldVote t e reply).2.1 = Node.heard r e := by
  cases reply with
  | none => exact .inl rfl
  | some r =>
      have folded : (m.foldVote t e (some r)).2.1 =
          (e.fold t m.address m.peers.length r m.node).2.1 := rfl
      rcases Node.fold_cases t m.address m.peers.length r e m.node with
        ⟨_, h⟩ | ⟨_, _, h⟩ | ⟨_, _, _, h⟩
      · exact .inl (by rw [folded, h])
      · exact .inr ⟨r, rfl, by rw [folded, h]⟩
      · exact .inr ⟨r, rfl, by rw [folded, h]⟩

/-- What a member has for good. -/
def Same (m m' : Member) : Prop := m'.address = m.address ∧ m'.peers = m.peers

theorem same_decideVote (t : Moment) (r : VoteRequest) : m.Same (m.decideVote t r).2 := ⟨rfl, rfl⟩

theorem same_handleHeartbeat (t : Moment) (r : HeartbeatRequest) :
    m.Same (m.handleHeartbeat t r).2 := ⟨rfl, rfl⟩

theorem same_settle (tally : Tally) (n : Node) : m.Same (m.settle tally n) := by
  cases tally <;> exact ⟨rfl, rfl⟩

theorem same_openElection (t : Moment) : m.Same (m.openElection t).2 := by
  simp only [openElection]
  split
  · split
    · let stands := (m.become (m.node.beginCandidacy t m.address).2).count .elections []
      obtain ⟨address, peers⟩ := stands.same_settle _ _
      exact ⟨address, peers⟩
    · exact ⟨rfl, rfl⟩
  · exact ⟨rfl, rfl⟩

theorem same_foldVote (t : Moment) (e : Election) (reply : Option VoteReply) :
    m.Same (m.foldVote t e reply).2.2 := by
  cases reply with
  | none => exact ⟨rfl, rfl⟩
  | some r => exact same_settle ..

theorem same_foldHeartbeat (t : Moment) (term peer : Nat) (sent : HeartbeatRequest)
    (reply : Option HeartbeatReply) : m.Same (m.foldHeartbeat t term peer sent reply).2 := by
  cases reply <;> exact ⟨rfl, rfl⟩

theorem put_ok {m m' : Member} {key : String} {write : Write} {staged : Record × Nat}
    (h : m.put key write = .ok (staged, m')) :
    m.Same m' ∧ m.node.stageWrite key write = .ok (staged, m'.node) := by
  simp only [put] at h
  split at h
  · simp at h
  · rename_i s n ok
    obtain ⟨rfl, rfl⟩ := Prod.mk.inj (Except.ok.inj h)
    exact ⟨⟨rfl, rfl⟩, ok⟩

/-- An election is not due, or is won without any peers, or asks every peer. -/
theorem openElection_cases (t : Moment) :
    m.openElection t = (none, m) ∨
    m.node.electionDue t.now = true ∧
      ((∃ m', m.openElection t = (none, m') ∧ m'.node =
          ((⟨m.node.nextTerm, 1, m.needed⟩ : Election).count m.address m.peers.length
            (m.node.beginCandidacy t m.address).2).2) ∨
        ∃ m', m.openElection t = (some ((m.node.beginCandidacy t m.address).1,
            ⟨m.node.nextTerm, 1, m.needed⟩), m') ∧
          m'.node = (m.node.beginCandidacy t m.address).2) := by
  rw [openElection]
  split
  · rename_i due
    refine .inr ⟨due, ?_⟩
    simp only
    split
    · exact .inl ⟨_, rfl, by simp; rfl⟩
    · exact .inr ⟨_, rfl, rfl⟩
  · exact .inl rfl

/-- A candidate that needs the votes of others asks every peer. -/
theorem openElection_asks {t : Moment} (due : m.node.electionDue t.now = true)
    (many : ¬ m.needed ≤ 1) : m.openElection t =
      (some ((m.node.beginCandidacy t m.address).1, ⟨m.node.nextTerm, 1, m.needed⟩),
        (m.become (m.node.beginCandidacy t m.address).2).count .elections []) := by
  rw [openElection, if_pos due]
  simp only
  split
  · rename_i few
    exact absurd few many
  · rfl

/-- A candidate that needs no vote but its own asks nobody. -/
theorem openElection_asks_nobody {t : Moment} (due : m.node.electionDue t.now = true)
    (few : m.needed ≤ 1) : (m.openElection t).1 = none := by
  rw [openElection, if_pos due]
  simp only
  split
  · rfl
  · rename_i more
    exact absurd few more

theorem openElection_alone {t : Moment} (due : m.node.electionDue t.now = true)
    (few : m.needed ≤ 1) : (m.openElection t).2.node =
      (m.node.beginCandidacy t m.address).2.becomeLeader m.address m.peers.length := by
  have won : (⟨m.node.nextTerm, 1, m.needed⟩ : Election).count m.address m.peers.length
      (m.node.beginCandidacy t m.address).2 =
        (.won, (m.node.beginCandidacy t m.address).2.becomeLeader m.address m.peers.length) := by
    rw [Election.count, if_neg (by simp [Node.beginCandidacy]), if_pos few]
  rw [openElection, if_pos due]
  simp only
  split
  · rw [settle_node]
    exact congrArg Prod.snd won
  · rename_i more
    exact absurd few more

end Member

end QuorumStore
