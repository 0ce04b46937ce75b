import QuorumStore.Proofs.RunSteps
/-! # What becomes of logs and leaders

Seen from the logs, an act does one of five things to a node. Everything about leaders, their logs
and what they commit is argued from these five.
-/

namespace QuorumStore.Run

variable {n : Nat} (R : Run n)

/-- The election of a member succeeds in the act after a moment: the last vote that it needs is
    counted, or it needs none but its own. Nothing else runs `becomeLeader`. -/
inductive Elects (k : Nat) (i : Fin n) : Nat → Prop where
  | counts (ballot peer : Nat) (choice : Option Nat) (t : Moment) (x : Ballot n)
      (reply : Option VoteReply) : R.acts k = .hearVote ballot peer choice t →
      (R.state k).ballots[ballot]? = some x → x.outcome? peer choice = some reply →
      x.caller = i → ((R.member k i).foldVote t x.task reply).1 = .won →
      Elects k i (R.node k i).term
  | alone (t : Moment) : R.acts k = .wake i t → (R.node k i).electionDue t.now = true →
      (R.node k i).HasNextTerm → (R.member k i).needed ≤ 1 → Elects k i ((R.node k i).term + 1)

/-- A candidate whose last vote is counted in the act after a moment. -/
structure LastVote (k : Nat) (i : Fin n) (T : Nat) (x : Ballot n) (peer : Nat)
    (reply : VoteReply) : Prop where
  ballot : x ∈ (R.state k).ballots
  own : x.caller = i
  waits : peer ∈ x.waiting
  answered : (peer, reply) ∈ x.answers
  role : (R.node k i).role = .candidate
  term : (R.node k i).term = T
  task : x.task.term = T
  enough : (Node.heard reply x.task).needed ≤ (Node.heard reply x.task).granted

/-- What winning an election takes and brings. -/
structure Won (k : Nat) (i : Fin n) (T : Nat) : Prop where
  before : (R.node k i).role ≠ .leader
  backed : n = 1 ∧ (R.node k i).term + 1 = T ∨ ∃ x peer reply, R.LastVote k i T x peer reply
  leads : ∃ candidate : Node, candidate.term = T ∧ candidate.log = (R.node k i).log ∧
    candidate.commit = (R.node k i).commit ∧ R.node (k + 1) i =
      candidate.becomeLeader (R.roster.address i) (R.roster.peers i).length

/-- What the act after a moment does to the log of a member and to what it knows as a leader. -/
inductive Change (k : Nat) (i : Fin n) : Prop where
  | idle : Node.Idle (R.node k i) (R.node (k + 1) i) → Change k i
  | takes (x : Round n) (r : HeartbeatRequest) : x ∈ (R.state k).rounds → r ∈ x.sent →
      Node.Taken r (R.node k i) (R.node (k + 1) i) → Change k i
  | records (x : Round n) (peer : Nat) (sent : HeartbeatRequest) (reply : HeartbeatReply) :
      x ∈ (R.state k).rounds → x.caller = i → (peer, reply) ∈ x.answers →
      x.sent[peer]? = some sent →
      (R.node k i).role = .leader → (R.node k i).term = x.task →
      (R.node (k + 1) i).role = .leader → (R.node (k + 1) i).term = x.task →
      (R.node (k + 1) i).log = (R.node k i).log →
      (R.node (k + 1) i).progress =
        (R.node k i).progress.modify peer (Node.learn sent reply) →
      Node.Advances (R.node k i) (R.node (k + 1) i) → Change k i
  | stages (e : Entry) : (R.node k i).role = .leader → e.term = (R.node k i).term →
      (R.node (k + 1) i).role = .leader → (R.node (k + 1) i).term = (R.node k i).term →
      (R.node (k + 1) i).log = (R.node k i).log ++ [e] →
      (R.node (k + 1) i).progress = (R.node k i).progress →
      Node.Advances (R.node k i) (R.node (k + 1) i) → Change k i
  | wins (T : Nat) : R.Elects k i T → Change k i

variable {R} {k T : Nat} {i : Fin n}

theorem heard_term (reply : VoteReply) (e : Election) : (Node.heard reply e).term = e.term := by
  rw [Node.heard]
  split <;> rfl

theorem heard_needed (reply : VoteReply) (e : Election) :
    (Node.heard reply e).needed = e.needed := by
  rw [Node.heard]
  split <;> rfl

theorem role_of_electionDue {n : Node} {now : Nat} (due : n.electionDue now = true) :
    n.role ≠ .leader := by
  simp only [Node.electionDue, Bool.and_eq_true, bne_iff_ne] at due
  exact due.1

theorem Elects.won (h : R.Elects k i T) : R.Won k i T := by
  cases h with
  | counts ballot peer choice t x reply did at_ outcome own won =>
      subst own
      have next := R.node_hearVote did at_ outcome
      cases reply with
      | none => simp [Member.foldVote] at won
      | some reply =>
          obtain ⟨waits, answered⟩ := Exchange.outcome?_some outcome
          rw [Member.foldVote_some_tally, member_address, length_member_peers, ← node] at won
          rw [Member.foldVote_some_node, member_address, length_member_peers, ← node] at next
          rcases Node.fold_cases t (R.roster.address x.caller) (R.roster.peers x.caller).length
              reply x.task (R.node k x.caller) with ⟨_, f⟩ | ⟨_, lost, f⟩ | ⟨role, term, enough, f⟩
          · simp [f] at won
          · rw [f] at won
            exact absurd won lost
          · rw [heard_term] at term
            rw [f] at next
            exact ⟨by simp [role], .inr ⟨x, peer, reply, List.mem_of_getElem? at_, rfl, waits,
              answered, role, rfl, term.symm, enough⟩, _, rfl, rfl, rfl, next⟩
  | alone t did due more few =>
      have next := (R.member k i).openElection_alone due few
      rw [member_address, length_member_peers] at next
      have length := R.roster.length_peers i
      rw [Member.needed, length_member_peers, quorum] at few
      exact ⟨role_of_electionDue due, .inl ⟨by omega, rfl⟩,
        ((R.node k i).beginCandidacy t (R.roster.address i)).2, more.nextTerm, rfl, rfl,
        (R.node_wake did more).trans next⟩

theorem change (k : Nat) (i : Fin n) : R.Change k i := by
  cases R.move k i with
  | rests h => exact .idle (by rw [h]; exact .refl _)
  | campaigns t _ _ h => exact .idle (by rw [h]; exact Node.idle_beginCandidacy ..)
  | campaignsAlone t did due more h =>
      rcases Node.count_cases (R.roster.address i) (R.roster.peers i).length
          ⟨(R.node k i).term + 1, 1, quorum ((R.roster.peers i).length + 1)⟩
          ((R.node k i).beginCandidacy t (R.roster.address i)).2 with
        ⟨_, _, same⟩ | ⟨_, _, enough, _⟩
      · exact .idle (by rw [h, same]; exact Node.idle_beginCandidacy ..)
      · refine .wins _ (.alone t did due more ?_)
        rw [Member.needed, length_member_peers]
        exact enough
  | votes x peer request t _ _ _ h => exact .idle (by rw [h]; exact Node.idle_decideVote ..)
  | counts ballot peer choice x reply t did at_ outcome own h =>
      rcases Node.fold_cases t (R.roster.address i) (R.roster.peers i).length reply x.task
          (R.node k i) with ⟨_, f⟩ | ⟨_, _, f⟩ | ⟨_, _, _, f⟩
      · exact .idle (by rw [h, f]; exact Node.idle_stepDown ..)
      · exact .idle (by rw [h, f]; exact .refl _)
      · refine .wins _ (.counts ballot peer choice t x (some reply) did at_ outcome own ?_)
        rw [Member.foldVote_some_tally, member_address, length_member_peers, ← node, f]
  | follows x peer request t hx _ sent h =>
      rcases Node.answers (R.sound k i).bound t request with ⟨_, same | ⟨_, followed⟩⟩ | ⟨_, taken⟩
      · exact .idle (by rw [h, same]; exact .refl _)
      · exact .idle (by rw [h, followed]; exact Node.idle_follow ..)
      · exact .takes x request hx (List.mem_of_getElem? sent) (by rw [h]; exact taken)
  | records x peer sent reply t hx own answered asked h =>
      rcases Node.recordReply_leads t x.task peer sent reply (R.node k i) with
        idle | ⟨role, term, n', rfl, role', term', log, progress, advances⟩
      · exact .idle (by rw [h]; exact idle)
      · rw [← h] at role' term' log progress advances
        exact .records x peer sent reply hx own answered asked role term role'
          (term'.trans term) log progress advances
  | stages key write staged _ ok =>
      obtain ⟨role, role', term, ⟨e, own, log⟩, progress, advances⟩ := Node.stageWrite_leads ok
      exact .stages e role own role' term log progress advances

end QuorumStore.Run
