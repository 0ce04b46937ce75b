import QuorumStore.Proofs.RunSteps
/-! # How far terms come

A term is used up by a candidacy, and a candidacy is an act of the run. Everything else only hands
on terms that somebody is in already. So no member is in a later term than there have been acts, and
members run out of terms only in a run that has made as many acts as there are terms.
-/

namespace QuorumStore

namespace Node

variable {n n' : Node}

theorem decideVote_term (m : Moment) (r : VoteRequest) (n : Node) :
    (n.decideVote m r).1.term = max n.term r.term ∧
      (n.decideVote m r).2.term = max n.term r.term := by
  rcases decideVote_cases m r n with ⟨stale, e⟩ | ⟨current, e⟩ | ⟨current, _, _, e⟩
  · rw [e, Nat.max_eq_left (Nat.le_of_lt stale)]
    exact ⟨rfl, rfl⟩
  · rw [e, Nat.max_eq_right current]
    exact ⟨rfl, heed_term m current⟩
  · rw [e, Nat.max_eq_right current]
    exact ⟨rfl, heed_term m current⟩

theorem handleHeartbeat_term (m : Moment) (r : HeartbeatRequest) (n : Node) :
    (n.handleHeartbeat m r).1.term = max n.term r.term ∧
      (n.handleHeartbeat m r).2.term = max n.term r.term := by
  rcases handleHeartbeat_cases m r n with
    ⟨stale, e⟩ | ⟨current, _, e⟩ | ⟨current, _, _, taken, took, e⟩
  · rw [e, Nat.max_eq_left (Nat.le_of_lt stale)]
    exact ⟨rfl, rfl⟩
  · have follows := follow_term m current
    rw [e, Nat.max_eq_right current]
    exact ⟨follows, follows⟩
  · have follows : (taken.commitThrough (min r.commit r.lastIndex)).term = r.term := by
      rw [commitThrough_term, (takeOver_frame took).2.1, follow_term m current]
    rw [e, Nat.max_eq_right current]
    exact ⟨follows, follows⟩

theorem count_term (me : String) (peers : Nat) (e : Election) (n : Node) :
    (e.count me peers n).2.term = n.term := by
  rcases count_cases me peers e n with ⟨_, _, c⟩ | ⟨_, _, _, c⟩
  · rw [c]
  · rw [c, becomeLeader_term]

theorem fold_term_le (m : Moment) (me : String) (peers : Nat) (reply : VoteReply) (e : Election)
    (n : Node) : (e.fold m me peers reply n).2.2.term ≤ max n.term reply.term := by
  rcases fold_cases m me peers reply e n with ⟨_, f⟩ | ⟨_, _, f⟩ | ⟨_, _, _, f⟩
  · rw [f, stepDown_term]
  · rw [f]
    exact Nat.le_max_left ..
  · rw [f, becomeLeader_term]
    exact Nat.le_max_left ..

theorem recordReply_term_le (m : Moment) (term peer : Nat) (sent : HeartbeatRequest)
    (reply : HeartbeatReply) (n : Node) :
    (n.recordReply m term peer sent reply).2.term ≤ max n.term reply.term := by
  rcases recordReply_cases m term peer sent reply n with ⟨_, r⟩ | ⟨_, r⟩ | ⟨_, _, _, rfl, r | r⟩
  · rw [r, stepDown_term]
  · rw [r]
    exact Nat.le_max_left ..
  · rw [r]
    exact Nat.le_max_left ..
  · rw [r, advanceCommit_term]
    exact Nat.le_max_left ..

end Node

namespace Run

variable {n : Nat} {R : Run n} {k T : Nat}

variable (R) in
/-- Nobody has heard of a later term than the given one. -/
structure Within (k T : Nat) : Prop where
  node : ∀ i, (R.node k i).term ≤ T
  voteRequest : ∀ x ∈ (R.state k).ballots, ∀ r ∈ x.sent, r.term ≤ T
  voteReply : ∀ x ∈ (R.state k).ballots, ∀ a ∈ x.answers, a.2.term ≤ T
  heartbeat : ∀ x ∈ (R.state k).rounds, ∀ r ∈ x.sent, r.term ≤ T
  heartbeatReply : ∀ x ∈ (R.state k).rounds, ∀ a ∈ x.answers, a.2.term ≤ T

theorem Within.node_succ (h : R.Within k T) (i : Fin n) : (R.node (k + 1) i).term ≤ T + 1 := by
  have before := h.node i
  cases R.move k i with
  | rests next => rw [next]; omega
  | campaigns t _ more next =>
      have term : (R.node (k + 1) i).term = (R.node k i).term + 1 := by
        rw [next]
        exact more.nextTerm
      omega
  | campaignsAlone t _ _ more next =>
      have term : (R.node (k + 1) i).term = (R.node k i).term + 1 := by
        rw [next, Node.count_term]
        exact more.nextTerm
      omega
  | votes x peer r t hx _ sent next =>
      have asked := h.voteRequest x hx r (List.mem_of_getElem? sent)
      rw [next, (Node.decideVote_term t r _).2]
      omega
  | counts ballot peer choice x reply t _ at_ outcome _ next =>
      have answered : reply.term ≤ T := h.voteReply x (List.mem_of_getElem? at_) _
        (Exchange.outcome?_some outcome).2
      have folded := Node.fold_term_le t (R.roster.address i) (R.roster.peers i).length reply x.task
        (R.node k i)
      rw [next]
      omega
  | follows x peer r t hx _ sent next =>
      have asked := h.heartbeat x hx r (List.mem_of_getElem? sent)
      rw [next, (Node.handleHeartbeat_term t r _).2]
      omega
  | records x peer sent reply t hx _ answer _ next =>
      have answered : reply.term ≤ T := h.heartbeatReply x hx _ answer
      have recorded := Node.recordReply_term_le t x.task peer sent reply (R.node k i)
      rw [next]
      omega
  | stages key write staged _ ok =>
      have term := (Node.stageWrite_leads ok).2.2.1
      omega

theorem Within.ballot_succ (h : R.Within k T) {x : Ballot n}
    (hx : x ∈ (R.state (k + 1)).ballots) :
    (∀ r ∈ x.sent, r.term ≤ T + 1) ∧ ∀ a ∈ x.answers, a.2.term ≤ T + 1 := by
  have request (x) (hx : x ∈ (R.state k).ballots) (r) (hr : r ∈ x.sent) : r.term ≤ T + 1 :=
    Nat.le_succ_of_le (h.voteRequest x hx r hr)
  have reply (x) (hx : x ∈ (R.state k).ballots) (a) (ha : a ∈ x.answers) : a.2.term ≤ T + 1 :=
    Nat.le_succ_of_le (h.voteReply x hx a ha)
  cases R.ballotAfter hx with
  | kept _ old => exact ⟨request x old, reply x old⟩
  | opened i t more _ =>
      refine ⟨fun r hr => ?_, fun a ha => absurd ha List.not_mem_nil⟩
      obtain ⟨_, _, rfl⟩ := List.mem_map.mp hr
      have term : ((R.node k i).beginCandidacy t (R.roster.address i)).1.term =
          (R.node k i).term + 1 := more.nextTerm
      rw [term]
      exact Nat.succ_le_succ (h.node i)
  | answered x peer j r t old _ sent _ =>
      refine ⟨request x old, fun a ha => ?_⟩
      cases List.mem_append.mp ha with
      | inl earlier => exact reply x old a earlier
      | inr new =>
          have asked := request x old r (List.mem_of_getElem? sent)
          have before := h.node j
          rw [List.mem_singleton.mp new, (Node.decideVote_term t r _).1]
          omega
  | closed x peer goesOn task old _ _ => exact ⟨request x old, reply x old⟩

theorem Within.round_succ (h : R.Within k T) {x : Round n}
    (hx : x ∈ (R.state (k + 1)).rounds) :
    (∀ r ∈ x.sent, r.term ≤ T + 1) ∧ ∀ a ∈ x.answers, a.2.term ≤ T + 1 := by
  have request (x) (hx : x ∈ (R.state k).rounds) (r) (hr : r ∈ x.sent) : r.term ≤ T + 1 :=
    Nat.le_succ_of_le (h.heartbeat x hx r hr)
  have reply (x) (hx : x ∈ (R.state k).rounds) (a) (ha : a ∈ x.answers) : a.2.term ≤ T + 1 :=
    Nat.le_succ_of_le (h.heartbeatReply x hx a ha)
  cases R.roundAfter hx with
  | kept _ old => exact ⟨request x old, reply x old⟩
  | opened i _ =>
      refine ⟨fun r hr => ?_, fun a ha => absurd ha List.not_mem_nil⟩
      obtain ⟨_, _, some⟩ := List.mem_filterMap.mp hr
      rw [(Node.tells_heartbeatFor? some).term]
      exact Nat.le_succ_of_le (h.node i)
  | answered x peer j r t old _ sent _ =>
      refine ⟨request x old, fun a ha => ?_⟩
      cases List.mem_append.mp ha with
      | inl earlier => exact reply x old a earlier
      | inr new =>
          have asked := request x old r (List.mem_of_getElem? sent)
          have before := h.node j
          rw [List.mem_singleton.mp new, (Node.handleHeartbeat_term t r _).1]
          omega
  | closed x peer goesOn old => exact ⟨request x old, reply x old⟩

/-- By a moment there have not been more terms than acts. -/
theorem within (R : Run n) (k : Nat) : R.Within k k := by
  induction k with
  | zero =>
      refine ⟨fun _ => Nat.le_refl 0, ?_, ?_, ?_, ?_⟩
      all_goals exact fun x none => absurd none List.not_mem_nil
  | succ k before =>
      exact ⟨before.node_succ, fun x hx => (before.ballot_succ hx).1,
        fun x hx => (before.ballot_succ hx).2, fun x hx => (before.round_succ hx).1,
        fun x hx => (before.round_succ hx).2⟩

/-- As long as there have been fewer acts than there are terms, every member has a next term. -/
theorem hasNextTerm (R : Run n) (i : Fin n) (early : k + 1 < Decimal.limit64) :
    (R.node k i).HasNextTerm :=
  Nat.lt_of_le_of_lt (Nat.succ_le_succ ((R.within k).node i)) early

end Run

end QuorumStore
