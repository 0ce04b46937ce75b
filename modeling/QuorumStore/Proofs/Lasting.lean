import QuorumStore.Proofs.NodeSteps
/-! # What lasts in a node

Terms and commit indices never fall, a vote stands as long as its term, nobody comes back to a
candidacy it has left, and what is committed stays as it is. The store is at all times the replay of
what is committed.
-/

namespace QuorumStore

theorem Store.applyAll_append (s : Store) (a b : Log) :
    s.applyAll (a ++ b) = (s.applyAll a).applyAll b := by
  simp only [Store.applyAll, List.foldl_append]

namespace Node

/-- What holds of a node by itself, whoever sends it what. -/
structure Sound (me : String) (n : Node) : Prop where
  bound : n.commit ≤ n.lastIndex
  replayed : n.store = Log.replay (n.log.take n.commit)
  /-- Candidates and leaders have voted for themselves. -/
  voted : n.role ≠ .follower → n.votedFor = some me

/-- What is committed stays committed, and stays as it is. -/
structure Keeps (n n' : Node) : Prop where
  commit : n.commit ≤ n'.commit
  committed : n'.log.take n.commit = n.log.take n.commit

/-- The second of two states of a node can follow the first. -/
structure Later (n n' : Node) : Prop extends Keeps n n' where
  term : n.term ≤ n'.term
  vote : n'.term = n.term → ∀ c, n.votedFor = some c → n'.votedFor = some c
  /-- A candidate has been one in its term from the start, with the same log. -/
  campaign : n'.term = n.term → n'.role = .candidate → n.role = .candidate ∧ n'.log = n.log

variable {me : String} {n n' n'' : Node}

namespace Keeps

theorem of_log (log : n'.log = n.log) (commit : n.commit ≤ n'.commit) : Keeps n n' :=
  ⟨commit, by rw [log]⟩

theorem refl (n : Node) : Keeps n n := .of_log rfl (Nat.le_refl _)

theorem trans (h : Keeps n n') (h' : Keeps n' n'') : Keeps n n'' where
  commit := Nat.le_trans h.commit h'.commit
  committed := by
    have le := h.commit
    have := congrArg (List.take n.commit) h'.committed
    rw [List.take_take, List.take_take, Nat.min_eq_left le] at this
    exact this.trans h.committed

end Keeps

namespace Later

theorem refl (n : Node) : Later n n :=
  ⟨.refl n, Nat.le_refl _, fun _ _ h => h, fun _ h => ⟨h, rfl⟩⟩

theorem trans (h : Later n n') (h' : Later n' n'') : Later n n'' where
  toKeeps := h.toKeeps.trans h'.toKeeps
  term := Nat.le_trans h.term h'.term
  vote := by
    intro same c voted
    have le := h.term
    have le' := h'.term
    exact h'.vote (by omega) c (h.vote (by omega) c voted)
  campaign := by
    intro same role
    have le := h.term
    have le' := h'.term
    obtain ⟨role', log'⟩ := h'.campaign (by omega) role
    obtain ⟨role, log⟩ := h.campaign (by omega) role'
    exact ⟨role, log'.trans log⟩

theorem of_log (term : n.term ≤ n'.term)
    (vote : n'.term = n.term → ∀ c, n.votedFor = some c → n'.votedFor = some c)
    (campaign : n'.term = n.term → n'.role = .candidate → n.role = .candidate)
    (log : n'.log = n.log) (commit : n.commit ≤ n'.commit) : Later n n' :=
  ⟨.of_log log commit, term, vote, fun same role => ⟨campaign same role, log⟩⟩

end Later

theorem Sound.of_eqs (h : Sound me n) (role : n'.role = n.role)
    (votedFor : n'.votedFor = n.votedFor) (log : n'.log = n.log) (commit : n'.commit = n.commit)
    (store : n'.store = n.store) : Sound me n' where
  bound := by simpa only [lastIndex, log, commit] using h.bound
  replayed := by simpa only [log, commit, store] using h.replayed
  voted := by simpa only [role, votedFor] using h.voted

/-! ## Every step -/

theorem later_stepDown (m : Moment) (term : Nat) (n : Node) : Later n (n.stepDown m term) := by
  refine .of_log ?_ ?_ ?_ (stepDown_log ..) (Nat.le_of_eq (stepDown_commit ..).symm)
  · rw [stepDown_term]; omega
  · intro same c voted
    rw [stepDown_term] at same
    rw [stepDown_votedFor, if_neg (by omega), voted]
  · intro _ role
    simp at role

theorem Sound.stepDown (h : Sound me n) (m : Moment) (term : Nat) :
    Sound me (n.stepDown m term) where
  bound := by simpa [lastIndex] using h.bound
  replayed := by simpa using h.replayed
  voted := by simp

theorem later_commitThrough (target : Nat) (n : Node) : Later n (n.commitThrough target) := by
  refine .of_log (by simp) (by simp) (by simp) (by simp) ?_
  rw [commitThrough_commit]
  omega

theorem Sound.commitThrough (h : Sound me n) (target : Nat) :
    Sound me (n.commitThrough target) where
  bound := commitThrough_bound h.bound target
  replayed := by
    simp only [Node.commitThrough]
    split
    · exact h.replayed
    · rename_i more
      let upTo := min target n.lastIndex
      have parts : n.log.take upTo = n.log.take n.commit ++ (n.log.take upTo).drop n.commit := by
        have first : (n.log.take upTo).take n.commit = n.log.take n.commit := by
          rw [List.take_take, Nat.min_eq_left (by omega)]
        rw [← first, List.take_append_drop]
      simp only
      rw [h.replayed, Log.replay, Log.replay, ← Store.applyAll_append, ← parts]
  voted := by simpa using h.voted

theorem later_advanceCommit (n : Node) : Later n n.advanceCommit := by
  rcases advanceCommit_cases n with h | ⟨_, _, _, _, _, h⟩
  · rw [h]; exact .refl n
  · rw [h]; exact later_commitThrough _ n

theorem Sound.advanceCommit (h : Sound me n) : Sound me n.advanceCommit := by
  rcases advanceCommit_cases n with same | ⟨_, _, _, _, _, same⟩
  · rwa [same]
  · rw [same]; exact h.commitThrough _

theorem Sound.append (h : Sound me n) (e : Entry) : Sound me (n.append e) where
  bound := append_bound h.bound e
  replayed := by
    simp only [Node.append, List.take_append_of_le_length h.bound]
    exact h.replayed
  voted := h.voted

theorem Sound.later_append (h : Sound me n) (notCandidate : n.role ≠ .candidate) (e : Entry) :
    Later n (n.append e) where
  term := Nat.le_refl _
  vote _ _ voted := voted
  campaign _ role := absurd role notCandidate
  commit := Nat.le_refl _
  committed := List.take_append_of_le_length h.bound

theorem later_heed (m : Moment) (term : Nat) (n : Node) : Later n (n.heed m term) := by
  rw [heed]
  split
  · exact later_stepDown m term n
  · exact .refl n

theorem Sound.heed (h : Sound me n) (m : Moment) (term : Nat) : Sound me (n.heed m term) := by
  rw [Node.heed]
  split
  · exact h.stepDown m term
  · exact h

theorem voteTaken_false {candidate : Option String} (free : n.voteTaken candidate = false)
    {c : String} (voted : n.votedFor = some c) : candidate = some c := by
  cases candidate with
  | none => simp [voteTaken, voted] at free
  | some name =>
      simp only [voteTaken, voted, bne_eq_false_iff_eq] at free
      rw [free]

theorem later_decideVote (m : Moment) (r : VoteRequest) (n : Node) :
    Later n (n.decideVote m r).2 := by
  rcases decideVote_cases m r n with ⟨_, h⟩ | ⟨_, h⟩ | ⟨_, free, _, h⟩
  · rw [h]; exact .refl n
  · rw [h]; exact later_heed m r.term n
  · rw [h]
    refine (later_heed m r.term n).trans (.of_log (Nat.le_refl _) ?_ (fun _ role => role) rfl
      (Nat.le_refl _))
    intro _ c voted
    rw [voteTaken_false free voted]
    rfl

theorem Sound.decideVote (h : Sound me n) (m : Moment) (r : VoteRequest) :
    Sound me (n.decideVote m r).2 := by
  rcases decideVote_cases m r n with ⟨_, e⟩ | ⟨_, e⟩ | ⟨_, free, _, e⟩
  · rwa [e]
  · rw [e]; exact h.heed m r.term
  · rw [e]
    have heeded := h.heed m r.term
    refine ⟨heeded.bound, heeded.replayed, ?_⟩
    intro role
    rw [voteTaken_false free (heeded.voted role)]
    rfl

theorem later_follow (m : Moment) (r : HeartbeatRequest) (n : Node) : Later n (n.follow m r) := by
  rw [follow]
  split
  · exact (later_stepDown m r.term n).trans
      (.of_log (Nat.le_refl _) (fun _ _ h => h) (fun _ h => h) rfl (Nat.le_refl _))
  · exact .of_log (Nat.le_refl _) (fun _ _ h => h) (fun _ h => h) rfl (Nat.le_refl _)

theorem Sound.follow (h : Sound me n) (m : Moment) (r : HeartbeatRequest) :
    Sound me (n.follow m r) where
  bound := by simpa [lastIndex] using h.bound
  replayed := by simpa using h.replayed
  voted := by simp

theorem Sound.takeOver (h : Sound me n) {prev : Nat} {entries : Log} (inside : prev ≤ n.lastIndex)
    (took : n.takeOver (prev + 1) entries = (true, n')) : Sound me n' := by
  have bound := h.bound
  obtain ⟨_, kept, _, _, frame⟩ := takeOver_through bound inside took
  have length := congrArg List.length kept
  simp only [List.length_take, lastIndex] at length bound
  rw [frame]
  exact ⟨by simp only [lastIndex]; omega, by rw [h.replayed, ← kept], h.voted⟩

theorem Sound.later_takeOver (h : Sound me n) (role : n.role = .follower) {prev : Nat}
    {entries : Log} (inside : prev ≤ n.lastIndex)
    (took : n.takeOver (prev + 1) entries = (true, n')) : Later n n' := by
  obtain ⟨_, kept, _, _, frame⟩ := takeOver_through h.bound inside took
  rw [frame]
  refine ⟨⟨Nat.le_refl _, kept⟩, Nat.le_refl _, fun _ _ voted => voted, fun _ candidate => ?_⟩
  simp only [role, reduceCtorEq] at candidate

theorem Sound.handleHeartbeat (h : Sound me n) (m : Moment) (r : HeartbeatRequest) :
    Sound me (n.handleHeartbeat m r).2 := by
  rcases handleHeartbeat_cases m r n with ⟨_, e⟩ | ⟨_, _, e⟩ | ⟨_, inside, _, taken, took, e⟩
  · rwa [e]
  · rw [e]; exact h.follow m r
  · rw [e]
    exact ((h.follow m r).takeOver (by simpa [lastIndex] using inside) took).commitThrough _

theorem Sound.later_handleHeartbeat (h : Sound me n) (m : Moment) (r : HeartbeatRequest) :
    Later n (n.handleHeartbeat m r).2 := by
  rcases handleHeartbeat_cases m r n with ⟨_, e⟩ | ⟨_, _, e⟩ | ⟨_, inside, _, taken, took, e⟩
  · rw [e]; exact .refl n
  · rw [e]; exact later_follow m r n
  · rw [e]
    have takes := (h.follow m r).later_takeOver (follow_role m r n)
      (by simpa [lastIndex] using inside) took
    exact ((later_follow m r n).trans takes).trans (later_commitThrough _ taken)

/-- What a node becomes that takes the entries of a heartbeat over. -/
structure Taken (r : HeartbeatRequest) (n n' : Node) : Prop where
  current : n.term ≤ r.term
  inside : r.prevIndex ≤ n.lastIndex
  same : 0 < r.prevIndex → n.log.termAt r.prevIndex = r.prevTerm
  role : n'.role = .follower
  term : n'.term = r.term
  log : Log.Overlay r.prevIndex r.entries n.log n'.log
  commit : n'.commit = max n.commit (min (min r.commit r.lastIndex) n'.lastIndex)

/-- A heartbeat that is answered with a success is taken over. -/
theorem answers (bound : n.commit ≤ n.lastIndex) (m : Moment) (r : HeartbeatRequest) :
    (n.handleHeartbeat m r).1.success = false ∧
      ((n.handleHeartbeat m r).2 = n ∨
        n.term ≤ r.term ∧ (n.handleHeartbeat m r).2 = n.follow m r) ∨
    (n.handleHeartbeat m r).1.success = true ∧ Taken r n (n.handleHeartbeat m r).2 := by
  rcases handleHeartbeat_cases m r n with
    ⟨_, e⟩ | ⟨current, _, e⟩ | ⟨current, inside, same, taken, took, e⟩
  · exact .inl ⟨by rw [e]; rfl, .inl (by rw [e])⟩
  · exact .inl ⟨by rw [e]; rfl, .inr ⟨current, by rw [e]⟩⟩
  · refine .inr ⟨by rw [e]; rfl, ?_⟩
    rw [e]
    obtain ⟨overlay, _, f, _, frame⟩ :=
      takeOver_through (by simpa [lastIndex] using bound) (by simpa [lastIndex] using inside) took
    rw [follow_log] at overlay
    have role : taken.role = .follower := by rw [frame]; exact follow_role m r n
    have term : taken.term = r.term := by rw [frame]; exact follow_term m current
    have commit : taken.commit = n.commit := by rw [frame]; exact follow_commit m r n
    refine ⟨current, inside, same, ?_, ?_, ?_, ?_⟩
    · rw [commitThrough_role, role]
    · rw [commitThrough_term, term]
    · rwa [commitThrough_log]
    · simp only [commitThrough_commit, commit, lastIndex, commitThrough_log]

theorem Sound.beginCandidacy (h : Sound me n) (m : Moment) :
    Sound me (n.beginCandidacy m me).2 :=
  ⟨h.bound, h.replayed, fun _ => rfl⟩

theorem HasNextTerm.later_beginCandidacy (next : n.HasNextTerm) (m : Moment) (me : String) :
    Later n (n.beginCandidacy m me).2 := by
  have term : (n.beginCandidacy m me).2.term = n.term + 1 := next.nextTerm
  have new : (n.beginCandidacy m me).2.term ≠ n.term := term ▸ Nat.succ_ne_self _
  exact .of_log (term ▸ Nat.le_succ _) (absurd · new) (absurd · new) rfl (Nat.le_refl _)

theorem Sound.becomeLeader (h : Sound me n) (peers : Nat) (role : n.role = .candidate) :
    Sound me (n.becomeLeader me peers) := by
  have leads : Sound me { n with role := .leader, leader := some me } :=
    ⟨h.bound, h.replayed, fun _ => h.voted (by simp [role])⟩
  exact Sound.advanceCommit (.of_eqs (leads.append ⟨n.term, .barrier⟩) rfl rfl rfl rfl rfl)

theorem Sound.later_becomeLeader (h : Sound me n) (name : String) (peers : Nat) :
    Later n (n.becomeLeader name peers) := by
  rw [Node.becomeLeader]
  refine Later.trans ?_ (later_advanceCommit _)
  refine ⟨⟨Nat.le_refl _, ?_⟩, Nat.le_refl _, fun _ _ voted => voted, fun _ role => ?_⟩
  · exact List.take_append_of_le_length h.bound
  · simp only [Node.append, reduceCtorEq] at role

theorem Sound.count (h : Sound me n) (peers : Nat) (e : Election) :
    Sound me (e.count me peers n).2 := by
  rcases count_cases me peers e n with ⟨_, _, c⟩ | ⟨role, _, _, c⟩
  · rwa [c]
  · rw [c]; exact h.becomeLeader peers role

theorem Sound.later_count (h : Sound me n) (peers : Nat) (e : Election) :
    Later n (e.count me peers n).2 := by
  rcases count_cases me peers e n with ⟨_, _, c⟩ | ⟨_, _, _, c⟩
  · rw [c]; exact .refl n
  · rw [c]; exact h.later_becomeLeader me peers

theorem Sound.fold (h : Sound me n) (m : Moment) (peers : Nat) (reply : VoteReply)
    (e : Election) : Sound me (e.fold m me peers reply n).2.2 := by
  rcases fold_cases m me peers reply e n with ⟨_, f⟩ | ⟨_, _, f⟩ | ⟨role, _, _, f⟩
  · rw [f]; exact h.stepDown m reply.term
  · rwa [f]
  · rw [f]; exact h.becomeLeader peers role

theorem Sound.later_fold (h : Sound me n) (m : Moment) (peers : Nat) (reply : VoteReply)
    (e : Election) : Later n (e.fold m me peers reply n).2.2 := by
  rcases fold_cases m me peers reply e n with ⟨_, f⟩ | ⟨_, _, f⟩ | ⟨_, _, _, f⟩
  · rw [f]; exact later_stepDown m reply.term n
  · rw [f]; exact .refl n
  · rw [f]; exact h.later_becomeLeader me peers

theorem Sound.recordReply (h : Sound me n) (m : Moment) (term peer : Nat)
    (sent : HeartbeatRequest) (reply : HeartbeatReply) :
    Sound me (n.recordReply m term peer sent reply).2 := by
  have told : Sound me (n.updateProgress peer (learn sent reply)) :=
    h.of_eqs rfl rfl rfl rfl rfl
  rcases recordReply_cases m term peer sent reply n with ⟨_, r⟩ | ⟨_, r⟩ | ⟨_, _, _, rfl, r | r⟩
  · rw [r]; exact h.stepDown m reply.term
  · rwa [r]
  · rwa [r]
  · rw [r]; exact told.advanceCommit

theorem later_recordReply (m : Moment) (term peer : Nat) (sent : HeartbeatRequest)
    (reply : HeartbeatReply) (n : Node) :
    Later n (n.recordReply m term peer sent reply).2 := by
  have told : Later n (n.updateProgress peer (learn sent reply)) :=
    .of_log (Nat.le_refl _) (fun _ _ h => h) (fun _ h => h) rfl (Nat.le_refl _)
  rcases recordReply_cases m term peer sent reply n with ⟨_, r⟩ | ⟨_, r⟩ | ⟨_, _, _, rfl, r | r⟩
  · rw [r]; exact later_stepDown m reply.term n
  · rw [r]; exact .refl n
  · rw [r]; exact told
  · rw [r]; exact told.trans (later_advanceCommit _)

theorem Sound.stageWrite (h : Sound me n) {key : String} {write : Write} {staged : Record × Nat}
    (ok : n.stageWrite key write = .ok (staged, n')) : Sound me n' := by
  obtain ⟨_, _, version, content, _, _, rfl⟩ := stageWrite_ok ok
  exact Sound.advanceCommit (.of_eqs (h.append _) rfl rfl rfl rfl rfl)

theorem Sound.later_stageWrite (h : Sound me n) {key : String} {write : Write}
    {staged : Record × Nat} (ok : n.stageWrite key write = .ok (staged, n')) : Later n n' := by
  obtain ⟨leads, _, version, content, _, _, rfl⟩ := stageWrite_ok ok
  let longer := n.append ⟨n.term, .write key content version⟩
  have appended : Later n longer := h.later_append (by simp [leads]) _
  have claimed : Later longer longer.claimTicket :=
    .of_log (Nat.le_refl _) (fun _ _ h => h) (fun _ h => h) rfl (Nat.le_refl _)
  exact (appended.trans claimed).trans (later_advanceCommit longer.claimTicket)

theorem sound_start (me : String) (m : Moment) : Sound me (.start m) :=
  ⟨Nat.le_refl _, rfl, fun role => absurd rfl role⟩

/-! ## Leading on -/

/-- Nothing happens to the log, and whoever leads has led before and has learned nothing. -/
structure Idle (n n' : Node) : Prop where
  log : n'.log = n.log
  commit : n'.commit = n.commit
  leads : n'.role = .leader → n.role = .leader ∧ n'.term = n.term ∧ n'.progress = n.progress

theorem Idle.refl (n : Node) : Idle n n := ⟨rfl, rfl, fun role => ⟨role, rfl, rfl⟩⟩

theorem idle_stepDown (m : Moment) (term : Nat) (n : Node) : Idle n (n.stepDown m term) :=
  ⟨stepDown_log .., stepDown_commit .., by simp⟩

theorem idle_heed (m : Moment) (term : Nat) (n : Node) : Idle n (n.heed m term) := by
  rw [heed]
  split
  · exact idle_stepDown m term n
  · exact .refl n

theorem idle_decideVote (m : Moment) (r : VoteRequest) (n : Node) :
    Idle n (n.decideVote m r).2 := by
  rcases decideVote_cases m r n with ⟨_, h⟩ | ⟨_, h⟩ | ⟨_, _, _, h⟩
  · rw [h]; exact .refl n
  · rw [h]; exact idle_heed m r.term n
  · have heeded := idle_heed m r.term n
    rw [h]
    exact ⟨heeded.log, heeded.commit, heeded.leads⟩

theorem idle_follow (m : Moment) (r : HeartbeatRequest) (n : Node) : Idle n (n.follow m r) :=
  ⟨follow_log .., follow_commit .., by simp⟩

theorem idle_beginCandidacy (m : Moment) (me : String) (n : Node) :
    Idle n (n.beginCandidacy m me).2 :=
  ⟨rfl, rfl, by simp [beginCandidacy]⟩

/-- Where the commit index has moved, a majority has reached it along with an entry of the current
    term. -/
def Advances (n n' : Node) : Prop :=
  n'.commit = n.commit ∨ ∃ reached, reached =
      reachedByQuorum (n'.progress.map Progress.matched ++ [n'.lastIndex]) ∧
    n.commit < reached ∧ n'.commit ≤ reached ∧ n'.log.termAt reached = n'.term

theorem advances_advanceCommit (commit : n'.commit = n.commit) : Advances n n'.advanceCommit := by
  rcases advanceCommit_cases n' with h | ⟨_, reached, reached_eq, short, term, h⟩
  · exact .inl (by rw [h, commit])
  · refine .inr ⟨reached, ?_, commit ▸ short, ?_, ?_⟩
    · simpa only [advanceCommit_progress, lastIndex, advanceCommit_log] using reached_eq
    · rw [h, commitThrough_commit]
      omega
    · rwa [advanceCommit_log, advanceCommit_term]

/-- An answer to a heartbeat tells the leader of its term something, or nobody anything. -/
theorem recordReply_leads (m : Moment) (term peer : Nat) (sent : HeartbeatRequest)
    (reply : HeartbeatReply) (n : Node) :
    Idle n (n.recordReply m term peer sent reply).2 ∨
    n.role = .leader ∧ n.term = term ∧ ∃ n', n' = (n.recordReply m term peer sent reply).2 ∧
      n'.role = .leader ∧ n'.term = n.term ∧ n'.log = n.log ∧
      n'.progress = n.progress.modify peer (learn sent reply) ∧ Advances n n' := by
  rcases recordReply_cases m term peer sent reply n with ⟨_, r⟩ | ⟨_, r⟩ | ⟨role, same, told, rfl, r | r⟩
  · exact .inl (by rw [r]; exact idle_stepDown m reply.term n)
  · exact .inl (by rw [r]; exact .refl n)
  · exact .inr ⟨role, same, _, rfl, by rw [r]; exact ⟨role, rfl, rfl, rfl, .inl rfl⟩⟩
  · refine .inr ⟨role, same, _, rfl, ?_⟩
    rw [r]
    exact ⟨by rw [advanceCommit_role]; exact role, advanceCommit_term _, advanceCommit_log _,
      advanceCommit_progress _, advances_advanceCommit rfl⟩

/-- A write that is staged is an entry of the leader's term. -/
theorem stageWrite_leads {key : String} {write : Write} {staged : Record × Nat}
    (ok : n.stageWrite key write = .ok (staged, n')) :
    n.role = .leader ∧ n'.role = .leader ∧ n'.term = n.term ∧
      (∃ e : Entry, e.term = n.term ∧ n'.log = n.log ++ [e]) ∧ n'.progress = n.progress ∧
      Advances n n' := by
  obtain ⟨role, _, version, content, _, _, rfl⟩ := stageWrite_ok ok
  exact ⟨role, by rw [advanceCommit_role]; exact role, advanceCommit_term _,
    ⟨_, rfl, advanceCommit_log _⟩, advanceCommit_progress _, advances_advanceCommit rfl⟩

theorem advances_becomeLeader (commit : n'.commit = n.commit) (me : String) (peers : Nat) :
    Advances n (n'.becomeLeader me peers) := advances_advanceCommit commit

end Node

end QuorumStore
