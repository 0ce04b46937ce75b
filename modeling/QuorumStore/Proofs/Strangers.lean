import QuorumStore.Proofs.Tickets
import QuorumStore.Proofs.Majority
/-! # A node among strangers

A node that knows nothing of those who send it messages, and gets any answer at all to the
heartbeats that it has built, stays in order all the same: its store is the replay of what it has
committed, whoever waits at it waits for an entry that is there, and it keeps track of its peers
exactly while it leads.
-/

namespace QuorumStore

namespace Node

variable {me : String} {peers : Nat} {n n' : Node}

/-- Clients wait for entries that are in the log and not committed yet. -/
def Waits (n : Node) : Prop :=
  ∀ t ∈ n.tickets, t.verdict = .pending →
    n.commit < t.index ∧ t.index ≤ n.lastIndex ∧ n.log.termAt t.index = t.term

/-- Nobody waits, and nothing is remembered about the peers. -/
structure Withdrawn (n : Node) : Prop where
  resolved : ∀ t ∈ n.tickets, t.verdict ≠ .pending
  forgotten : n.progress = []

/-- There is one slot for each peer, and no slot speaks of entries that the log does not have. -/
structure Tracks (peers : Nat) (n : Node) : Prop where
  slots : n.progress.length = peers
  known : ∀ p ∈ n.progress, 1 ≤ p.next ∧ p.matched ≤ n.lastIndex

/-- The clients and the peers of a node are served by its leader only. -/
structure Orderly (peers : Nat) (n : Node) : Prop where
  waits : n.Waits
  withdrawn : n.role ≠ .leader → n.Withdrawn
  tracks : n.role = .leader → n.Tracks peers

/-! ## Followers and candidates -/

theorem waits_of_resolved (resolved : ∀ t ∈ n.tickets, t.verdict ≠ .pending) : n.Waits :=
  fun t ht pending => absurd pending (resolved t ht)

theorem Orderly.of_withdrawn (role : n.role ≠ .leader) (h : n.Withdrawn) : n.Orderly peers where
  waits := waits_of_resolved h.resolved
  withdrawn _ := h
  tracks leads := absurd leads role

theorem orderly_start (m : Moment) : (start m).Orderly peers := by
  apply Orderly.of_withdrawn
  · simp [start]
  · exact ⟨by simp [start], rfl⟩

theorem withdrawn_stepDown (m : Moment) (term : Nat) (n : Node) :
    (n.stepDown m term).Withdrawn := by
  refine ⟨?_, rfl⟩
  intro t ht
  rw [stepDown_tickets] at ht
  obtain ⟨old, _, rfl⟩ := List.mem_map.mp ht
  exact old.drop_not_pending

theorem orderly_stepDown (m : Moment) (term : Nat) (n : Node) :
    (n.stepDown m term).Orderly peers :=
  .of_withdrawn (by simp) (withdrawn_stepDown m term n)

theorem Withdrawn.of_drops (h : n.Withdrawn) (drops : Drops n n')
    (progress : n'.progress = n.progress) : n'.Withdrawn := by
  refine ⟨?_, progress.trans h.forgotten⟩
  obtain ⟨f, dropped, after⟩ := drops
  intro t ht
  rw [after] at ht
  obtain ⟨old, mem, rfl⟩ := List.mem_map.mp ht
  cases dropped old with
  | inl same =>
      rw [same]
      exact h.resolved old mem
  | inr gone =>
      rw [gone]
      exact old.drop_not_pending

theorem Waits.decideVote (h : n.Waits) (m : Moment) (r : VoteRequest) :
    (n.decideVote m r).2.Waits := by
  have heeded : (n.heed m r.term).Waits := by
    rw [heed]
    split
    · exact waits_of_resolved (withdrawn_stepDown m r.term n).resolved
    · exact h
  rcases decideVote_cases m r n with ⟨_, e⟩ | ⟨_, e⟩ | ⟨_, _, _, e⟩
  · rwa [e]
  · rwa [e]
  · rw [e]
    exact heeded

theorem Orderly.decideVote (h : n.Orderly peers) (m : Moment) (r : VoteRequest) :
    (n.decideVote m r).2.Orderly peers := by
  have heeded : (n.heed m r.term).Orderly peers := by
    rw [heed]
    split
    · exact orderly_stepDown m r.term n
    · exact h
  rcases decideVote_cases m r n with ⟨_, e⟩ | ⟨_, e⟩ | ⟨_, _, _, e⟩
  · rwa [e]
  · rwa [e]
  · rw [e]
    refine ⟨heeded.waits, fun role => ?_, fun role => ?_⟩
    · have rests := heeded.withdrawn role
      exact ⟨rests.resolved, rests.forgotten⟩
    · have tracks := heeded.tracks role
      exact ⟨tracks.slots, tracks.known⟩

/-- Whoever follows has given up whatever it had as a leader. -/
theorem Orderly.withdrawn_follow (h : n.Orderly peers) (m : Moment) (r : HeartbeatRequest) :
    (n.follow m r).Withdrawn := by
  rw [follow]
  split
  · have down := withdrawn_stepDown m r.term n
    exact ⟨down.resolved, down.forgotten⟩
  · rename_i same
    have role : n.role = .follower := Decidable.not_not.mp (not_or.mp same).2
    have rests := h.withdrawn (by simp [role])
    exact ⟨rests.resolved, rests.forgotten⟩

theorem Orderly.handleHeartbeat (h : n.Orderly peers) (sound : n.Sound me) (m : Moment)
    (r : HeartbeatRequest) : (n.handleHeartbeat m r).2.Orderly peers := by
  have follows := h.withdrawn_follow m r
  rcases handleHeartbeat_cases m r n with ⟨_, e⟩ | ⟨_, _, e⟩ | ⟨_, inside, _, taken, took, e⟩
  · rwa [e]
  · rw [e]
    exact .of_withdrawn (by simp) follows
  · obtain ⟨_, _, f, drops, frame⟩ :=
      takeOver_through (sound.follow m r).bound (by simpa [lastIndex] using inside) took
    have role : taken.role = .follower := by rw [frame]; exact follow_role m r n
    have takes : taken.Withdrawn := by
      apply follows.of_drops
      · exact ⟨f, drops, by rw [frame]⟩
      · rw [frame]
    rw [e]
    apply Orderly.of_withdrawn
    · simp [role]
    · refine ⟨?_, by simpa using takes.forgotten⟩
      rw [commitThrough_of_none_pending _ takes.resolved]
      exact takes.resolved

theorem Orderly.beginCandidacy (h : n.Orderly peers) (role : n.role ≠ .leader) (m : Moment)
    (name : String) : (n.beginCandidacy m name).2.Orderly peers := by
  apply Orderly.of_withdrawn
  · simp [Node.beginCandidacy]
  · exact ⟨(h.withdrawn role).resolved, rfl⟩

/-! ## Leaders -/

theorem Waits.commitThrough (h : n.Waits) (target : Nat) : (n.commitThrough target).Waits := by
  rw [Node.commitThrough]
  split
  · exact h
  · intro t ht pending
    obtain ⟨old, mem, rfl⟩ := List.mem_map.mp ht
    rw [settle] at pending ⊢
    split at pending
    · -- a ticket that is settled now is pending no longer
      simp only at pending
      split at pending <;> simp at pending
    · rename_i unsettled
      rw [if_neg unsettled]
      obtain ⟨_, inside, term⟩ := h old mem pending
      have beyond : ¬ old.index ≤ min target n.lastIndex := fun le => unsettled ⟨pending, le⟩
      exact ⟨Nat.lt_of_not_le beyond, inside, term⟩

theorem Waits.advanceCommit (h : n.Waits) : n.advanceCommit.Waits := by
  rcases advanceCommit_cases n with same | ⟨_, reached, _, _, _, same⟩
  · rwa [same]
  · rw [same]
    exact h.commitThrough reached

theorem Tracks.advanceCommit (h : n.Tracks peers) : n.advanceCommit.Tracks peers where
  slots := by simpa using h.slots
  known := by simpa [lastIndex] using h.known

/-- Whoever takes the lead has nobody waiting. -/
theorem waits_becomeLeader (resolved : ∀ t ∈ n.tickets, t.verdict ≠ .pending) (name : String)
    (peers : Nat) : (n.becomeLeader name peers).Waits := by
  rw [Node.becomeLeader]
  exact Waits.advanceCommit (waits_of_resolved resolved)

/-- Counting may commit more, and leaves a leader in order. -/
theorem orderly_advanceCommit (role : n.role = .leader) (waits : n.Waits)
    (tracks : n.Tracks peers) : n.advanceCommit.Orderly peers where
  waits := waits.advanceCommit
  withdrawn other := absurd role (by simpa using other)
  tracks _ := tracks.advanceCommit

theorem Orderly.becomeLeader (h : n.Orderly peers) (role : n.role = .candidate) (name : String) :
    (n.becomeLeader name peers).Orderly peers := by
  have resolved := (h.withdrawn (by simp [role])).resolved
  rw [Node.becomeLeader]
  apply orderly_advanceCommit
  · rfl
  · exact waits_of_resolved resolved
  · constructor
    · simp
    · intro p hp
      rw [List.eq_of_mem_replicate hp]
      simp [lastIndex, append]

theorem Waits.append (h : n.Waits) (e : Entry) : (n.append e).Waits := by
  intro t ht pending
  obtain ⟨open_, inside, term⟩ := h t ht pending
  refine ⟨open_, ?_, ?_⟩
  · simp only [lastIndex, Node.append, List.length_append] at inside ⊢
    omega
  · cases index : t.index with
    | zero => omega
    | succ i =>
        rw [index, Log.termAt_succ] at term
        rw [index] at inside
        rw [Log.termAt_succ, Node.append, List.getElem?_append_left inside, term]

/-- Whoever claims a ticket for the last entry waits for it, provided that it is new. -/
theorem Waits.claimTicket (h : n.Waits) (new : n.commit < n.lastIndex)
    (own : n.log.termAt n.lastIndex = n.term) : n.claimTicket.Waits := by
  obtain ⟨f, drops, after⟩ := claimTicket_tickets n
  intro t ht pending
  rw [after] at ht
  cases List.mem_append.mp ht with
  | inl older =>
      obtain ⟨old, mem, rfl⟩ := List.mem_map.mp older
      cases drops old with
      | inl same =>
          rw [same] at pending ⊢
          exact h old mem pending
      | inr gone =>
          rw [gone] at pending
          exact absurd pending old.drop_not_pending
  | inr newest =>
      rw [List.mem_singleton.mp newest]
      exact ⟨new, Nat.le_refl _, own⟩

/-- Whoever stages an entry of its own term waits for it, as everybody else waits on. -/
theorem Waits.stage (h : n.Waits) (bound : n.commit ≤ n.lastIndex) {e : Entry}
    (own : e.term = n.term) : (n.append e).claimTicket.Waits := by
  have longer : (n.append e).lastIndex = n.lastIndex + 1 := by simp [lastIndex, Node.append]
  apply (h.append e).claimTicket
  · rw [longer]
    exact Nat.lt_succ_of_le bound
  · rw [longer, Log.termAt_succ]
    simp [Node.append, lastIndex, own]

theorem Waits.stageWrite (h : n.Waits) (bound : n.commit ≤ n.lastIndex) {key : String}
    {write : Write} {staged : Record × Nat} (ok : n.stageWrite key write = .ok (staged, n')) :
    n'.Waits := by
  obtain ⟨_, _, version, content, _, _, rfl⟩ := stageWrite_ok ok
  exact (h.stage bound rfl).advanceCommit

theorem Orderly.stageWrite (h : n.Orderly peers) (sound : n.Sound me) {key : String}
    {write : Write} {staged : Record × Nat} (ok : n.stageWrite key write = .ok (staged, n')) :
    n'.Orderly peers := by
  obtain ⟨role, _, version, content, _, _, rfl⟩ := stageWrite_ok ok
  let e : Entry := ⟨n.term, .write key content version⟩
  have longer : (n.append e).lastIndex = n.lastIndex + 1 := by simp [lastIndex, append]
  have tracks := h.tracks role
  apply orderly_advanceCommit
  · exact role
  · exact h.waits.stage sound.bound rfl
  · refine ⟨tracks.slots, ?_⟩
    intro p hp
    obtain ⟨next, matched⟩ := tracks.known p hp
    refine ⟨next, ?_⟩
    change p.matched ≤ (n.append e).lastIndex
    omega

/-- What a leader learns of a peer stays inside the log, as long as it asked about nothing else. -/
theorem Tracks.learn (h : n.Tracks peers) {sent : HeartbeatRequest}
    (inside : sent.lastIndex ≤ n.lastIndex) (reply : HeartbeatReply) (peer : Nat) :
    (n.updateProgress peer (learn sent reply)).Tracks peers := by
  constructor
  · simpa [updateProgress] using h.slots
  · intro p hp
    obtain ⟨q, at_⟩ := List.mem_iff_getElem?.mp hp
    simp only [updateProgress, List.getElem?_modify] at at_
    obtain ⟨old, before, rfl⟩ := Option.map_eq_some_iff.mp at_
    obtain ⟨next, matched⟩ := h.known old (List.mem_of_getElem? before)
    simp only [lastIndex, updateProgress] at *
    split
    · rw [Node.learn]
      split
      · exact ⟨Nat.succ_pos _, Nat.max_le.mpr ⟨matched, inside⟩⟩
      · exact ⟨Nat.le_max_left .., matched⟩
    · exact ⟨next, matched⟩

theorem Waits.recordReply (h : n.Waits) (m : Moment) (term peer : Nat) (sent : HeartbeatRequest)
    (reply : HeartbeatReply) : (n.recordReply m term peer sent reply).2.Waits := by
  have told : (n.updateProgress peer (Node.learn sent reply)).Waits := h
  rcases recordReply_cases m term peer sent reply n with
    ⟨_, r⟩ | ⟨_, r⟩ | ⟨_, _, _, rfl, r | r⟩
  · rw [r]
    exact waits_of_resolved (withdrawn_stepDown m reply.term n).resolved
  · rwa [r]
  · rwa [r]
  · rw [r]
    exact told.advanceCommit

theorem Orderly.recordReply (h : n.Orderly peers) {sent : HeartbeatRequest}
    (inside : n.role = .leader → sent.term = n.term → sent.lastIndex ≤ n.lastIndex) (m : Moment)
    (peer : Nat) (reply : HeartbeatReply) :
    (n.recordReply m sent.term peer sent reply).2.Orderly peers := by
  rcases recordReply_cases m sent.term peer sent reply n with
    ⟨_, r⟩ | ⟨_, r⟩ | ⟨role, same, told, rfl, r⟩
  · rw [r]
    exact orderly_stepDown m reply.term n
  · rwa [r]
  · have tracks := (h.tracks role).learn (inside role same.symm) reply peer
    cases r with
    | inl r =>
        rw [r]
        exact ⟨h.waits, (absurd role ·), fun _ => tracks⟩
    | inr r =>
        rw [r]
        exact orderly_advanceCommit role h.waits tracks

/-! ## From step to step -/

/-- One term of a leader: its log only grows, and so does what it knows of its peers. -/
structure Reigns (n n' : Node) : Prop where
  role : n.role = .leader
  term : n'.term = n.term
  log : n.log <+: n'.log
  matched : ∀ (peer : Nat) (p : Progress), n.progress[peer]? = some p →
    ∃ p', n'.progress[peer]? = some p' ∧ p.matched ≤ p'.matched

theorem Reigns.of_progress (role : n.role = .leader) (term : n'.term = n.term)
    (log : n.log <+: n'.log) (progress : n'.progress = n.progress) : Reigns n n' :=
  ⟨role, term, log, fun peer p at_ => ⟨p, by rw [progress, at_], Nat.le_refl _⟩⟩

theorem Idle.reigns (h : Idle n n') (leads : n'.role = .leader) : Reigns n n' := by
  obtain ⟨role, term, progress⟩ := h.leads leads
  exact .of_progress role term (by rw [h.log]) progress

/-- What can follow a state of a node in one step. -/
structure Onward (n n' : Node) : Prop where
  later : Later n n'
  leads : n'.role = .leader → n.role = .candidate ∨ Reigns n n'

theorem Onward.of_idle (later : Later n n') (idle : Idle n n') : Onward n n' :=
  ⟨later, fun leads => .inr (idle.reigns leads)⟩

theorem Sound.onward_handleHeartbeat (h : n.Sound me) (m : Moment) (r : HeartbeatRequest) :
    Onward n (n.handleHeartbeat m r).2 := by
  refine ⟨h.later_handleHeartbeat m r, ?_⟩
  intro leads
  rcases answers h.bound m r with ⟨_, same | ⟨_, follows⟩⟩ | ⟨_, taken⟩
  · rw [same] at leads ⊢
    exact .inr ((Idle.refl n).reigns leads)
  · rw [follows] at leads
    simp at leads
  · rw [taken.role] at leads
    simp at leads

theorem Sound.onward_fold (h : n.Sound me) (m : Moment) (peers : Nat) (reply : VoteReply)
    (e : Election) : Onward n (e.fold m me peers reply n).2.2 := by
  refine ⟨h.later_fold m peers reply e, ?_⟩
  rcases fold_cases m me peers reply e n with ⟨_, f⟩ | ⟨_, _, f⟩ | ⟨role, _, _, f⟩
  · simp [f]
  · simp only [f]
    exact fun leads => .inr ((Idle.refl n).reigns leads)
  · exact fun _ => .inl role

theorem Sound.onward_stageWrite (h : n.Sound me) {key : String} {write : Write}
    {staged : Record × Nat} (ok : n.stageWrite key write = .ok (staged, n')) : Onward n n' := by
  obtain ⟨role, _, term, ⟨e, _, log⟩, progress, _⟩ := stageWrite_leads ok
  refine ⟨h.later_stageWrite ok, fun _ => .inr ?_⟩
  exact .of_progress role term (log ▸ List.prefix_append ..) progress

theorem matched_le_learn (sent : HeartbeatRequest) (reply : HeartbeatReply) (p : Progress) :
    p.matched ≤ (learn sent reply p).matched := by
  rw [learn]
  split
  · exact Nat.le_max_left ..
  · exact Nat.le_refl _

theorem onward_recordReply (m : Moment) (term peer : Nat) (sent : HeartbeatRequest)
    (reply : HeartbeatReply) (n : Node) : Onward n (n.recordReply m term peer sent reply).2 := by
  have later := later_recordReply m term peer sent reply n
  rcases recordReply_leads m term peer sent reply n with
    idle | ⟨role, _, n', rfl, _, same, log, progress, _⟩
  · exact .of_idle later idle
  · refine ⟨later, fun _ => .inr ⟨role, same, by rw [log], ?_⟩⟩
    intro q p at_
    rw [progress, List.getElem?_modify, at_]
    refine ⟨_, rfl, ?_⟩
    split
    · exact matched_le_learn sent reply p
    · exact Nat.le_refl _

/-- What a step must never undo, and while the node stays the leader, what it must only extend. -/
structure Kept (n n' : Node) : Prop where
  term : n.term ≤ n'.term
  commit : n.commit ≤ n'.commit
  committed : n'.log.take n.commit = n.log.take n.commit
  leading : n.role = .leader → n'.role = .leader → Reigns n n'

theorem Onward.kept (h : Onward n n') : Kept n n' where
  term := h.later.term
  commit := h.later.commit
  committed := h.later.committed
  leading role leads := by
    cases h.leads leads with
    | inl candidate => simp [role] at candidate
    | inr reigns => exact reigns

/-- What a node can still say of a heartbeat that it has built for a peer. -/
structure Recalls (peers : Nat) (n : Node) (peer : Nat) (sent : HeartbeatRequest) : Prop where
  peer : peer < peers
  term : sent.term ≤ n.term
  /-- Whoever has led a term is no candidate in it any more. -/
  led : sent.term = n.term → n.role ≠ .candidate
  inside : n.role = .leader → sent.term = n.term → sent.lastIndex ≤ n.lastIndex

theorem Recalls.onward {peer : Nat} {sent : HeartbeatRequest} (h : n.Recalls peers peer sent)
    (onward : Onward n n') : n'.Recalls peers peer sent := by
  have before := h.term
  have rises := onward.later.term
  refine ⟨h.peer, Nat.le_trans before rises, ?_, ?_⟩
  · intro same candidate
    have campaigns := onward.later.campaign (by omega) candidate
    exact h.led (by omega) campaigns.1
  · intro leads same
    cases onward.leads leads with
    | inl candidate => exact absurd candidate (h.led (by omega))
    | inr reigns =>
        have inside := h.inside reigns.role (by omega)
        exact Nat.le_trans inside reigns.log.length_le

end Node

/-- A node and the heartbeats that it has built so far, each with the number of its peer. -/
structure Exposed where
  node : Node
  built : List (Nat × HeartbeatRequest)

namespace Exposed

open Node

variable {me : String} {peers : Nat} {s s' : Exposed}

/-- What can happen to a node among strangers. Requests and answers are any at all; an answer comes
    to a heartbeat that the node has built, and is taken in for the peer and the term of that
    heartbeat. A stranger can bring the node into the greatest term there is: it then campaigns no
    more, as no sum leaves its range here. -/
inductive Step (me : String) (peers : Nat) : Exposed → Exposed → Prop where
  | campaigns (s : Exposed) (m : Moment) (role : s.node.role ≠ .leader)
      (more : s.node.HasNextTerm) :
      Step me peers s { s with node := (s.node.beginCandidacy m me).2 }
  | wins (s : Exposed) (role : s.node.role = .candidate) :
      Step me peers s { s with node := s.node.becomeLeader me peers }
  | stages (s : Exposed) (key : String) (write : Write) (staged : Record × Nat) (n : Node)
      (ok : s.node.stageWrite key write = .ok (staged, n)) :
      Step me peers s { s with node := n }
  | votes (s : Exposed) (m : Moment) (r : VoteRequest) :
      Step me peers s { s with node := (s.node.decideVote m r).2 }
  | hears (s : Exposed) (m : Moment) (r : HeartbeatRequest) :
      Step me peers s { s with node := (s.node.handleHeartbeat m r).2 }
  | builds (s : Exposed) (peer : Nat) (r : HeartbeatRequest)
      (some : s.node.heartbeatFor? peer me = some r) :
      Step me peers s { s with built := s.built ++ [(peer, r)] }
  | records (s : Exposed) (m : Moment) (peer : Nat) (sent : HeartbeatRequest)
      (reply : HeartbeatReply) (mem : (peer, sent) ∈ s.built) :
      Step me peers s { s with node := (s.node.recordReply m sent.term peer sent reply).2 }

/-- The states that a node can get into, from its start on. -/
inductive Reachable (me : String) (peers : Nat) : Exposed → Prop where
  | start (m : Moment) : Reachable me peers ⟨.start m, []⟩
  | step {s s' : Exposed} (before : Reachable me peers s) (step : Step me peers s s') :
      Reachable me peers s'

/-- Wherever a step looks something up by its position, it is there. -/
structure InRange (me : String) (peers : Nat) (s : Exposed) : Prop where
  /-- The entries that are not committed begin inside the log or right behind it. -/
  staged : s.node.commit ≤ s.node.lastIndex
  /-- A leader has a heartbeat for every peer. -/
  built : s.node.role = .leader → ∀ peer < peers, ∃ r, s.node.heartbeatFor? peer me = some r
  /-- An answer that is taken in finds the slot of its peer. -/
  answered : s.node.role = .leader → ∀ x ∈ s.built, ∃ p, s.node.progress[x.1]? = some p
  /-- Somebody stands where a majority is counted up to. -/
  counted : ∀ ns, ns = s.node.progress.map Progress.matched ++ [s.node.lastIndex] →
    ∃ reached, (sortFalling ns)[quorum ns.length - 1]? = some reached

/-- What every step keeps, and what it takes to keep it. -/
structure Guarded (me : String) (peers : Nat) (s : Exposed) : Prop where
  sound : s.node.Sound me
  orderly : s.node.Orderly peers
  recalls : ∀ x ∈ s.built, s.node.Recalls peers x.1 x.2

theorem guarded_start (m : Moment) : Guarded me peers ⟨.start m, []⟩ :=
  ⟨sound_start me m, orderly_start m, by simp⟩

theorem Step.onward (sound : s.node.Sound me) (step : Step me peers s s') :
    Onward s.node s'.node := by
  cases step with
  | campaigns m _ more =>
      exact .of_idle (more.later_beginCandidacy m me) (idle_beginCandidacy m me _)
  | wins role => exact ⟨sound.later_becomeLeader me peers, fun _ => .inl role⟩
  | stages key write staged n ok => exact sound.onward_stageWrite ok
  | votes m r => exact .of_idle (later_decideVote m r _) (idle_decideVote m r _)
  | hears m r => exact sound.onward_handleHeartbeat m r
  | builds peer r some => exact .of_idle (.refl _) (.refl _)
  | records m peer sent reply _ => exact onward_recordReply m sent.term peer sent reply _

theorem Step.sound (before : s.node.Sound me) (step : Step me peers s s') :
    s'.node.Sound me := by
  cases step with
  | campaigns m _ _ => exact before.beginCandidacy m
  | wins role => exact before.becomeLeader peers role
  | stages key write staged n ok => exact before.stageWrite ok
  | votes m r => exact before.decideVote m r
  | hears m r => exact before.handleHeartbeat m r
  | builds peer r _ => exact before
  | records m peer sent reply _ => exact before.recordReply m sent.term peer sent reply

/-- A heartbeat that is built is one of the leader's term, for a peer and within the log. -/
theorem Guarded.recalls_new (h : s.Guarded me peers) {peer : Nat} {r : HeartbeatRequest}
    (new : s.node.heartbeatFor? peer me = some r) : s.node.Recalls peers peer r := by
  have tells := tells_heartbeatFor? new
  obtain ⟨p, at_⟩ : ∃ p, s.node.progress[peer]? = some p := by
    cases slot : s.node.progress[peer]? with
    | none => simp [heartbeatFor?, slot] at new
    | some p => exact ⟨p, rfl⟩
  have leads : s.node.role = .leader := by
    by_contra other
    simp [(h.orderly.withdrawn other).forgotten] at at_
  refine ⟨?_, Nat.le_of_eq tells.term, by simp [leads], fun _ _ => tells.lastIndex_le⟩
  obtain ⟨inside, _⟩ := List.getElem?_eq_some_iff.mp at_
  exact (h.orderly.tracks leads).slots ▸ inside

theorem Guarded.step (h : s.Guarded me peers) (step : Step me peers s s') :
    s'.Guarded me peers := by
  have ⟨sound, orderly, recalls⟩ := h
  have after := step.sound sound
  have onward := step.onward sound
  have still : ∀ x ∈ s.built, s'.node.Recalls peers x.1 x.2 :=
    fun x hx => (recalls x hx).onward onward
  cases step with
  | campaigns m role _ => exact ⟨after, orderly.beginCandidacy role m me, still⟩
  | wins role => exact ⟨after, orderly.becomeLeader role me, still⟩
  | stages key write staged n ok => exact ⟨after, orderly.stageWrite sound ok, still⟩
  | votes m r => exact ⟨after, orderly.decideVote m r, still⟩
  | hears m r => exact ⟨after, orderly.handleHeartbeat sound m r, still⟩
  | builds peer r new =>
      refine ⟨after, orderly, ?_⟩
      intro x hx
      cases List.mem_append.mp hx with
      | inl old => exact recalls x old
      | inr last =>
          rw [List.mem_singleton.mp last]
          exact h.recalls_new new
  | records m peer sent reply mem =>
      have inside := (recalls _ mem).inside
      exact ⟨after, orderly.recordReply inside m peer reply, still⟩

theorem Reachable.guarded (h : Reachable me peers s) : s.Guarded me peers := by
  induction h with
  | start m => exact guarded_start m
  | step _ step ih => exact ih.step step

theorem Guarded.inRange (h : s.Guarded me peers) : s.InRange me peers where
  staged := h.sound.bound
  built := by
    intro leads peer inside
    have slots := (h.orderly.tracks leads).slots
    have at_ : s.node.progress[peer]? = some s.node.progress[peer] := List.getElem?_eq_getElem _
    rw [heartbeatFor?, at_]
    exact ⟨_, rfl⟩
  answered := by
    intro leads x hx
    have inside := (h.recalls x hx).peer
    rw [← (h.orderly.tracks leads).slots] at inside
    exact ⟨_, List.getElem?_eq_getElem inside⟩
  counted := by
    rintro ns rfl
    have some : s.node.progress.map Progress.matched ++ [s.node.lastIndex] ≠ [] := by simp
    obtain ⟨inside, _⟩ := reachedByQuorum_eq some
    exact ⟨_, List.getElem?_eq_getElem inside⟩

/-- Among strangers a node stays sound and orderly, finds everything that it looks up, and loses
    nothing from one step to the next. -/
theorem orderly_among_strangers (reached : Reachable me peers s) :
    s.node.Sound me ∧ s.node.Orderly peers ∧ s.InRange me peers ∧
      ∀ s', Step me peers s s' → Kept s.node s'.node := by
  have guarded := reached.guarded
  refine ⟨guarded.sound, guarded.orderly, guarded.inRange, ?_⟩
  intro s' step
  exact (step.onward guarded.sound).kept

/-- A leader of three whose client still waits, as one peer has refused and the other is silent. -/
theorem orderly_among_strangers_while_a_client_waits : ∃ s : Exposed, Reachable "a" 2 s ∧
    s.node.role = .leader ∧ s.node.tickets = [⟨2, 1, .pending⟩] ∧ s.built.length = 1 ∧
      s.node.Sound "a" ∧ s.node.Orderly 2 ∧ s.InRange "a" 2 ∧
        ∀ s', Step "a" 2 s s' → Kept s.node s'.node := by
  have started : Reachable "a" 2 ⟨.start ⟨0, 10⟩, []⟩ := .start ⟨0, 10⟩
  have campaigning := started.step (.campaigns _ ⟨10, 10⟩ (by decide) (by decide))
  have leading := campaigning.step (.wins _ rfl)
  have waiting := leading.step (.stages _ "k" .delete _ _ rfl)
  have asking := waiting.step (.builds _ 0 _ rfl)
  have refused := asking.step (.records _ ⟨11, 10⟩ 0 _ ⟨1, 0, false, 0⟩ (.head _))
  exact ⟨_, refused, rfl, rfl, rfl, orderly_among_strangers refused⟩

end Exposed

end QuorumStore
