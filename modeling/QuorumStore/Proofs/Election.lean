import QuorumStore.Proofs.Changes
import QuorumStore.Proofs.Majority
/-! # One leader in a term

Votes outlast the moment they are given, so two majorities that elect in one term share a voter
whose vote cannot be for both. What a ballot knows is kept as an invariant, because the votes are
counted long after they were given, by a candidate that may have moved on.
-/

namespace QuorumStore.Run

variable {n : Nat} (R : Run n)

/-! ## Taking the lead -/

/-- A member becomes the leader of a term in the act after a moment. -/
def TakesLead (k : Nat) (i : Fin n) (T : Nat) : Prop :=
  (R.node k i).role ≠ .leader ∧ (R.node (k + 1) i).role = .leader ∧ (R.node (k + 1) i).term = T

/-- A member leads a term at a moment. -/
def Leads (k : Nat) (i : Fin n) (T : Nat) : Prop :=
  (R.node k i).role = .leader ∧ (R.node k i).term = T

variable {R} {k l T : Nat} {i j v : Fin n}

theorem Elects.takesLead (h : R.Elects k i T) : R.TakesLead k i T := by
  obtain ⟨before, _, _, term, _, _, next⟩ := h.won
  refine ⟨before, ?_, ?_⟩
  · rw [next, Node.becomeLeader_role]
  · rw [next, Node.becomeLeader_term, term]

theorem Leads.before (h : R.Leads (k + 1) i T) : R.Leads k i T ∨ R.TakesLead k i T := by
  cases R.change k i with
  | idle idle =>
      obtain ⟨role, term, _⟩ := idle.leads h.1
      exact .inl ⟨role, term.symm.trans h.2⟩
  | takes x r _ _ taken => exact absurd (taken.role.symm.trans h.1) (by decide)
  | records x peer sent reply _ _ _ _ role term _ term' =>
      exact .inl ⟨role, (term.trans term'.symm).trans h.2⟩
  | stages e role _ _ term => exact .inl ⟨role, term.symm.trans h.2⟩
  | wins U elects =>
      have takes := elects.takesLead
      obtain rfl := takes.2.2.symm.trans h.2
      exact .inr takes

theorem TakesLead.elects (h : R.TakesLead k i T) : R.Elects k i T := by
  cases R.change k i with
  | idle idle => exact absurd (idle.leads h.2.1).1 h.1
  | takes x r _ _ taken => exact absurd (taken.role.symm.trans h.2.1) (by decide)
  | records x peer sent reply _ _ _ _ role => exact absurd role h.1
  | stages e role => exact absurd role h.1
  | wins U elects =>
      have same : U = T := elects.takesLead.2.2.symm.trans h.2.2
      rwa [← same]

/-- Nobody becomes a leader but by winning an election. -/
theorem elects_iff : R.Elects k i T ↔ R.TakesLead k i T := ⟨Elects.takesLead, TakesLead.elects⟩

/-- A new leader puts one barrier into its log, and nothing else. -/
theorem TakesLead.log (h : R.TakesLead k i T) :
    (R.node (k + 1) i).log = (R.node k i).log ++ [⟨T, .barrier⟩] := by
  obtain ⟨candidate, term, log, _, next⟩ := h.elects.won.leads
  rw [next, Node.becomeLeader_log, log, term]

theorem Won.progress (h : R.Won k i T) : ∃ next,
    (R.node (k + 1) i).progress = List.replicate (R.roster.peers i).length ⟨next, 0⟩ := by
  obtain ⟨candidate, _, _, _, next⟩ := h.leads
  exact ⟨_, by rw [next, Node.becomeLeader_progress]⟩

theorem Won.advances (h : R.Won k i T) : Node.Advances (R.node k i) (R.node (k + 1) i) := by
  obtain ⟨candidate, _, _, commit, next⟩ := h.leads
  rw [next]
  exact Node.advances_becomeLeader commit _ _

/-! ## Votes -/

variable (R) in
/-- A member gives another its vote in a term, at some moment. -/
def Voted (v i : Fin n) (T : Nat) : Prop :=
  ∃ k, (R.node k v).term = T ∧ (R.node k v).votedFor = some (R.roster.address i)

theorem Voted.unique (h : R.Voted v i T) (h' : R.Voted v j T) : i = j := by
  obtain ⟨k, term, voted⟩ := h
  obtain ⟨l, term', voted'⟩ := h'
  apply R.roster.address_injective
  cases Nat.le_total k l with
  | inl le =>
      have kept := (R.later le v).vote (term'.trans term.symm) _ voted
      exact Option.some.inj (kept.symm.trans voted')
  | inr le =>
      have kept := (R.later le v).vote (term.trans term'.symm) _ voted'
      exact Option.some.inj (voted.symm.trans kept)

variable (R) in
/-- By a moment a member has voted for another in a term, while its own log was behind a given
    one. -/
def Backs (k : Nat) (v i : Fin n) (T : Nat) (log : Log) : Prop :=
  ∃ l ≤ k, (R.node l v).term = T ∧ (R.node l v).votedFor = some (R.roster.address i) ∧
    Log.Behind (R.node l v).log log

theorem Backs.mono {log : Log} (h : R.Backs k v i T log) (le : k ≤ l) : R.Backs l v i T log := by
  obtain ⟨m, before, backs⟩ := h
  exact ⟨m, Nat.le_trans before le, backs⟩

variable (R) in
/-- What a ballot tells is true at a moment. The log is the one its candidate asked with. -/
structure Fair (k : Nat) (x : Ballot n) (log : Log) : Prop where
  needed : x.task.needed = quorum n
  asks : ∀ r ∈ x.sent, r.term = x.task.term ∧ r.candidate = some (R.roster.address x.caller) ∧
    r.lastTerm = log.lastTerm ∧ r.commit + r.staged = log.length
  reached : x.task.term ≤ (R.node k x.caller).term
  stands : (R.node k x.caller).role = .candidate → (R.node k x.caller).term = x.task.term →
    (R.node k x.caller).log = log
  grants : ∀ peer reply, (peer, reply) ∈ x.answers → reply.granted = true →
    ∃ v, (R.roster.peers x.caller)[peer]? = some v ∧ R.Backs k v x.caller x.task.term log
  /-- Every vote that has been counted is from another member. -/
  votes : ∃ V : Finset (Fin n), x.task.granted ≤ V.card ∧ x.caller ∈ V ∧
    ∀ v ∈ V, v = x.caller ∨ ∃ peer, peer ∉ x.waiting ∧
      (R.roster.peers x.caller)[peer]? = some v ∧ R.Backs k v x.caller x.task.term log

variable {x : Ballot n} {log : Log}

theorem Fair.succ (h : R.Fair k x log) : R.Fair (k + 1) x log where
  needed := h.needed
  asks := h.asks
  reached := Nat.le_trans h.reached (R.later_succ k x.caller).term
  stands := by
    intro role term
    have same : (R.node (k + 1) x.caller).term = (R.node k x.caller).term := by
      have := h.reached
      have := (R.later_succ k x.caller).term
      omega
    obtain ⟨stood, logs⟩ := (R.later_succ k x.caller).campaign same role
    exact logs.trans (h.stands stood (same.symm.trans term))
  grants := by
    intro peer reply answered granted
    obtain ⟨v, target, backs⟩ := h.grants peer reply answered granted
    exact ⟨v, target, backs.mono (Nat.le_succ k)⟩
  votes := by
    obtain ⟨V, enough, own, all⟩ := h.votes
    refine ⟨V, enough, own, fun v hv => (all v hv).imp_right ?_⟩
    rintro ⟨peer, ended, target, backs⟩
    exact ⟨peer, ended, target, backs.mono (Nat.le_succ k)⟩

theorem Fair.start {t : Moment} (more : (R.node k i).HasNextTerm)
    (next : R.node (k + 1) i = ((R.node k i).beginCandidacy t (R.roster.address i)).2) :
    R.Fair (k + 1) (.start i ⟨(R.node k i).term + 1, 1, quorum ((R.roster.peers i).length + 1)⟩
      ((R.roster.peers i).map fun _ =>
        ((R.node k i).beginCandidacy t (R.roster.address i)).1)) (R.node k i).log where
  needed := congrArg quorum (R.roster.length_peers i)
  asks := by
    intro r hr
    obtain ⟨_, _, rfl⟩ := List.mem_map.mp hr
    have bound := (R.sound k i).bound
    exact ⟨more.nextTerm, rfl, rfl, Nat.add_sub_cancel' bound⟩
  reached := Nat.le_of_eq ((congrArg Node.term next).trans more.nextTerm).symm
  stands _ _ := congrArg (·.log) next
  grants := by simp [Exchange.start]
  votes := ⟨{i}, Nat.le_refl _, Finset.mem_singleton_self i,
    fun v hv => .inl (Finset.mem_singleton.mp hv)⟩

/-- A vote is granted only by a member whose log is behind. -/
theorem Fair.answer {peer : Nat} {request : VoteRequest} {t : Moment} (h : R.Fair k x log)
    (target : (R.roster.peers x.caller)[peer]? = some j) (sent : x.sent[peer]? = some request)
    (next : R.node (k + 1) j = ((R.node k j).decideVote t request).2) :
    R.Fair (k + 1) (x.answer peer ((R.node k j).decideVote t request).1) log := by
  refine ⟨h.succ.needed, h.succ.asks, h.succ.reached, h.succ.stands, ?_, h.succ.votes⟩
  intro p reply answered granted
  rcases List.mem_append.mp answered with old | new
  · exact h.succ.grants p reply old granted
  obtain ⟨rfl, rfl⟩ := Prod.mk.inj (List.mem_singleton.mp new)
  obtain ⟨term, candidate, last, length⟩ := h.asks request (List.mem_of_getElem? sent)
  obtain ⟨after, vote, logs, behind⟩ := Node.decideVote_granted granted
  refine ⟨j, target, k + 1, Nat.le_refl _, ?_, ?_, ?_⟩
  · rw [next, after, term]
    rfl
  · rw [next, vote, candidate]
    rfl
  · rw [next, logs]
    simpa only [Log.Behind, last, length] using behind

theorem not_mem_waiting_close {peer p : Nat} {goesOn : Bool} {task : Election}
    (ended : p = peer ∨ p ∉ x.waiting) : p ∉ (x.close peer goesOn task).waiting := by
  simp only [Exchange.close]
  split
  · intro still
    simp only [List.mem_filter, bne_iff_ne] at still
    cases ended with
    | inl same => exact still.2 same
    | inr gone => exact gone still.1
  · exact List.not_mem_nil

/-- Counting a reply counts a voter that was not counted before. -/
theorem Fair.close {peer : Nat} {goesOn : Bool} {task : Election} (h : R.Fair k x log)
    (waits : peer ∈ x.waiting) (task_eq : task = x.task ∨
      ∃ reply, (peer, reply) ∈ x.answers ∧ task = Node.heard reply x.task) :
    R.Fair k (x.close peer goesOn task) log := by
  have term : task.term = x.task.term := by
    rcases task_eq with rfl | ⟨reply, _, rfl⟩
    · rfl
    · exact heard_term reply x.task
  have needed : task.needed = x.task.needed := by
    rcases task_eq with rfl | ⟨reply, _, rfl⟩
    · rfl
    · exact heard_needed reply x.task
  obtain ⟨V, enough, own, all⟩ := h.votes
  have still : ∀ v ∈ V, v = x.caller ∨ ∃ p, p ∉ (x.close peer goesOn task).waiting ∧
      (R.roster.peers x.caller)[p]? = some v ∧ R.Backs k v x.caller task.term log := by
    intro v hv
    refine (all v hv).imp_right ?_
    rintro ⟨p, ended, target, backs⟩
    exact ⟨p, not_mem_waiting_close (.inr ended), target, term ▸ backs⟩
  refine ⟨needed.trans h.needed, ?_, ?_, ?_, ?_, ?_⟩
  · simpa only [Exchange.close, term] using h.asks
  · simpa only [Exchange.close, term] using h.reached
  · simpa only [Exchange.close, term] using h.stands
  · simpa only [Exchange.close, term] using h.grants
  rcases task_eq with rfl | ⟨reply, answered, rfl⟩
  · exact ⟨V, enough, own, still⟩
  by_cases granted : reply.granted = true
  · obtain ⟨v, target, backs⟩ := h.grants peer reply answered granted
    -- the call to this voter was open until now, so it was not counted yet
    have new : v ∉ V := by
      intro hv
      rcases all v hv with rfl | ⟨p, ended, target', _⟩
      · exact (R.roster.mem_peers x.caller x.caller).mp (List.mem_of_getElem? target) rfl
      · obtain ⟨inside, _⟩ := List.getElem?_eq_some_iff.mp target
        have same := (List.getElem?_inj inside (R.roster.peers_nodup x.caller)).mp
          (target.trans target'.symm)
        exact ended (same ▸ waits)
    refine ⟨insert v V, ?_, Finset.mem_insert_of_mem own, ?_⟩
    · rw [Finset.card_insert_of_notMem new]
      simpa [Exchange.close, Node.heard, granted] using enough
    · intro u hu
      rcases Finset.mem_insert.mp hu with rfl | hu
      · exact .inr ⟨peer, not_mem_waiting_close (.inl rfl), target, term ▸ backs⟩
      · exact still u hu
  · refine ⟨V, ?_, own, still⟩
    simpa [Exchange.close, Node.heard, granted] using enough

theorem fair (k : Nat) : ∀ x ∈ (R.state k).ballots, ∃ log, R.Fair k x log := by
  induction k with
  | zero => intro x hx; simp [state, System.start] at hx
  | succ k ih =>
      intro x hx
      cases R.ballotAfter hx with
      | kept _ old =>
          obtain ⟨log, fair⟩ := ih x old
          exact ⟨log, fair.succ⟩
      | opened i t more next => exact ⟨_, .start more next⟩
      | answered x peer j request t old target sent next =>
          obtain ⟨log, fair⟩ := ih x old
          exact ⟨log, fair.answer target sent next⟩
      | closed x peer goesOn task old waits task_eq =>
          obtain ⟨log, fair⟩ := ih x old
          exact ⟨log, fair.succ.close waits task_eq⟩

/-! ## Leaders -/

/-- Whoever takes the lead is backed by a majority, itself included. -/
theorem TakesLead.backed (h : R.TakesLead k i T) : ∃ V : Finset (Fin n), quorum n ≤ V.card ∧
    ∀ v ∈ V, v = i ∨ R.Backs k v i T (R.node k i).log := by
  rcases h.elects.won.backed with ⟨one, _⟩ | ⟨x, peer, reply, vote⟩
  · refine ⟨{i}, ?_, fun v hv => .inl (Finset.mem_singleton.mp hv)⟩
    simp [one, quorum]
  · obtain rfl := vote.own
    obtain ⟨log, fair⟩ := R.fair k x vote.ballot
    have logs := fair.stands vote.role (vote.term.trans vote.task.symm)
    have closed : R.Fair k (x.close peer true (Node.heard reply x.task)) log :=
      fair.close vote.waits (.inr ⟨reply, vote.answered, rfl⟩)
    obtain ⟨V, counted, _, all⟩ := closed.votes
    refine ⟨V, ?_, fun v hv => (all v hv).imp_right ?_⟩
    · have enough := vote.enough
      rw [heard_needed, fair.needed] at enough
      exact Nat.le_trans enough counted
    · rintro ⟨_, _, _, backs⟩
      rw [logs, ← vote.task, ← heard_term reply x.task]
      exact backs

/-- Leaders have voted for themselves, so all who back one have voted for it. -/
theorem TakesLead.voted (h : R.TakesLead k i T) : ∃ V : Finset (Fin n), quorum n ≤ V.card ∧
    ∀ v ∈ V, R.Voted v i T := by
  obtain ⟨V, enough, all⟩ := h.backed
  refine ⟨V, enough, fun v hv => ?_⟩
  rcases all v hv with rfl | ⟨l, _, term, voted, _⟩
  · exact ⟨k + 1, h.2.2, (R.sound (k + 1) v).voted (by simp [h.2.1])⟩
  · exact ⟨l, term, voted⟩

theorem TakesLead.unique_member (h : R.TakesLead k i T) (h' : R.TakesLead l j T) : i = j := by
  obtain ⟨V, enough, all⟩ := h.voted
  obtain ⟨W, enough', all'⟩ := h'.voted
  obtain ⟨v, hv, hw⟩ := exists_mem_of_quorums enough enough'
  exact (all v hv).unique (all' v hw)

/-- A member does not take the lead of a term again: it is no candidate of it any more. -/
theorem TakesLead.not_before (h : R.TakesLead k i T) (h' : R.TakesLead l i T) : ¬ k < l := by
  intro before
  have later := R.later (k := k + 1) (l := l) before i
  rcases h'.elects.won.backed with ⟨_, term⟩ | ⟨x, peer, reply, vote⟩
  · have reached := later.term
    rw [h.2.2] at reached
    omega
  · have stood := (later.campaign (vote.term.trans h.2.2.symm) vote.role).1
    rw [h.2.1] at stood
    exact absurd stood (by decide)

theorem TakesLead.unique (h : R.TakesLead k i T) (h' : R.TakesLead l j T) : k = l ∧ i = j := by
  obtain rfl := h.unique_member h'
  have := h.not_before h'
  have := h'.not_before h
  exact ⟨by omega, rfl⟩

/-- Every leader has taken the lead once and has led on since. -/
theorem Leads.since (h : R.Leads k i T) : ∃ l < k, R.TakesLead l i T ∧
    ∀ m, l < m → m ≤ k → R.Leads m i T := by
  induction k generalizing T with
  | zero => exact absurd h.1 (by simp [node, member, state, System.start, Member.start, Node.start])
  | succ k ih =>
      cases h.before with
      | inl leads =>
          obtain ⟨l, before, takes, since⟩ := ih leads
          refine ⟨l, Nat.lt_succ_of_lt before, takes, fun m after le => ?_⟩
          rcases Nat.lt_or_eq_of_le le with lt | rfl
          · exact since m after (Nat.le_of_lt_succ lt)
          · exact h
      | inr takes =>
          refine ⟨k, Nat.lt_succ_self k, takes, fun m after le => ?_⟩
          obtain rfl : m = k + 1 := by omega
          exact h

theorem Leads.unique (h : R.Leads k i T) (h' : R.Leads l j T) : i = j := by
  obtain ⟨_, _, takes, _⟩ := h.since
  obtain ⟨_, _, takes', _⟩ := h'.since
  exact takes.unique_member takes'

/-- A term has at most one leader, which takes the lead at most once, and then puts exactly one
    barrier into its log. -/
theorem one_leader_in_a_term (R : Run n) (T : Nat) :
    (∀ k i l j, R.Elects k i T → R.Elects l j T → k = l ∧ i = j) ∧
    (∀ k i l j, R.Leads k i T → R.Leads l j T → i = j) ∧
    ∀ k i, R.Elects k i T →
      (R.node (k + 1) i).log = (R.node k i).log ++ [⟨T, .barrier⟩] := by
  refine ⟨?_, ?_, ?_⟩
  · intro k i l j h h'
    exact (elects_iff.mp h).unique (elects_iff.mp h')
  · intro k i l j h h'
    exact h.unique h'
  · intro k i h
    exact (elects_iff.mp h).log

theorem one_leader_in_the_sample : sample.Elects 3 0 1 ∧
    (sample.node 4 0).log = (sample.node 3 0).log ++ [⟨1, .barrier⟩] := by
  have elected : sample.Elects 3 0 1 := by
    rw [elects_iff, TakesLead]
    decide +kernel
  exact ⟨elected, (one_leader_in_a_term sample 1).2.2 3 0 elected⟩

end QuorumStore.Run
