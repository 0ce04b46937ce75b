import QuorumStore.Node.Replication
import QuorumStore.Node.Staging
import QuorumStore.Proofs.LogOrder
/-! # What the steps of a node do

One lemma for each function on nodes says everything that it can do; whatever comes later argues
from these and opens no function again. `Later` collects what no step undoes and `Sound` what every
step keeps.
-/

namespace QuorumStore

theorem Standing.le_iff {a b : Standing} : a.le b = true ↔
    a.lastTerm < b.lastTerm ∨ a.lastTerm = b.lastTerm ∧
      (a.length < b.length ∨ a.length = b.length ∧ a.commit ≤ b.commit) := by
  simp [Standing.le]

namespace Node

variable {n n' : Node}

/-! ## Stepping down -/

@[simp] theorem stepDown_role (m : Moment) (term : Nat) (n : Node) :
    (n.stepDown m term).role = .follower := rfl

@[simp] theorem stepDown_term (m : Moment) (term : Nat) (n : Node) :
    (n.stepDown m term).term = max n.term term := by
  simp only [stepDown, adoptTerm]
  split
  · rename_i later
    exact (Nat.max_eq_right (Nat.le_of_lt later)).symm
  · rename_i reached
    exact (Nat.max_eq_left (Nat.le_of_not_lt reached)).symm

@[simp] theorem stepDown_log (m : Moment) (term : Nat) (n : Node) :
    (n.stepDown m term).log = n.log := by
  simp only [stepDown, adoptTerm]
  split <;> rfl

@[simp] theorem stepDown_commit (m : Moment) (term : Nat) (n : Node) :
    (n.stepDown m term).commit = n.commit := by
  simp only [stepDown, adoptTerm]
  split <;> rfl

@[simp] theorem stepDown_store (m : Moment) (term : Nat) (n : Node) :
    (n.stepDown m term).store = n.store := by
  simp only [stepDown, adoptTerm]
  split <;> rfl

@[simp] theorem stepDown_tickets (m : Moment) (term : Nat) (n : Node) :
    (n.stepDown m term).tickets = n.tickets.map Ticket.drop := by
  simp only [stepDown, adoptTerm]
  split <;> rfl

theorem stepDown_votedFor (m : Moment) (term : Nat) (n : Node) :
    (n.stepDown m term).votedFor = if n.term < term then none else n.votedFor := by
  simp only [stepDown, adoptTerm]
  split <;> rfl

/-! ## Committing -/

@[simp] theorem commitThrough_role (target : Nat) (n : Node) :
    (n.commitThrough target).role = n.role := by
  simp only [commitThrough]
  split <;> rfl

@[simp] theorem commitThrough_term (target : Nat) (n : Node) :
    (n.commitThrough target).term = n.term := by
  simp only [commitThrough]
  split <;> rfl

@[simp] theorem commitThrough_votedFor (target : Nat) (n : Node) :
    (n.commitThrough target).votedFor = n.votedFor := by
  simp only [commitThrough]
  split <;> rfl

@[simp] theorem commitThrough_log (target : Nat) (n : Node) :
    (n.commitThrough target).log = n.log := by
  simp only [commitThrough]
  split <;> rfl

@[simp] theorem commitThrough_progress (target : Nat) (n : Node) :
    (n.commitThrough target).progress = n.progress := by
  simp only [commitThrough]
  split <;> rfl

@[simp] theorem commitThrough_leader (target : Nat) (n : Node) :
    (n.commitThrough target).leader = n.leader := by
  simp only [commitThrough]
  split <;> rfl

/-- What is committed already is not committed again. -/
theorem commitThrough_of_le {target : Nat} (committed : target ≤ n.commit) :
    n.commitThrough target = n := by
  rw [commitThrough, if_pos (Nat.le_trans (Nat.min_le_left ..) committed)]

theorem commitThrough_commit (target : Nat) (n : Node) :
    (n.commitThrough target).commit = max n.commit (min target n.lastIndex) := by
  simp only [commitThrough]
  split
  · rename_i reached
    exact (Nat.max_eq_left reached).symm
  · rename_i short
    exact (Nat.max_eq_right (Nat.le_of_not_le short)).symm

theorem commitThrough_bound (bound : n.commit ≤ n.lastIndex) (target : Nat) :
    (n.commitThrough target).commit ≤ (n.commitThrough target).lastIndex := by
  rw [commitThrough_commit]
  simp only [lastIndex, commitThrough_log] at *
  omega

theorem append_bound (bound : n.commit ≤ n.lastIndex) (e : Entry) :
    (n.append e).commit ≤ (n.append e).lastIndex := by
  simp only [append, lastIndex, List.length_append] at *
  omega

theorem commitThrough_store (target : Nat) (n : Node) : (n.commitThrough target).store =
    n.store.applyAll ((n.log.take (n.commitThrough target).commit).drop n.commit) := by
  rw [commitThrough]
  split
  · have nothing : (n.log.take n.commit).length ≤ n.commit := by
      rw [List.length_take]
      exact Nat.min_le_left ..
    rw [List.drop_eq_nil_of_le nothing]
    rfl
  · rfl

/-- Whether a step of a leader commits is decided by what a majority has reached. -/
theorem advanceCommit_cases (n : Node) : n.advanceCommit = n ∨
    n.role = .leader ∧ ∃ reached, reached =
        reachedByQuorum (n.progress.map Progress.matched ++ [n.lastIndex]) ∧
      n.commit < reached ∧ n.log.termAt reached = n.term ∧
      n.advanceCommit = n.commitThrough reached := by
  simp only [advanceCommit]
  split
  · rename_i leads
    split
    · rename_i now
      exact .inr ⟨leads, _, rfl, now.1, now.2, rfl⟩
    · exact .inl rfl
  · exact .inl rfl

@[simp] theorem advanceCommit_role (n : Node) : n.advanceCommit.role = n.role := by
  rcases advanceCommit_cases n with h | ⟨_, _, _, _, _, h⟩ <;> simp [h]

@[simp] theorem advanceCommit_term (n : Node) : n.advanceCommit.term = n.term := by
  rcases advanceCommit_cases n with h | ⟨_, _, _, _, _, h⟩ <;> simp [h]

@[simp] theorem advanceCommit_votedFor (n : Node) : n.advanceCommit.votedFor = n.votedFor := by
  rcases advanceCommit_cases n with h | ⟨_, _, _, _, _, h⟩ <;> simp [h]

@[simp] theorem advanceCommit_log (n : Node) : n.advanceCommit.log = n.log := by
  rcases advanceCommit_cases n with h | ⟨_, _, _, _, _, h⟩ <;> simp [h]

@[simp] theorem advanceCommit_progress (n : Node) : n.advanceCommit.progress = n.progress := by
  rcases advanceCommit_cases n with h | ⟨_, _, _, _, _, h⟩ <;> simp [h]

/-! ## Taking entries over -/

theorem takeOver_end (entries : Log) : ∀ n : Node,
    n.takeOver (n.lastIndex + 1) entries = (true, { n with log := n.log ++ entries }) := by
  induction entries with
  | nil => intro n; simp [takeOver]
  | cons e rest ih =>
      intro n
      have next : (n.append e).lastIndex = n.lastIndex + 1 := by simp [append, lastIndex]
      have := ih (n.append e)
      rw [next] at this
      rw [takeOver, if_neg (by omega), this]
      simp [append]

/-- Where uncommitted entries have to go, the new ones stand in their place. -/
theorem takeOver_replaced {prev : Nat} {e : Entry} {rest : Log} (inside : prev ≤ n.lastIndex)
    (uncommitted : n.commit ≤ prev) :
    ((n.truncateAfter prev).append e).takeOver (prev + 2) rest = (true, { n with
      log := n.log.take prev ++ e :: rest
      tickets := n.tickets.map fun t => if prev < t.index then t.drop else t }) := by
  have keep : max prev n.commit = prev := Nat.max_eq_left uncommitted
  have start : ((n.truncateAfter prev).append e).lastIndex = prev + 1 := by
    simp only [append, truncateAfter, keep, lastIndex, List.length_append, List.length_take,
      List.length_singleton]
    exact congrArg (· + 1) (Nat.min_eq_left inside)
  have all := takeOver_end rest ((n.truncateAfter prev).append e)
  rw [start] at all
  rw [all]
  simp [append, truncateAfter, keep]

/-- Entries are refused before anything is changed for them: whatever would have to go stands after
    what is committed, and from there on nothing stands against the entries any more. -/
theorem takeOver_refused {prev : Nat} {entries : Log} (inside : prev ≤ n.lastIndex)
    (h : n.takeOver (prev + 1) entries = (false, n')) : n' = n := by
  induction entries generalizing prev with
  | nil => simp [takeOver] at h
  | cons e rest ih =>
      rw [takeOver] at h
      split at h
      · rename_i within
        split at h
        · exact ih within h
        · split at h
          · exact (Prod.mk.inj h).2.symm
          · rename_i uncommitted
            rw [Nat.add_sub_cancel, takeOver_replaced inside (by omega)] at h
            simp at h
      · rename_i beyond
        have fits : prev = n.lastIndex := by omega
        have all := takeOver_end (e :: rest) n
        rw [takeOver, if_neg (by omega), ← fits, h] at all
        simp at all

/-- The log becomes an overlay of the entries, and nothing committed is touched. Only a ticket that
    is given up may change besides. -/
theorem takeOver_through {prev : Nat} {entries : Log} (bound : n.commit ≤ n.lastIndex)
    (inside : prev ≤ n.lastIndex) (h : n.takeOver (prev + 1) entries = (true, n')) :
    Log.Overlay prev entries n.log n'.log ∧ n'.log.take n.commit = n.log.take n.commit ∧
      ∃ f : Ticket → Ticket, (∀ t, f t = t ∨ f t = t.drop) ∧
        n' = { n with log := n'.log, tickets := n.tickets.map f } := by
  induction entries generalizing prev with
  | nil =>
      obtain rfl := (Prod.mk.inj h).2
      exact ⟨.kept (by simp [Log.Agrees]), rfl, id, fun _ => .inl rfl, by simp⟩
  | cons e rest ih =>
      rw [takeOver] at h
      split at h
      · rename_i within
        have at_ : n.log[prev]? = some n.log[prev] := List.getElem?_eq_getElem within
        have term : n.log.termAt (prev + 1) = n.log[prev].term := by
          rw [Log.termAt_succ, at_]
          rfl
        split at h
        · -- the entry is there already
          rename_i same
          obtain ⟨overlay, kept, frame⟩ := ih within h
          exact ⟨overlay.cons (by rw [at_, Option.map_some, ← term, same]), kept, frame⟩
        · -- another entry is there, and all from it on is replaced
          rename_i differs
          split at h
          · simp at h
          · rename_i uncommitted
            rw [Nat.add_sub_cancel, takeOver_replaced inside (by omega)] at h
            obtain rfl := (Prod.mk.inj h).2
            refine ⟨.all ?_, ?_, _, fun t => ?_, rfl⟩
            · rw [at_, Option.map_some, ← term]
              exact fun same => differs (Option.some.inj same)
            · have short : n.commit ≤ (n.log.take prev).length := by
                rw [List.length_take_of_le inside]
                omega
              rw [List.take_append_of_le_length short, List.take_take, Nat.min_eq_left (by omega)]
            · split
              · exact .inr rfl
              · exact .inl rfl
      · -- the log ends here
        rename_i beyond
        have fits : prev = n.lastIndex := by omega
        have all := takeOver_end (e :: rest) n
        rw [takeOver, if_neg (by omega), ← fits, h] at all
        obtain rfl := (Prod.mk.inj all).2
        have short : n.log.take prev = n.log := List.take_of_length_le (Nat.le_of_eq fits.symm)
        have ends : n.log[prev]? = none := List.getElem?_eq_none (Nat.le_of_eq fits.symm)
        have overlay : Log.Overlay prev (e :: rest) n.log (n.log.take prev ++ e :: rest) :=
          .all (by simp [ends])
        rw [short] at overlay
        exact ⟨overlay, List.take_append_of_le_length bound, id, fun _ => .inl rfl, by simp⟩

/-- Taking entries over is of no account to the role, the term and the deadline. -/
theorem takeOver_frame {index : Nat} {entries : Log} {through : Bool}
    (took : n.takeOver index entries = (through, n')) :
    n'.role = n.role ∧ n'.term = n.term ∧ n'.deadline = n.deadline := by
  induction entries generalizing index n with
  | nil =>
      obtain rfl := (Prod.mk.inj took).2
      exact ⟨rfl, rfl, rfl⟩
  | cons e rest ih =>
      rw [takeOver] at took
      split at took
      · split at took
        · exact ih took
        · split at took
          · obtain rfl := (Prod.mk.inj took).2
            exact ⟨rfl, rfl, rfl⟩
          · have frame := ih took
            exact frame
      · have frame := ih took
        exact frame

/-! ## Answering -/

/-- A node that hears of a later term moves to it. -/
def heed (m : Moment) (term : Nat) (n : Node) : Node :=
  if n.term < term then n.stepDown m term else n

theorem heed_term (m : Moment) {term : Nat} (le : n.term ≤ term) :
    (n.heed m term).term = term := by
  simp only [heed]
  split
  · rw [stepDown_term]; omega
  · omega

@[simp] theorem heed_log (m : Moment) (term : Nat) (n : Node) : (n.heed m term).log = n.log := by
  simp only [heed]
  split <;> simp

/-- A vote request is stale, or refused, or granted. -/
theorem decideVote_cases (m : Moment) (r : VoteRequest) (n : Node) :
    r.term < n.term ∧ n.decideVote m r = (⟨false, n.term⟩, n) ∨
    n.term ≤ r.term ∧ n.decideVote m r = (⟨false, r.term⟩, n.heed m r.term) ∨
    n.term ≤ r.term ∧ (n.heed m r.term).voteTaken r.candidate = false ∧
      (n.heed m r.term).standing.le r.standing = true ∧
      n.decideVote m r = (⟨true, r.term⟩, { n.heed m r.term with
        votedFor := some (r.candidate.getD ""), deadline := m.now + m.timeout }) := by
  cases Nat.lt_or_ge r.term n.term with
  | inl stale => exact .inl ⟨stale, by rw [decideVote, if_pos stale]⟩
  | inr current =>
      have heeded : (if n.term < r.term then n.stepDown m r.term else n) = n.heed m r.term := rfl
      have term := heed_term m current
      rw [decideVote, if_neg (by omega)]
      simp only [heeded, term]
      split
      · rename_i free
        simp only [Bool.and_eq_true, Bool.not_eq_true'] at free
        exact .inr (.inr ⟨current, free.1, free.2, rfl⟩)
      · exact .inr (.inl ⟨current, rfl⟩)

/-- A vote goes to whoever asked, from a log that is behind what the request tells. -/
theorem decideVote_granted {m : Moment} {r : VoteRequest}
    (granted : (n.decideVote m r).1.granted = true) :
    (n.decideVote m r).2.term = r.term ∧
      (n.decideVote m r).2.votedFor = some (r.candidate.getD "") ∧
      (n.decideVote m r).2.log = n.log ∧
      (n.log.lastTerm < r.lastTerm ∨
        n.log.lastTerm = r.lastTerm ∧ n.log.length ≤ r.commit + r.staged) := by
  rcases decideVote_cases m r n with ⟨_, h⟩ | ⟨_, h⟩ | ⟨current, _, standing, h⟩
  · simp [h] at granted
  · simp [h] at granted
  · refine ⟨by rw [h]; exact heed_term m current, by rw [h], by rw [h]; exact heed_log .., ?_⟩
    rw [Standing.le_iff] at standing
    simp only [Node.standing, VoteRequest.standing, heed_log, lastIndex] at standing
    have length := Counter.add_le r.commit r.staged
    omega

theorem follow_term (m : Moment) {r : HeartbeatRequest} (le : n.term ≤ r.term) :
    (n.follow m r).term = r.term := by
  simp only [follow]
  split
  · simp only [stepDown_term]; omega
  · rename_i same
    exact Nat.le_antisymm le (Nat.le_of_not_lt (not_or.mp same).1)

@[simp] theorem follow_role (m : Moment) (r : HeartbeatRequest) (n : Node) :
    (n.follow m r).role = .follower := by
  simp only [follow]
  split
  · rfl
  · rename_i same
    exact Decidable.not_not.mp (not_or.mp same).2

@[simp] theorem follow_log (m : Moment) (r : HeartbeatRequest) (n : Node) :
    (n.follow m r).log = n.log := by
  simp only [follow]
  split <;> simp

@[simp] theorem follow_commit (m : Moment) (r : HeartbeatRequest) (n : Node) :
    (n.follow m r).commit = n.commit := by
  simp only [follow]
  split <;> simp

@[simp] theorem follow_store (m : Moment) (r : HeartbeatRequest) (n : Node) :
    (n.follow m r).store = n.store := by
  simp only [follow]
  split <;> simp

@[simp] theorem follow_lastIndex (m : Moment) (r : HeartbeatRequest) (n : Node) :
    (n.follow m r).lastIndex = n.lastIndex := by
  rw [lastIndex, follow_log, lastIndex]

/-- A heartbeat is stale, or refused for what it builds on, or its entries are taken over. -/
theorem handleHeartbeat_cases (m : Moment) (r : HeartbeatRequest) (n : Node) :
    r.term < n.term ∧ n.handleHeartbeat m r = (n.heartbeatReply false n.lastIndex, n) ∨
    n.term ≤ r.term ∧ (∃ hint, n.handleHeartbeat m r =
      ((n.follow m r).heartbeatReply false hint, n.follow m r)) ∨
    n.term ≤ r.term ∧ r.prevIndex ≤ n.lastIndex ∧
      (0 < r.prevIndex → n.log.termAt r.prevIndex = r.prevTerm) ∧
      ∃ taken, (n.follow m r).takeOver (r.prevIndex + 1) r.entries = (true, taken) ∧
        n.handleHeartbeat m r =
          ((taken.commitThrough (min r.commit r.lastIndex)).heartbeatReply true r.lastIndex,
            taken.commitThrough (min r.commit r.lastIndex)) := by
  cases Nat.lt_or_ge r.term n.term with
  | inl stale => exact .inl ⟨stale, by rw [handleHeartbeat, if_pos stale]⟩
  | inr current =>
      refine .inr ?_
      rw [handleHeartbeat, if_neg (by omega)]
      simp only [lastIndex, follow_log]
      split
      · exact .inl ⟨current, _, rfl⟩
      · rename_i inside
        split
        · exact .inl ⟨current, _, rfl⟩
        · rename_i same
          have within : r.prevIndex ≤ (n.follow m r).lastIndex := by
            rw [lastIndex, follow_log]
            exact Nat.le_of_not_lt inside
          cases took : (n.follow m r).takeOver (r.prevIndex + 1) r.entries with
          | mk through taken =>
              cases through with
              | false =>
                  obtain rfl := takeOver_refused within took
                  exact .inl ⟨current, _, rfl⟩
              | true =>
                  exact .inr ⟨current, Nat.le_of_not_lt inside,
                    fun pos => Decidable.not_not.mp fun ne => same ⟨pos, ne⟩, taken, rfl, rfl⟩

/-! ## Leading -/

@[simp] theorem becomeLeader_role (me : String) (peers : Nat) (n : Node) :
    (n.becomeLeader me peers).role = .leader := by simp [becomeLeader, append]

@[simp] theorem becomeLeader_term (me : String) (peers : Nat) (n : Node) :
    (n.becomeLeader me peers).term = n.term := by simp [becomeLeader, append]

@[simp] theorem becomeLeader_log (me : String) (peers : Nat) (n : Node) :
    (n.becomeLeader me peers).log = n.log ++ [⟨n.term, .barrier⟩] := by
  simp [becomeLeader, append]

@[simp] theorem becomeLeader_progress (me : String) (peers : Nat) (n : Node) :
    (n.becomeLeader me peers).progress = List.replicate peers ⟨n.log.length + 1, 0⟩ := by
  simp [becomeLeader, append, lastIndex]

/-- Counting lets a candidate win that has enough votes in its term, and changes nothing else. -/
theorem count_cases (me : String) (peers : Nat) (e : Election) (n : Node) :
    (∃ tally, tally ≠ .won ∧ e.count me peers n = (tally, n)) ∨
      n.role = .candidate ∧ n.term = e.term ∧ e.needed ≤ e.granted ∧
        e.count me peers n = (.won, n.becomeLeader me peers) := by
  rw [Election.count]
  split
  · exact .inl ⟨.abandoned, by decide, rfl⟩
  · rename_i stands
    obtain ⟨role, term⟩ := not_or.mp stands
    split
    · rename_i enough
      exact .inr ⟨Decidable.not_not.mp role, Decidable.not_not.mp term, enough, rfl⟩
    · exact .inl ⟨.goesOn, by decide, rfl⟩

/-- An election after one more reply. -/
def heard (reply : VoteReply) (e : Election) : Election :=
  if reply.granted then { e with granted := e.granted + 1 } else e

/-- A vote reply deposes the candidate, or leaves it as it is, or lets it win. -/
theorem fold_cases (m : Moment) (me : String) (peers : Nat) (reply : VoteReply) (e : Election)
    (n : Node) :
    n.term < reply.term ∧ e.fold m me peers reply n = (.abandoned, e, n.stepDown m reply.term) ∨
    (∃ tally, tally ≠ .won ∧ e.fold m me peers reply n = (tally, heard reply e, n)) ∨
    n.role = .candidate ∧ n.term = (heard reply e).term ∧
      (heard reply e).needed ≤ (heard reply e).granted ∧
      e.fold m me peers reply n = (.won, heard reply e, n.becomeLeader me peers) := by
  cases Nat.lt_or_ge n.term reply.term with
  | inl later => exact .inl ⟨later, by rw [Election.fold, if_pos later]⟩
  | inr current =>
      refine .inr ?_
      have folded : e.fold m me peers reply n =
          (((heard reply e).count me peers n).1, heard reply e,
            ((heard reply e).count me peers n).2) := by
        rw [Election.fold, if_neg (by omega)]
        rfl
      rw [folded]
      rcases count_cases me peers (heard reply e) n with ⟨tally, lost, h⟩ | ⟨role, term, enough, h⟩
      · exact .inl ⟨tally, lost, by rw [h]⟩
      · exact .inr ⟨role, term, enough, by rw [h]⟩

/-- What a leader learns from an answer to the heartbeat it sent. -/
def learn (sent : HeartbeatRequest) (reply : HeartbeatReply) (p : Progress) : Progress :=
  if reply.success then ⟨max p.matched sent.lastIndex + 1, max p.matched sent.lastIndex⟩
  else { p with next := max 1 (min (Counter.add reply.matched 1) sent.prevIndex) }

theorem learn_of_success {sent : HeartbeatRequest} {reply : HeartbeatReply}
    (success : reply.success = true) : learn sent reply = fun p =>
      ⟨max p.matched sent.lastIndex + 1, max p.matched sent.lastIndex⟩ := by
  funext p
  rw [learn, if_pos success]

theorem learn_of_refusal {sent : HeartbeatRequest} {reply : HeartbeatReply}
    (refusal : ¬ reply.success = true) : learn sent reply = fun p =>
      { p with next := max 1 (min (Counter.add reply.matched 1) sent.prevIndex) } := by
  funext p
  rw [learn, if_neg refusal]

/-- What is known of a peer after an answer was known before, or is all that a request covers which the
    peer has answered with a success. -/
theorem learn_cases {sent : HeartbeatRequest} {reply : HeartbeatReply} {known : List Progress}
    {peer q : Nat} {p : Progress} (at_ : (known.modify peer (learn sent reply))[q]? = some p) :
    ∃ old, known[q]? = some old ∧ (p.matched = old.matched ∨
      peer = q ∧ reply.success = true ∧ p.matched = sent.lastIndex) := by
  rw [List.getElem?_modify] at at_
  obtain ⟨old, before, rfl⟩ := Option.map_eq_some_iff.mp at_
  refine ⟨old, before, ?_⟩
  split
  · rename_i same
    rw [learn]
    split
    · rename_i success
      cases Nat.le_total old.matched sent.lastIndex with
      | inl less => exact .inr ⟨same, success, Nat.max_eq_right less⟩
      | inr more => exact .inl (Nat.max_eq_left more)
    · exact .inl rfl
  · exact .inl rfl

/-- An answer to a heartbeat deposes the leader, or comes too late, or is taken in. -/
theorem recordReply_cases (m : Moment) (term peer : Nat) (sent : HeartbeatRequest)
    (reply : HeartbeatReply) (n : Node) :
    n.term < reply.term ∧ n.recordReply m term peer sent reply =
      (false, n.stepDown m reply.term) ∨
    (n.role = .leader → n.term ≠ term) ∧ n.recordReply m term peer sent reply = (false, n) ∨
    n.role = .leader ∧ n.term = term ∧ ∃ told : Node,
      told = n.updateProgress peer (learn sent reply) ∧
      (n.recordReply m term peer sent reply = (true, told) ∨
        n.recordReply m term peer sent reply = (true, told.advanceCommit)) := by
  cases Nat.lt_or_ge n.term reply.term with
  | inl later => exact .inl ⟨later, by rw [recordReply, if_pos later]⟩
  | inr current =>
      refine .inr ?_
      rw [recordReply, if_neg (by omega)]
      split
      · rename_i ended
        refine .inl ⟨fun role same => ?_, rfl⟩
        cases ended with
        | inl other => exact other role
        | inr other => exact other same
      · rename_i stands
        obtain ⟨role, same⟩ := not_or.mp stands
        refine .inr ⟨Decidable.not_not.mp role, Decidable.not_not.mp same, _, rfl, ?_⟩
        split
        · rename_i success
          exact .inr (by rw [learn_of_success success])
        · rename_i refusal
          exact .inl (by rw [learn_of_refusal refusal])

/-- A heartbeat tells what its sender knows, with a part of the sender's log. -/
structure Tells (n : Node) (r : HeartbeatRequest) : Prop where
  term : r.term = n.term
  commit : r.commit = n.commit
  inside : r.prevIndex ≤ n.lastIndex
  prevTerm : r.prevTerm = n.log.termAt r.prevIndex
  entries : n.log.take r.lastIndex = n.log.take r.prevIndex ++ r.entries

theorem Tells.lastIndex_le {r : HeartbeatRequest} (h : n.Tells r) : r.lastIndex ≤ n.lastIndex := by
  have inside := h.inside
  have length := congrArg List.length h.entries
  simp only [List.length_take, List.length_append, lastIndex, HeartbeatRequest.lastIndex] at *
  omega

theorem tells_heartbeatFor? {peer : Nat} {me : String} {r : HeartbeatRequest}
    (h : n.heartbeatFor? peer me = some r) : n.Tells r := by
  simp only [heartbeatFor?] at h
  split at h
  · simp at h
  · rename_i p at_
    obtain rfl := Option.some.inj h
    refine ⟨rfl, rfl, ?_, rfl, ?_⟩
    · simp only [lastIndex]
      omega
    · rw [HeartbeatRequest.lastIndex, List.take_add, List.length_take]
      exact congrArg _ List.take_eq_take_min.symm

/-- A staged write is one more entry of the leader's own term, and a ticket for it. -/
theorem stageWrite_ok {key : String} {write : Write} {record : Record} {ticket : Nat}
    (h : n.stageWrite key write = .ok ((record, ticket), n')) :
    n.role = .leader ∧ ticket = n.tickets.length ∧
      ∃ version content, content = write.content version ∧ record = content.record version ∧
        n' = ((n.append ⟨n.term, .write key content version⟩).claimTicket).advanceCommit := by
  simp only [stageWrite, ensureLeader] at h
  split at h
  · simp at h
  · rename_i leads
    split at h
    · simp at h
    · rename_i version _
      simp only [Except.ok.injEq, Prod.mk.injEq] at h
      obtain ⟨⟨rfl, rfl⟩, rfl⟩ := h
      split at leads
      · rename_i role
        exact ⟨role, rfl, version, _, rfl, rfl, rfl⟩
      · simp at leads

end Node

end QuorumStore
