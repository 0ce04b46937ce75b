import QuorumStore.Proofs.Lasting
/-! # What a heartbeat does

A node takes the entries of a heartbeat over if it can tell where they belong and none of them
stands against an entry that is committed. It finds this out on the way, and yet a heartbeat that it
refuses leaves no trace in its log, and one that it has handled once has nothing left to do.
-/

namespace QuorumStore.Node

variable {n n' : Node} {r : HeartbeatRequest} {prev : Nat} {e : Entry} {entries rest : Log}

/-! ## Entry by entry -/

theorem termAt_inside (within : prev < n.lastIndex) :
    ∃ x, n.log[prev]? = some x ∧ n.log.termAt (prev + 1) = x.term := by
  have at_ : n.log[prev]? = some n.log[prev] := List.getElem?_eq_getElem within
  refine ⟨_, at_, ?_⟩
  rw [Log.termAt_succ, at_]
  rfl

theorem takeOver_same (within : prev < n.lastIndex) (same : n.log.termAt (prev + 1) = e.term) :
    n.takeOver (prev + 1) (e :: rest) = n.takeOver (prev + 2) rest := by
  rw [takeOver, if_pos (Nat.succ_le_of_lt within), if_pos same]

theorem takeOver_committed (within : prev < n.lastIndex)
    (differs : n.log.termAt (prev + 1) ≠ e.term) (committed : prev < n.commit) :
    n.takeOver (prev + 1) (e :: rest) = (false, n) := by
  rw [takeOver, if_pos (Nat.succ_le_of_lt within), if_neg differs,
    if_pos (Nat.succ_le_of_lt committed)]

theorem takeOver_differs (within : prev < n.lastIndex)
    (differs : n.log.termAt (prev + 1) ≠ e.term) (uncommitted : n.commit ≤ prev) :
    ∃ n', n.takeOver (prev + 1) (e :: rest) = (true, n') := by
  rw [takeOver, if_pos (Nat.succ_le_of_lt within), if_neg differs, if_neg (by omega),
    Nat.add_sub_cancel, takeOver_replaced (Nat.le_of_lt within) uncommitted]
  exact ⟨_, rfl⟩

/-- Entries are taken over unless one of them stands against a committed one. -/
theorem takeOver_through_iff (entries : Log) (bound : n.commit ≤ n.lastIndex)
    (inside : prev ≤ n.lastIndex) :
    (∃ n', n.takeOver (prev + 1) entries = (true, n')) ↔
      ∀ j, Log.ClashesAt prev entries n.log j → n.commit ≤ prev + j := by
  induction entries generalizing prev with
  | nil => simp [takeOver, Log.ClashesAt]
  | cons e rest ih =>
      rcases Nat.eq_or_lt_of_le inside with ends | within
      · -- the log ends here, and so does what is committed
        constructor
        · intro _ j _
          omega
        · intro _
          rw [ends, takeOver_end]
          exact ⟨_, rfl⟩
      · obtain ⟨x, at_, term⟩ := termAt_inside within
        by_cases same : x.term = e.term
        · rw [takeOver_same within (term.trans same), ih within]
          constructor
          · intro later j clash
            cases j with
            | zero =>
                obtain ⟨x', y, at', first, differs⟩ := clash
                obtain rfl := Option.some.inj (at_.symm.trans at')
                obtain rfl : e = y := by simpa using first
                exact absurd same differs
            | succ j =>
                have := later j (Log.clashesAt_succ.mp clash)
                omega
          · intro all j clash
            have := all (j + 1) (Log.clashesAt_succ.mpr clash)
            omega
        · have differs : n.log.termAt (prev + 1) ≠ e.term := by rwa [term]
          have first : Log.ClashesAt prev (e :: rest) n.log 0 := ⟨x, e, at_, rfl, same⟩
          cases Nat.lt_or_ge prev n.commit with
          | inl committed =>
              rw [takeOver_committed within differs committed]
              constructor
              · rintro ⟨_, through⟩
                simp at through
              · intro all
                exact absurd (all 0 first) (Nat.not_le_of_lt committed)
          | inr uncommitted =>
              constructor
              · intro _ j _
                omega
              · intro _
                exact takeOver_differs within differs uncommitted

/-- Entries that all stand in the log already change nothing. -/
theorem takeOver_agreed (agrees : Log.Agrees prev entries n.log entries.length) :
    n.takeOver (prev + 1) entries = (true, n) := by
  induction entries generalizing prev with
  | nil => rfl
  | cons e rest ih =>
      have first : (n.log[prev]?).map Entry.term = some e.term := agrees 0 (Nat.succ_pos _)
      obtain ⟨x, at_, same⟩ := Option.map_eq_some_iff.mp first
      obtain ⟨within, _⟩ := List.getElem?_eq_some_iff.mp at_
      obtain ⟨x', at', term⟩ := termAt_inside within
      obtain rfl := Option.some.inj (at_.symm.trans at')
      rw [takeOver_same within (term.trans same)]
      exact ih agrees.tail

/-! ## The whole heartbeat -/

/-- What it takes for a heartbeat to be taken over. -/
structure Accepts (n : Node) (r : HeartbeatRequest) : Prop where
  current : n.term ≤ r.term
  inside : r.prevIndex ≤ n.lastIndex
  same : r.prevIndex = 0 ∨ n.log.termAt r.prevIndex = r.prevTerm
  /-- Whatever has to be replaced, if anything has, is not committed. -/
  uncommitted : ∀ j, Log.FirstClash r.prevIndex r.entries n.log j →
    n.commit < r.prevIndex + j + 1

/-- Where a node that refuses a heartbeat would have the leader go on. -/
def hint (n : Node) (r : HeartbeatRequest) : Nat :=
  if n.lastIndex < r.prevIndex then n.lastIndex
  else if 0 < r.prevIndex ∧ n.log.termAt r.prevIndex ≠ r.prevTerm then
    min n.commit (r.prevIndex - 1)
  else n.commit

theorem hint_le_commit (inside : r.prevIndex ≤ n.lastIndex) : n.hint r ≤ n.commit := by
  rw [hint, if_neg (Nat.not_lt_of_le inside)]
  split
  · exact Nat.min_le_left ..
  · exact Nat.le_refl _

theorem hint_le_lastIndex (bound : n.commit ≤ n.lastIndex) : n.hint r ≤ n.lastIndex := by
  cases Nat.lt_or_ge n.lastIndex r.prevIndex with
  | inl beyond => exact Nat.le_of_eq (by rw [hint, if_pos beyond])
  | inr inside => exact Nat.le_trans (hint_le_commit inside) bound

theorem handleHeartbeat_stale (stale : r.term < n.term) (m : Moment) :
    n.handleHeartbeat m r = (n.heartbeatReply false n.lastIndex, n) := by
  rw [handleHeartbeat, if_pos stale]

/-- Whoever follows takes the entries over unless the first of them that stands against another
    one stands against a committed one. -/
theorem follow_takes_iff (bound : n.commit ≤ n.lastIndex) (inside : r.prevIndex ≤ n.lastIndex)
    (m : Moment) : (∃ taken, (n.follow m r).takeOver (r.prevIndex + 1) r.entries = (true, taken)) ↔
      ∀ j, Log.FirstClash r.prevIndex r.entries n.log j → n.commit < r.prevIndex + j + 1 := by
  rw [takeOver_through_iff (n := n.follow m r) r.entries (by simpa using bound)
    (by simpa using inside), follow_log, follow_commit]
  constructor
  · intro uncommitted j first
    exact Nat.lt_succ_of_le (uncommitted j first.1)
  · intro uncommitted j clash
    obtain ⟨i, le, first⟩ := clash.exists_first
    have := uncommitted i first
    omega

/-- A heartbeat that is not stale makes the node follow, and is refused or taken over as a whole. -/
theorem handleHeartbeat_current (bound : n.commit ≤ n.lastIndex) (current : n.term ≤ r.term)
    (m : Moment) :
    ¬ n.Accepts r ∧ n.handleHeartbeat m r =
      ((n.follow m r).heartbeatReply false (n.hint r), n.follow m r) ∨
    n.Accepts r ∧ ∃ taken, (n.follow m r).takeOver (r.prevIndex + 1) r.entries = (true, taken) ∧
      n.handleHeartbeat m r =
        ((taken.commitThrough (min r.commit r.lastIndex)).heartbeatReply true r.lastIndex,
          taken.commitThrough (min r.commit r.lastIndex)) := by
  rw [handleHeartbeat, if_neg (Nat.not_lt_of_le current)]
  simp only [follow_lastIndex, follow_log, follow_commit]
  split
  · rename_i beyond
    exact .inl ⟨fun h => Nat.not_le_of_lt beyond h.inside, by rw [hint, if_pos beyond]⟩
  · rename_i inside
    split
    · rename_i differs
      refine .inl ⟨fun h => ?_, by rw [hint, if_neg inside, if_pos differs]⟩
      rcases h.same with zero | same
      · exact absurd zero (Nat.ne_of_gt differs.1)
      · exact differs.2 same
    · rename_i same
      have takes := follow_takes_iff bound (Nat.le_of_not_lt inside) m
      have within : r.prevIndex ≤ (n.follow m r).lastIndex := by
        rw [follow_lastIndex]
        exact Nat.le_of_not_lt inside
      cases took : (n.follow m r).takeOver (r.prevIndex + 1) r.entries with
      | mk through taken =>
          cases through with
          | false =>
              obtain rfl := takeOver_refused within took
              refine .inl ⟨fun h => ?_, ?_⟩
              · obtain ⟨_, got⟩ := takes.mpr h.uncommitted
                simp [took] at got
              · rw [hint, if_neg inside, if_neg same, ← follow_commit m r n]
                rfl
          | true =>
              have uncommitted := takes.mp ⟨taken, took⟩
              refine .inr ⟨⟨current, Nat.le_of_not_lt inside, ?_, uncommitted⟩, taken, rfl, rfl⟩
              cases Nat.eq_zero_or_pos r.prevIndex with
              | inl zero => exact .inl zero
              | inr positive => exact .inr (Decidable.not_not.mp fun ne => same ⟨positive, ne⟩)

/-- The state of a node that has taken a heartbeat over. -/
structure Follows (r : HeartbeatRequest) (n n' : Node) : Prop extends Taken r n n' where
  leader : n'.leader = some r.leader
  store : n'.store = n.store.applyAll ((n'.log.take n'.commit).drop n.commit)

/-- What a heartbeat vouches for is in the log that has taken it over. -/
theorem Taken.commit_eq (h : Taken r n n') :
    n'.commit = max n.commit (min r.commit r.lastIndex) := by
  have covered : r.lastIndex ≤ n'.lastIndex := h.log.covered h.inside
  rw [h.commit, Nat.min_eq_left (Nat.le_trans (Nat.min_le_right ..) covered)]

theorem Accepts.handled (h : n.Accepts r) (bound : n.commit ≤ n.lastIndex) (m : Moment) :
    ∃ n', n.handleHeartbeat m r = (n'.heartbeatReply true r.lastIndex, n') ∧ Follows r n n' := by
  rcases handleHeartbeat_current bound h.current m with ⟨refused, _⟩ | ⟨_, taken, took, handled⟩
  · exact absurd h refused
  · refine ⟨_, handled, ?_⟩
    obtain ⟨_, _, _, _, frame⟩ :=
      takeOver_through (by simpa using bound) (by simpa using h.inside) took
    have leader : taken.leader = some r.leader := by rw [frame]; rfl
    have commit : taken.commit = n.commit := by rw [frame]; exact follow_commit m r n
    have store : taken.store = n.store := by rw [frame]; exact follow_store m r n
    rcases answers bound m r with ⟨failed, _⟩ | ⟨_, follows⟩
    · rw [handled] at failed
      simp [heartbeatReply] at failed
    · rw [handled] at follows
      refine ⟨follows, ?_, ?_⟩
      · rw [commitThrough_leader, leader]
      · rw [commitThrough_store, store, commit, commitThrough_log]

theorem handleHeartbeat_refused (bound : n.commit ≤ n.lastIndex) (current : n.term ≤ r.term)
    (refused : ¬ n.Accepts r) (m : Moment) : n.handleHeartbeat m r =
      ((n.follow m r).heartbeatReply false (n.hint r), n.follow m r) := by
  rcases handleHeartbeat_current bound current m with ⟨_, handled⟩ | ⟨accepts, _⟩
  · exact handled
  · exact absurd accepts refused

/-! ## The same heartbeat again -/

/-- A node that follows the sender already only waits for longer. -/
theorem follow_again (role : n.role = .follower) (term : n.term = r.term)
    (leader : n.leader = some r.leader) (m : Moment) : n.follow m r = n.resetDeadline m := by
  rw [follow, if_neg (by simp [role, term]), ← leader]
  rfl

theorem Accepts.of_follow {m : Moment} (h : (n.follow m r).Accepts r)
    (current : n.term ≤ r.term) : n.Accepts r where
  current := current
  inside := by simpa using h.inside
  same := by simpa using h.same
  uncommitted := by simpa using h.uncommitted

/-- What is refused once is refused again, for the same reason. -/
theorem handleHeartbeat_follow (bound : n.commit ≤ n.lastIndex) (current : n.term ≤ r.term)
    (refused : ¬ n.Accepts r) (m m' : Moment) : (n.follow m r).handleHeartbeat m' r =
      ((n.follow m r).heartbeatReply false (n.hint r), (n.follow m r).resetDeadline m') := by
  have term := follow_term m current
  have again := follow_again (r := r) (follow_role m r n) term rfl m'
  have same : (n.follow m r).hint r = n.hint r := by
    simp only [hint, follow_lastIndex, follow_log, follow_commit]
  rw [handleHeartbeat_refused (by simpa using bound) (Nat.le_of_eq term)
    (fun accepts => refused (accepts.of_follow current)), again, same]
  rfl

/-- A follower that holds all that a heartbeat brings has nothing to do for it. -/
theorem handleHeartbeat_agreed (role : n.role = .follower) (term : n.term = r.term)
    (leader : n.leader = some r.leader) (inside : r.prevIndex ≤ n.lastIndex)
    (same : r.prevIndex = 0 ∨ n.log.termAt r.prevIndex = r.prevTerm)
    (agrees : Log.Agrees r.prevIndex r.entries n.log r.entries.length)
    (committed : min r.commit r.lastIndex ≤ n.commit) (m : Moment) :
    n.handleHeartbeat m r = (n.heartbeatReply true r.lastIndex, n.resetDeadline m) := by
  have took : (n.resetDeadline m).takeOver (r.prevIndex + 1) r.entries =
      (true, n.resetDeadline m) := takeOver_agreed agrees
  have done : (n.resetDeadline m).commitThrough (min r.commit r.lastIndex) =
      n.resetDeadline m := commitThrough_of_le committed
  have beyond : ¬ (n.resetDeadline m).lastIndex < r.prevIndex := Nat.not_lt_of_le inside
  have differs : ¬ (0 < r.prevIndex ∧
      (n.resetDeadline m).log.termAt r.prevIndex ≠ r.prevTerm) := by
    rintro ⟨positive, differs⟩
    rcases same with zero | same
    · exact absurd zero (Nat.ne_of_gt positive)
    · exact differs same
  rw [handleHeartbeat, if_neg (by omega), follow_again role term leader]
  simp only [if_neg beyond, if_neg differs, took, done]
  rfl

theorem Follows.again (h : Follows r n n') (accepts : n.Accepts r) (m : Moment) :
    n'.handleHeartbeat m r = (n'.heartbeatReply true r.lastIndex, n'.resetDeadline m) := by
  have inside := accepts.inside
  have covered := h.log.covered inside
  have start : r.prevIndex ≤ n'.log.length := by omega
  have same : n'.log.termAt r.prevIndex = n.log.termAt r.prevIndex := by
    rw [← Log.lastTerm_take start, ← Log.lastTerm_take inside, h.log.take_eq inside]
  apply handleHeartbeat_agreed h.role h.term h.leader start
  · rw [same]
    exact accepts.same
  · exact h.log.agrees inside
  · rw [h.commit_eq]
    exact Nat.le_max_right ..

/-- A heartbeat is taken over exactly if it is accepted. It then replaces the log from the first
    entry on that the log has not, and commits no more than it vouches for; a refused one leaves
    log, commit index and store alone. Handled a second time, either gets the same answer and only
    puts the election off. -/
theorem handleHeartbeat_outcome (bound : n.commit ≤ n.lastIndex) (m m' : Moment)
    (r : HeartbeatRequest) : ∃ reply n', n.handleHeartbeat m r = (reply, n') ∧
      (reply.success = true ↔ n.Accepts r) ∧
      (reply.success = true → Log.Overlay r.prevIndex r.entries n.log n'.log ∧
        reply.matched = r.prevIndex + r.entries.length ∧
        n'.commit = max n.commit (min r.commit reply.matched) ∧
        n'.store = n.store.applyAll ((n'.log.take n'.commit).drop n.commit)) ∧
      (reply.success = false → n'.log = n.log ∧ n'.commit = n.commit ∧ n'.store = n.store) ∧
      ∃ deadline, n'.handleHeartbeat m' r = (reply, { n' with deadline }) := by
  cases Nat.lt_or_ge r.term n.term with
  | inl stale =>
      have refused : ¬ n.Accepts r := fun h => Nat.not_le_of_lt stale h.current
      refine ⟨_, _, handleHeartbeat_stale stale m, ?_, ?_, ?_, n.deadline,
        handleHeartbeat_stale stale m'⟩
      · simpa [heartbeatReply] using refused
      · simp [heartbeatReply]
      · exact fun _ => ⟨rfl, rfl, rfl⟩
  | inr current =>
      by_cases accepts : n.Accepts r
      · obtain ⟨n', handled, follows⟩ := accepts.handled bound m
        refine ⟨_, n', handled, ?_, ?_, ?_, _, follows.again accepts m'⟩
        · simpa [heartbeatReply] using accepts
        · exact fun _ => ⟨follows.log, rfl, follows.commit_eq, follows.store⟩
        · simp [heartbeatReply]
      · refine ⟨_, _, handleHeartbeat_refused bound current accepts m, ?_, ?_, ?_, _,
          handleHeartbeat_follow bound current accepts m m'⟩
        · simpa [heartbeatReply] using accepts
        · simp [heartbeatReply]
        · exact fun _ => ⟨follow_log m r n, follow_commit m r n, follow_store m r n⟩

/-- A follower of term one whose last entry is not the one that the leader of term two has there. -/
def followerBehind : Node where
  role := .follower
  term := 1
  votedFor := none
  leader := some "a"
  log := [⟨1, .barrier⟩, ⟨1, .write "k" .tombstone 0⟩, ⟨1, .write "j" .tombstone 0⟩]
  commit := 1
  store := .empty
  progress := []
  deadline := 0
  tickets := []

theorem handleHeartbeat_outcome_of_a_conflict :
    followerBehind.commit ≤ followerBehind.lastIndex ∧ ∃ r reply n',
      followerBehind.handleHeartbeat ⟨5, 10⟩ r = (reply, n') ∧ followerBehind.Accepts r ∧
        n'.log.map Entry.term = [1, 1, 2, 2] ∧ n'.commit = 4 ∧ reply.matched = 4 ∧
        ∃ deadline, n'.handleHeartbeat ⟨7, 10⟩ r = (reply, { n' with deadline }) := by
  have bound : followerBehind.commit ≤ followerBehind.lastIndex := by decide
  let r : HeartbeatRequest := ⟨2, 5, "b", 1, 1,
    [⟨1, .write "k" .tombstone 0⟩, ⟨2, .barrier⟩, ⟨2, .write "k" .tombstone 0⟩]⟩
  obtain ⟨reply, n', handled, success, _, _, again⟩ :=
    handleHeartbeat_outcome bound ⟨5, 10⟩ ⟨7, 10⟩ r
  obtain ⟨rfl, rfl⟩ := Prod.mk.inj handled
  exact ⟨bound, r, _, _, rfl, success.mp rfl, by decide, by decide, by decide, again⟩

end QuorumStore.Node
