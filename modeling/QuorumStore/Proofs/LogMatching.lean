import QuorumStore.Proofs.Election
/-! # Logs of one cluster match

All entries come from leaders, and a term has one leader, whose log only grows while it leads. So
an entry and its term tell everything before it: up to there, every log that holds the entry is the
log of that leader as it was at some time. Followers and requests under way have their entries from
there as well, however late these arrive.
-/

namespace QuorumStore.Run

variable {n : Nat} {R : Run n} {k l T : Nat} {i j : Fin n} {a b log : Log}

/-! ## Logs of leaders -/

theorem Leads.grows (h : R.Leads k i T) (h' : R.Leads l j T) (le : k ≤ l) :
    (R.node k i).log <+: (R.node l j).log := by
  obtain rfl := h.unique h'
  obtain ⟨s, _, takes, since⟩ := h'.since
  obtain ⟨s', started, takes', _⟩ := h.since
  obtain ⟨rfl, _⟩ := takes.unique takes'
  clear h'
  induction l, le using Nat.le_induction with
  | base => exact List.prefix_refl _
  | succ l le ih =>
      have before := since l (by omega) (by omega)
      refine (ih (by omega) fun m after le => since m after (by omega)).trans ?_
      have after := since (l + 1) (by omega) (Nat.le_refl _)
      cases R.change l i with
      | idle idle => rw [idle.log]
      | takes x r _ _ taken => exact absurd (taken.role.symm.trans after.1) (by decide)
      | records x peer sent reply _ _ _ _ _ _ _ _ log => rw [log]
      | stages e _ _ _ _ longer =>
          rw [longer]
          exact List.prefix_append ..
      | wins U elects => exact absurd before.1 elects.takesLead.1

theorem Leads.comparable (h : R.Leads k i T) (h' : R.Leads l j T) :
    Log.Comparable (R.node k i).log (R.node l j).log := by
  cases Nat.le_total k l with
  | inl le => exact .inl (h.grows h' le)
  | inr le => exact .inr (h'.grows h le)

variable (R) in
/-- A request was made by the leader of its term, at some moment so far. -/
def Sent (k : Nat) (i : Fin n) (T : Nat) (r : HeartbeatRequest) : Prop :=
  ∃ l ≤ k, R.Leads l i T ∧ (R.node l i).Tells r

theorem sent (k : Nat) : ∀ x ∈ (R.state k).rounds, ∀ r ∈ x.sent, R.Sent k x.caller x.task r := by
  induction k with
  | zero => intro x hx; simp [state, System.start] at hx
  | succ k ih =>
      have old : ∀ x ∈ (R.state k).rounds, ∀ r ∈ x.sent, R.Sent (k + 1) x.caller x.task r := by
        intro x hx r hr
        obtain ⟨l, le, made⟩ := ih x hx r hr
        exact ⟨l, Nat.le_succ_of_le le, made⟩
      intro x hx r hr
      cases R.roundAfter hx with
      | kept _ before => exact old x before r hr
      | opened i leads =>
          obtain ⟨peer, _, made⟩ := List.mem_filterMap.mp hr
          exact ⟨k, Nat.le_succ k, ⟨leads, rfl⟩, Node.tells_heartbeatFor? made⟩
      | answered x peer j request t before => exact old x before r hr
      | closed x peer goesOn before => exact old x before r hr

/-! ## How logs change -/

/-- An act leaves a log as it is, or adds an entry of its leader's term, or lays a part of another
    leader's log over it. -/
theorem log_cases (k : Nat) (i : Fin n) :
    (R.node (k + 1) i).log = (R.node k i).log ∨
    (∃ e : Entry, R.Leads (k + 1) i e.term ∧
      (R.node (k + 1) i).log = (R.node k i).log ++ [e]) ∨
    ∃ x ∈ (R.state k).rounds, ∃ r ∈ x.sent, Node.Taken r (R.node k i) (R.node (k + 1) i) := by
  cases R.change k i with
  | idle idle => exact .inl idle.log
  | takes x r hx hr taken => exact .inr (.inr ⟨x, hx, r, hr, taken⟩)
  | records x peer sent reply _ _ _ _ _ _ _ _ log => exact .inl log
  | stages e _ own role term longer => exact .inr (.inl ⟨e, ⟨role, term.trans own.symm⟩, longer⟩)
  | wins T elects =>
      have takes := elects.takesLead
      exact .inr (.inl ⟨⟨T, .barrier⟩, takes.2, takes.log⟩)

/-! ## Where entries come from -/

variable (R) in
/-- Up to any of its entries, a log is the beginning of what a leader of the entry's term had by a
    moment. -/
def Traced (k : Nat) (log : Log) : Prop :=
  ∀ (m : Nat) (e : Entry), log[m]? = some e →
    ∃ l ≤ k, ∃ j, R.Leads l j e.term ∧ log.take (m + 1) <+: (R.node l j).log

theorem Traced.mono (h : R.Traced k log) (le : k ≤ l) : R.Traced l log := by
  intro m e he
  obtain ⟨s, before, j, leads⟩ := h m e he
  exact ⟨s, Nat.le_trans before le, j, leads⟩

theorem Traced.of_part (h : R.Traced k b) (before : a <+: b) : R.Traced k a := by
  intro m e he
  obtain ⟨inside, _⟩ := List.getElem?_eq_some_iff.mp he
  rw [← Log.take_of_part before inside]
  exact h m e (Log.getElem?_of_part before he)

theorem Traced.whole (h : R.Traced k log) (nonempty : log ≠ []) :
    ∃ l ≤ k, ∃ j, R.Leads l j log.lastTerm ∧ log <+: (R.node l j).log := by
  have pos := List.length_pos_iff.mpr nonempty
  have last : log[log.length - 1]? = some (log.getLast nonempty) := by
    rw [← List.getLast?_eq_getElem?, List.getLast?_eq_some_getLast nonempty]
  have term : log.lastTerm = (log.getLast nonempty).term := by
    simp only [Log.lastTerm, List.getLast?_eq_some_getLast nonempty, Option.map_some,
      Option.getD_some]
  obtain ⟨l, le, j, leads, part⟩ := h _ _ last
  rw [List.take_of_length_le (by omega)] at part
  exact ⟨l, le, j, term ▸ leads, part⟩

theorem Traced.matches (ha : R.Traced k a) (hb : R.Traced l b) : Log.Matches a b := by
  intro m x y hx hy same
  obtain ⟨_, _, _, leads, before⟩ := ha m x hx
  obtain ⟨_, _, _, leads', before'⟩ := hb m y hy
  rw [same] at leads
  have length : (a.take (m + 1)).length = (b.take (m + 1)).length := by
    obtain ⟨insideA, _⟩ := List.getElem?_eq_some_iff.mp hx
    obtain ⟨insideB, _⟩ := List.getElem?_eq_some_iff.mp hy
    rw [List.length_take_of_le insideA, List.length_take_of_le insideB]
  cases (leads.comparable leads').of_prefixes before before' with
  | inl h => exact h.eq_of_length length
  | inr h => exact (h.eq_of_length length.symm).symm

/-- A follower that takes a heartbeat over keeps its log, or has a part of the sender's log after
    it. -/
theorem taken_log {r : HeartbeatRequest} {n n' sender : Node} (taken : Node.Taken r n n')
    (tells : sender.Tells r) (matching : Log.Matches n.log sender.log) :
    n'.log = n.log ∧ sender.log.take r.lastIndex <+: n.log ∨
      n'.log = sender.log.take r.lastIndex ∧ ¬ sender.log.take r.lastIndex <+: n.log := by
  have inside := tells.inside
  have terms : r.prevIndex = 0 ∨ n.log.termAt r.prevIndex = sender.log.termAt r.prevIndex := by
    cases Nat.eq_zero_or_pos r.prevIndex with
    | inl zero => exact .inl zero
    | inr positive => exact .inr ((taken.same positive).trans tells.prevTerm)
  have same := (matching.take_eq taken.inside inside terms).symm
  have parts := tells.entries
  have length : (sender.log.take r.prevIndex).length = r.prevIndex :=
    List.length_take_of_le inside
  refine taken.log.eq_or_eq ?_ ?_ (matching.of_part (List.take_prefix _ _))
  · rw [parts, List.take_append_of_le_length (Nat.le_of_eq length.symm), List.take_take,
      Nat.min_self, same]
  · rw [parts, List.drop_append_of_le_length (Nat.le_of_eq length.symm),
      List.drop_eq_nil_of_le (Nat.le_of_eq length), List.nil_append]

theorem part_of_taken {r : HeartbeatRequest} {n n' sender : Node} (taken : Node.Taken r n n')
    (tells : sender.Tells r) (matching : Log.Matches n.log sender.log) :
    sender.log.take r.lastIndex <+: n'.log := by
  rcases taken_log taken tells matching with ⟨same, part⟩ | ⟨same, _⟩
  · rwa [same]
  · rw [same]

theorem Traced.append (h : R.Traced k log) {e : Entry} (leads : R.Leads (k + 1) i e.term)
    (longer : (R.node (k + 1) i).log = log ++ [e]) : R.Traced (k + 1) (log ++ [e]) := by
  intro m x hx
  cases Nat.lt_or_ge m log.length with
  | inl old =>
      rw [List.getElem?_append_left old] at hx
      rw [List.take_append_of_le_length old]
      exact h.mono (Nat.le_succ k) m x hx
  | inr new =>
      obtain ⟨inside, _⟩ := List.getElem?_eq_some_iff.mp hx
      simp only [List.length_append, List.length_singleton] at inside
      obtain rfl : m = log.length := by omega
      rw [List.getElem?_concat_length] at hx
      obtain rfl := Option.some.inj hx
      exact ⟨k + 1, Nat.le_refl _, i, leads, longer ▸ List.take_prefix _ _⟩

theorem traced_upTo (k : Nat) : ∀ l ≤ k, ∀ i, R.Traced l (R.node l i).log := by
  induction k with
  | zero =>
      intro l le i m e he
      obtain rfl := Nat.le_zero.mp le
      simp [node, member, state, System.start, Member.start, Node.start] at he
  | succ k ih =>
      intro l le i
      rcases Nat.lt_or_eq_of_le le with lt | rfl
      · exact ih l (Nat.le_of_lt_succ lt) i
      have old := ih k (Nat.le_refl k) i
      rcases R.log_cases k i with same | ⟨e, leads, longer⟩ | ⟨x, hx, r, hr, taken⟩
      · rw [same]
        exact old.mono (Nat.le_succ k)
      · rw [longer]
        exact old.append leads longer
      · obtain ⟨l, le, _, tells⟩ := R.sent k x hx r hr
        have source := ih l le x.caller
        rcases taken_log taken tells (old.matches source) with ⟨same, _⟩ | ⟨part, _⟩
        · rw [same]
          exact old.mono (Nat.le_succ k)
        · rw [part]
          exact (source.of_part (List.take_prefix _ _)).mono (by omega)

theorem traced (k : Nat) (i : Fin n) : R.Traced k (R.node k i).log :=
  traced_upTo k k (Nat.le_refl k) i

theorem matches_log (k l : Nat) (i j : Fin n) :
    Log.Matches (R.node k i).log (R.node l j).log :=
  (traced k i).matches (traced l j)

/-- What holds of the empty log, stays when a leader adds an entry, and passes on to the beginnings
    of a log, holds of every log: whatever else is in a log stood in the log of a leader before. -/
theorem log_induct {P : Log → Prop} (nil : P []) (part : ∀ a b : Log, P b → a <+: b → P a)
    (added : ∀ k i e, R.Leads (k + 1) i e.term →
      (R.node (k + 1) i).log = (R.node k i).log ++ [e] → P (R.node k i).log →
      P ((R.node k i).log ++ [e])) (k : Nat) (i : Fin n) : P (R.node k i).log := by
  suffices upTo : ∀ k, ∀ l ≤ k, ∀ i, P (R.node l i).log from upTo k k (Nat.le_refl k) i
  intro k
  induction k with
  | zero =>
      intro l le i
      obtain rfl := Nat.le_zero.mp le
      exact nil
  | succ k ih =>
      intro l le i
      rcases Nat.lt_or_eq_of_le le with lt | rfl
      · exact ih l (Nat.le_of_lt_succ lt) i
      have old := ih k (Nat.le_refl k) i
      rcases R.log_cases k i with same | ⟨e, leads, longer⟩ | ⟨x, hx, r, hr, taken⟩
      · rw [same]
        exact old
      · rw [longer]
        exact added k i e leads longer old
      · obtain ⟨l, le, _, tells⟩ := R.sent k x hx r hr
        rcases taken_log taken tells (matches_log k l i x.caller) with ⟨same, _⟩ | ⟨taken, _⟩
        · rw [same]
          exact old
        · rw [taken]
          exact part _ _ (ih l le x.caller) (List.take_prefix _ _)

/-! ## Terms along a log -/

theorem rising_upTo (k : Nat) : ∀ l ≤ k, ∀ i, Log.Rising (R.node l i).log ∧
    ∀ e ∈ (R.node l i).log, e.term ≤ (R.node l i).term := by
  induction k with
  | zero =>
      intro l le i
      obtain rfl := Nat.le_zero.mp le
      simp [Log.Rising, node, member, state, System.start, Member.start, Node.start]
  | succ k ih =>
      intro l le i
      rcases Nat.lt_or_eq_of_le le with lt | rfl
      · exact ih l (Nat.le_of_lt_succ lt) i
      obtain ⟨rising, terms⟩ := ih k (Nat.le_refl k) i
      have later := (R.later_succ k i).term
      have kept : ∀ e ∈ (R.node k i).log, e.term ≤ (R.node (k + 1) i).term :=
        fun e he => Nat.le_trans (terms e he) later
      rcases R.log_cases k i with same | ⟨e, leads, longer⟩ | ⟨x, hx, r, hr, taken⟩
      · rw [same]
        exact ⟨rising, kept⟩
      · rw [longer]
        refine ⟨rising.append (leads.2 ▸ kept), fun x hx => ?_⟩
        cases List.mem_append.mp hx with
        | inl old => exact kept x old
        | inr new => rw [List.mem_singleton.mp new, leads.2]
      · obtain ⟨l, le, leads, tells⟩ := R.sent k x hx r hr
        rcases taken_log taken tells (matches_log k l i x.caller) with ⟨same, _⟩ | ⟨part, _⟩
        · rw [same]
          exact ⟨rising, kept⟩
        · obtain ⟨risingSource, termsSource⟩ := ih l le x.caller
          have before : (R.node l x.caller).log.take r.lastIndex <+: (R.node l x.caller).log :=
            List.take_prefix _ _
          rw [part, taken.term, tells.term]
          exact ⟨risingSource.of_part before,
            fun e he => termsSource e (before.subset he)⟩

theorem rising (k : Nat) (i : Fin n) : Log.Rising (R.node k i).log :=
  (rising_upTo k k (Nat.le_refl k) i).1

theorem term_le (k : Nat) (i : Fin n) : ∀ e ∈ (R.node k i).log, e.term ≤ (R.node k i).term :=
  (rising_upTo k k (Nat.le_refl k) i).2

/-! ## Requests under way -/

/-- Where a request under way and a log have entries of one term, they are the same up to there, and
    the log has the entry before them that the request builds on. -/
theorem Sent.matches {r : HeartbeatRequest} (h : R.Sent k i T r) {m : Nat} {x y : Entry}
    (hx : r.entries[m]? = some x) (hy : (R.node l j).log[r.prevIndex + m]? = some y)
    (same : x.term = y.term) :
    (R.node l j).log.termAt r.prevIndex = r.prevTerm ∧
      ((R.node l j).log.drop r.prevIndex).take (m + 1) = r.entries.take (m + 1) := by
  obtain ⟨s, _, _, tells⟩ := h
  have inside := tells.inside
  obtain ⟨within, _⟩ := List.getElem?_eq_some_iff.mp hx
  have length : ((R.node s i).log.take r.prevIndex).length = r.prevIndex :=
    List.length_take_of_le inside
  -- the entries are the sender's
  have source : ∀ p < r.entries.length,
      (R.node s i).log[r.prevIndex + p]? = r.entries[p]? := by
    intro p lt
    have short : r.prevIndex + p < r.lastIndex := Nat.add_lt_add_left lt _
    rw [← List.getElem?_take_of_lt short, tells.entries, List.getElem?_append_right (by omega),
      length, Nat.add_sub_cancel_left]
  have upTo := (matches_log l s j i) (r.prevIndex + m) y x hy ((source m within).trans hx) same.symm
  have at_ : ∀ p ≤ r.prevIndex + m, (R.node l j).log[p]? = (R.node s i).log[p]? := by
    intro p le
    have := congrArg (·[p]?) upTo
    simpa only [List.getElem?_take_of_lt (Nat.lt_succ_of_le le)] using this
  constructor
  · rw [tells.prevTerm]
    cases prev : r.prevIndex with
    | zero => rfl
    | succ p => rw [Log.termAt_succ, Log.termAt_succ, at_ p (by omega)]
  · refine List.ext_getElem? fun p => ?_
    cases Nat.lt_or_ge p (m + 1) with
    | inl lt =>
        rw [List.getElem?_take_of_lt lt, List.getElem?_take_of_lt lt, List.getElem?_drop,
          at_ _ (by omega), source p (by omega)]
    | inr ge => rw [List.getElem?_take_eq_none ge, List.getElem?_take_eq_none ge]

/-- In every log the terms never fall and never pass the term of the node. Where an entry of a log
    has the term of the entry of another log at its position, the two are the same up to there; and
    so are a log and the entries of a request under way, which belong after what it builds on. -/
theorem logs_match (R : Run n) :
    (∀ k i, (R.node k i).log.Pairwise (·.term ≤ ·.term) ∧
      ∀ e ∈ (R.node k i).log, e.term ≤ (R.node k i).term) ∧
    (∀ k i l j (m : Nat) (x y : Entry),
      (R.node k i).log[m]? = some x → (R.node l j).log[m]? = some y → x.term = y.term →
      (R.node k i).log.take (m + 1) = (R.node l j).log.take (m + 1)) ∧
    ∀ k, ∀ round ∈ (R.state k).rounds, ∀ r ∈ round.sent, ∀ l j (m : Nat) (x y : Entry),
      r.entries[m]? = some x → (R.node l j).log[r.prevIndex + m]? = some y → x.term = y.term →
      (R.node l j).log.termAt r.prevIndex = r.prevTerm ∧
        ((R.node l j).log.drop r.prevIndex).take (m + 1) = r.entries.take (m + 1) := by
  refine ⟨?_, ?_, ?_⟩
  · intro k i
    exact ⟨rising k i, term_le k i⟩
  · intro k i l j
    exact matches_log k l i j
  · intro k round hround r hr l j m x y hx hy same
    exact (sent k round hround r hr).matches hx hy same

theorem logs_match_in_the_sample : ∃ round ∈ (sample.state 6).rounds, ∃ r ∈ round.sent,
    r.entries.length = 2 ∧
      ((sample.node 7 1).log.drop r.prevIndex).take 2 = r.entries.take 2 := by
  have made : ((sample.state 6).rounds[0]?).bind (·.sent[0]?) = some
      ⟨1, 0, "a", 0, 0, [⟨1, .barrier⟩, ⟨1, .write "k" .tombstone 0⟩]⟩ := by decide +kernel
  obtain ⟨round, opened, sent⟩ := Option.bind_eq_some_iff.mp made
  have hround := List.mem_of_getElem? opened
  have hr := List.mem_of_getElem? sent
  refine ⟨round, hround, _, hr, rfl, ?_⟩
  exact ((logs_match sample).2.2 6 round hround _ hr 7 1 1 ⟨1, .write "k" .tombstone 0⟩
    ⟨1, .write "k" .tombstone 0⟩ rfl (by decide +kernel) rfl).2

end QuorumStore.Run
