import QuorumStore.Proofs.Commitment
/-! # What a leader knows about its peers

A leader concludes what a peer holds from the request that it sent, and requests are handled late,
more than once and in any order. That is sound all the same: while a term lasts, whatever its leader
sends is a part of one log that only grows, so no request of the term takes back what another one
has brought.
-/

namespace QuorumStore.Run

variable {n : Nat} {R : Run n} {k l m T count : Nat} {i v : Fin n}

/-- What a member has held of the leader's log it keeps as long as it stays in the term. -/
theorem Held.kept {log : Log} (h : R.Held k v T log) (le : k ≤ l)
    (term : (R.node l v).term = T) (leads : R.Leads m i T) (part : log <+: (R.node m i).log) :
    log <+: (R.node l v).log := by
  obtain ⟨s, before, reached, holds⟩ := h
  refine keeps (Nat.le_trans before le) holds fun p _ j U lower upper leads' => ?_
  obtain rfl : U = T := by omega
  exact (leads.comparable leads').of_prefixes part (List.prefix_refl _)

/-! ## Acknowledgements -/

theorem mem_set_of_ne {α : Type} {xs : List α} {q : Nat} {x y z : α} (at_ : xs[q]? = some y)
    (hx : x ∈ xs) (ne : x ≠ y) : x ∈ xs.set q z := by
  obtain ⟨p, hp⟩ := List.mem_iff_getElem?.mp hx
  have apart : q ≠ p := by
    rintro rfl
    exact ne (Option.some.inj (hp.symm.trans at_))
  exact List.mem_of_getElem? ((List.getElem?_set_ne apart).trans hp)

theorem mem_set_self {α : Type} {xs : List α} {q : Nat} {y z : α} (at_ : xs[q]? = some y) :
    z ∈ xs.set q z := by
  obtain ⟨inside, _⟩ := List.getElem?_eq_some_iff.mp at_
  exact List.mem_set inside z

/-- A round is there for good, with its requests and with every answer it was given. -/
theorem round_stays {x : Round n} (hx : x ∈ (R.state k).rounds) :
    ∃ x' ∈ (R.state (k + 1)).rounds, x'.caller = x.caller ∧ x'.task = x.task ∧
      x'.sent = x.sent ∧ x.answers ⊆ x'.answers := by
  have same : x ∈ (R.state (k + 1)).rounds → ∃ x' ∈ (R.state (k + 1)).rounds,
      x'.caller = x.caller ∧ x'.task = x.task ∧ x'.sent = x.sent ∧ x.answers ⊆ x'.answers :=
    fun stays => ⟨x, stays, rfl, rfl, rfl, List.Subset.refl _⟩
  have step := R.step k
  generalize R.state (k + 1) = s' at step same ⊢
  generalize R.acts k = act at step
  cases step with
  | rests => exact same hx
  | wakes => exact same hx
  | opensBallot => exact same hx
  | votes => exact same hx
  | counts => exact same hx
  | stages => exact same hx
  | opensRound => exact same (List.mem_append_left _ hx)
  | follows round peer y j request t at_ =>
      by_cases eq : x = y
      · subst eq
        exact ⟨_, mem_set_self at_, rfl, rfl, rfl, List.subset_append_left ..⟩
      · exact same (mem_set_of_ne at_ hx eq)
  | records round peer y choice sent reply t goesOn at_ =>
      by_cases eq : x = y
      · subst eq
        exact ⟨_, mem_set_self at_, rfl, rfl, rfl, List.Subset.refl _⟩
      · exact same (mem_set_of_ne at_ hx eq)

variable (R) in
/-- By a moment a member has acknowledged to the leader of a term that it holds so many of the
    leader's entries: it answered a heartbeat that covers them with a success. -/
def Vouched (k : Nat) (v i : Fin n) (T count : Nat) : Prop :=
  ∃ x ∈ (R.state k).rounds, x.caller = i ∧ x.task = T ∧
    ∃ (peer : Nat) (reply : HeartbeatReply) (r : HeartbeatRequest),
      (R.roster.peers i)[peer]? = some v ∧ (peer, reply) ∈ x.answers ∧ reply.success = true ∧
        x.sent[peer]? = some r ∧ count ≤ r.lastIndex

theorem Vouched.succ (h : R.Vouched k v i T count) : R.Vouched (k + 1) v i T count := by
  obtain ⟨x, hx, own, task, peer, reply, r, target, answered, success, sent, covered⟩ := h
  obtain ⟨x', hx', caller, task', sent', answers⟩ := round_stays hx
  exact ⟨x', hx', caller.trans own, task'.trans task, peer, reply, r, target, answers answered,
    success, sent' ▸ sent, covered⟩

theorem Vouched.of_le {less : Nat} (h : R.Vouched k v i T count) (le : less ≤ count) :
    R.Vouched k v i T less := by
  obtain ⟨x, hx, own, task, peer, reply, r, target, answered, success, sent, covered⟩ := h
  exact ⟨x, hx, own, task, peer, reply, r, target, answered, success, sent,
    Nat.le_trans le covered⟩

variable (R) in
/-- All that a leader believes to be held by its peers they have acknowledged. -/
def Backed (k : Nat) (i : Fin n) (T : Nat) : Prop :=
  ∀ (peer : Nat) (p : Progress), (R.node k i).progress[peer]? = some p → 0 < p.matched →
    ∃ v, (R.roster.peers i)[peer]? = some v ∧ R.Vouched k v i T p.matched

theorem Backed.succ (h : R.Backed k i T)
    (same : (R.node (k + 1) i).progress = (R.node k i).progress) : R.Backed (k + 1) i T := by
  intro peer p at_ pos
  rw [same] at at_
  obtain ⟨v, target, vouched⟩ := h peer p at_ pos
  exact ⟨v, target, vouched.succ⟩

theorem Backed.learn {x : Round n} {peer : Nat} {sent : HeartbeatRequest} {reply : HeartbeatReply}
    (h : R.Backed k i T) (hx : x ∈ (R.state k).rounds) (own : x.caller = i) (task : x.task = T)
    (answered : (peer, reply) ∈ x.answers) (asked : x.sent[peer]? = some sent)
    (learned : (R.node (k + 1) i).progress =
      (R.node k i).progress.modify peer (Node.learn sent reply)) : R.Backed (k + 1) i T := by
  intro q p at_ pos
  rw [learned] at at_
  obtain ⟨old, before, same | ⟨rfl, success, covers⟩⟩ := Node.learn_cases at_
  · rw [same] at pos ⊢
    obtain ⟨v, target, vouched⟩ := h q old before pos
    exact ⟨v, target, vouched.succ⟩
  · obtain ⟨v, r, target, sent', _⟩ := confirmed k x hx peer reply answered success
    obtain rfl := Option.some.inj (asked.symm.trans sent')
    rw [own] at target
    exact ⟨v, target, Vouched.succ ⟨x, hx, own, task, peer, reply, sent, target, answered,
      success, asked, Nat.le_of_eq covers⟩⟩

theorem backed (k : Nat) (i : Fin n) (T : Nat) (leads : R.Leads k i T) : R.Backed k i T := by
  induction k, leads using Leads.induct with
  | wins k leads next progress =>
      intro peer p at_ pos
      rw [progress] at at_
      obtain rfl := List.eq_of_mem_replicate (List.mem_of_getElem? at_)
      exact absurd pos (Nat.lt_irrefl 0)
  | rests k before leads ih longer same => exact ih.succ same
  | learns k before leads x peer sent reply ih hx own task answered asked log progress =>
      exact ih.learn hx own task answered asked progress

/-! ## Commitment -/

/-- A leader raises its commit index no further than to what a majority has reached by all that it
    knows. -/
theorem Leads.raises (leads : R.Leads (k + 1) i T)
    (more : (R.node k i).commit < (R.node (k + 1) i).commit) :
    (R.node (k + 1) i).commit ≤ reachedByQuorum
      ((R.node (k + 1) i).progress.map Progress.matched ++ [(R.node (k + 1) i).lastIndex]) := by
  have advanced : Node.Advances (R.node k i) (R.node (k + 1) i) → (R.node (k + 1) i).commit ≤
      reachedByQuorum
        ((R.node (k + 1) i).progress.map Progress.matched ++ [(R.node (k + 1) i).lastIndex]) := by
    rintro (same | ⟨reached, rfl, _, upTo, _⟩)
    · omega
    · exact upTo
  cases R.change k i with
  | idle idle => exact absurd idle.commit (by omega)
  | takes x r _ _ taken => exact absurd (taken.role.symm.trans leads.1) (by decide)
  | records x peer sent reply _ _ _ _ _ _ _ _ _ _ advances => exact advanced advances
  | stages e _ _ _ _ _ _ advances => exact advanced advances
  | wins U elects => exact advanced elects.won.advances

/-- What a leader believes of a peer is true, at once and as long as the peer stays in the term,
    whatever it is sent: the peer holds that many of the leader's entries. And when a leader raises
    its commit index, it is a member of a majority that has acknowledged to hold everything up to
    there, and has held it. -/
theorem progress_is_sound (R : Run n) :
    (∀ k i T, R.Leads k i T → ∀ (peer : Nat) (v : Fin n), (R.roster.peers i)[peer]? = some v →
      ∃ p, (R.node k i).progress[peer]? = some p ∧ p.matched ≤ (R.node k i).lastIndex ∧
        ∀ l, k ≤ l → (R.node l v).term = T →
          (R.node l v).log.take p.matched = (R.node k i).log.take p.matched) ∧
    ∀ k i T, R.Leads (k + 1) i T → (R.node k i).commit < (R.node (k + 1) i).commit →
      ∃ Q : Finset (Fin n), n < 2 * Q.card ∧ ∀ v ∈ Q, v = i ∨
        R.Vouched (k + 1) v i T (R.node (k + 1) i).commit ∧
          R.Held (k + 1) v T ((R.node (k + 1) i).log.take (R.node (k + 1) i).commit) := by
  constructor
  · intro k i T leads peer v target
    have informed := informed k i T leads
    obtain ⟨inside, _⟩ := List.getElem?_eq_some_iff.mp target
    obtain ⟨p, at_⟩ : ∃ p, (R.node k i).progress[peer]? = some p :=
      ⟨_, List.getElem?_eq_getElem (informed.aligned ▸ inside)⟩
    obtain ⟨covered, known⟩ := informed.known peer p at_
    refine ⟨p, at_, covered, fun l le term => ?_⟩
    rcases Nat.eq_zero_or_pos p.matched with zero | pos
    · rw [zero, List.take_zero, List.take_zero]
    · obtain ⟨w, target', held⟩ := known pos
      obtain rfl := Option.some.inj (target.symm.trans target')
      have holds := held.kept le term leads (List.take_prefix _ _)
      have length := List.length_take_of_le covered
      rw [List.prefix_iff_eq_take.mp holds, length]
  · intro k i T leads more
    have informed := informed (k + 1) i T leads
    have raised := leads.raises more
    obtain ⟨Q, enough, all⟩ := exists_quorum_reached
      ((R.node (k + 1) i).progress.map Progress.matched) (R.node (k + 1) i).lastIndex
      (R.roster.peers_nodup i) (fun mem => (R.roster.mem_peers i i).mp mem rfl)
      (R.roster.length_peers i) (by rw [List.length_map, informed.aligned])
    refine ⟨Q, by unfold quorum at enough; omega, fun v hv => (all v hv).imp_right ?_⟩
    rintro ⟨peer, count, target, matched, reached⟩
    rw [List.getElem?_map] at matched
    obtain ⟨p, at_, rfl⟩ := Option.map_eq_some_iff.mp matched
    obtain ⟨v', target', vouched⟩ := backed (k + 1) i T leads peer p at_ (by omega)
    obtain rfl := Option.some.inj (target.symm.trans target')
    obtain ⟨v', target'', held⟩ := (informed.known peer p at_).2 (by omega)
    obtain rfl := Option.some.inj (target.symm.trans target'')
    exact ⟨vouched.of_le (by omega), held.of_part (List.take_prefix_take_left (by omega))⟩

theorem progress_is_sound_in_the_sample :
    (sample.node 8 0).progress[0]? = some ⟨3, 2⟩ ∧ (sample.node 9 1).term = 1 ∧
      (sample.node 9 1).log.take 2 = (sample.node 8 0).log.take 2 ∧
      ∃ Q : Finset (Fin 3), 3 < 2 * Q.card ∧ ∀ v ∈ Q, v = 0 ∨ sample.Vouched 8 v 0 1 2 := by
  have leads : sample.Leads 8 0 1 := by
    rw [Leads]
    decide +kernel
  have known : (sample.node 8 0).progress[0]? = some ⟨3, 2⟩ := by decide +kernel
  have term : (sample.node 9 1).term = 1 := by decide +kernel
  have before : (sample.node 7 0).commit = 0 := by decide +kernel
  have after : (sample.node 8 0).commit = 2 := by decide +kernel
  obtain ⟨believed, committed⟩ := progress_is_sound sample
  obtain ⟨p, at_, _, held⟩ := believed 8 0 1 leads 0 1 rfl
  obtain rfl := Option.some.inj (known.symm.trans at_)
  refine ⟨known, term, held 9 (by decide) term, ?_⟩
  obtain ⟨Q, majority, all⟩ := committed 7 0 1 leads (by rw [before, after]; decide)
  rw [after] at all
  exact ⟨Q, majority, fun v hv => (all v hv).imp_right And.left⟩

end QuorumStore.Run
