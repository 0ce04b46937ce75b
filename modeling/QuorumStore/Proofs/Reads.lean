import QuorumStore.Proofs.Durability
/-! # What reads see

A member that leads answers a read from its own committed store. It asks nobody whether it still
leads, and what its predecessors have committed it commits only along with an entry of its own term.
So a read can miss an acknowledged write: on a leader that has been replaced without having heard of
it, and on a new leader that has committed nothing of its own yet. Everywhere else it sees the write
or a later one.
-/

namespace QuorumStore

theorem Node.Sound.read_ok {me key : String} {n : Node} {answer : Option Record} (h : n.Sound me)
    (ok : n.read key = .ok answer) :
    n.role = .leader ∧ answer = Log.lastWrite? (n.log.take n.commit) key := by
  by_cases role : n.role = .leader
  · simp only [read, ensureLeader, if_pos role, Except.ok.injEq] at ok
    rw [← ok, h.replayed, Log.get?_replay]
    exact ⟨role, rfl⟩
  · simp [read, ensureLeader, role] at ok

namespace Run

variable {n : Nat} {R : Run n} {k l m index : Nat} {i j : Fin n} {key : String} {write : Write}
  {r : Record} {answer : Option Record} {v : Nat} {e : Entry}

variable (R) in
/-- An answer is the last write of a key that a member has committed by a moment, and that write
    stands at a position or after it. -/
def Reflects (m : Nat) (j : Fin n) (key : String) (index : Nat) (answer : Option Record) : Prop :=
  ∃ q content version, index ≤ q ∧
    Log.Latest ((R.node m j).log.take (R.node m j).commit) key q content version ∧
    answer = some (content.record version)

theorem Reflects.reached (h : R.Reflects m j key index answer) :
    index < (R.node m j).commit := by
  obtain ⟨q, content, version, from_, latest, _⟩ := h
  exact Nat.lt_of_le_of_lt from_ (Log.writesAt_take.mp latest.writes).1

/-- Whoever has committed an acknowledged write reflects it. -/
theorem Confirms.reflects (h : R.Confirms k l i key write r v e)
    (reached : (R.node k i).log.length < (R.node m j).commit)
    (read : (R.node m j).read key = .ok answer) :
    R.Reflects m j key (R.node k i).log.length answer := by
  have writes := Log.writesAt_take.mpr ⟨reached, h.writesAt reached⟩
  obtain ⟨_, rfl⟩ := (R.sound m j).read_ok read
  rcases Log.lastWrite?_cases ((R.node m j).log.take (R.node m j).commit) key with
    ⟨unwritten, _⟩ | ⟨q, content, version, latest, found⟩
  · exact absurd writes (unwritten _ _ _)
  · refine ⟨q, content, version, Nat.le_of_not_lt fun before => ?_, latest, found⟩
    exact latest.last _ _ _ before writes

theorem Confirms.reached_in_term (h : R.Confirms k l i key write r v e) (later : l ≤ m)
    (leads : R.Leads m j e.term) : (R.node k i).log.length < (R.node m j).commit := by
  obtain rfl := h.before.unique leads
  exact Nat.lt_of_lt_of_le h.reached (R.later later i).commit

/-- A leader of a later term has committed an acknowledged write as soon as it has committed an
    entry of its own. -/
theorem Confirms.reached_by_successor {p U : Nat} {own : Entry}
    (h : R.Confirms k l i key write r v e) (leads : R.Leads m j U) (newer : e.term < U)
    (committed : p < (R.node m j).commit) (at_ : (R.node m j).log[p]? = some own)
    (term : own.term = U) : (R.node k i).log.length < (R.node m j).commit := by
  by_contra behind
  -- then its own entry would stand before one of an earlier term
  have before : p < (R.node k i).log.length := by omega
  have le := (rising m j).le_of_lt before at_ (h.committed.kept leads newer (Nat.le_refl m))
  omega

/-- A leader of an earlier term has no room for the write: its log ends with its own term. -/
theorem Confirms.unreached_by_predecessor (h : R.Confirms k l i key write r v e)
    (older : (R.node m j).term < e.term) :
    (R.node m j).commit ≤ (R.node k i).log.length := by
  by_contra reached
  have at_ := h.committed.at_commit (Nat.lt_of_not_le reached)
  have le := term_le m j e (List.mem_of_getElem? at_)
  omega

/-- A read is answered with what the answering member has committed, which is an acknowledged write
    or a later one just if it has committed the write. The leader of the write's term has, and a
    leader of a later term has once it has committed an entry of that term. A leader of an earlier
    term never has. -/
theorem reads_reflect_what_is_committed (ack : R.Acknowledged k l i key write r) (later : l ≤ m)
    (read : (R.node m j).read key = .ok answer) :
    answer = Log.lastWrite? ((R.node m j).log.take (R.node m j).commit) key ∧
    (R.Reflects m j key (R.node k i).log.length answer ↔
      (R.node k i).log.length < (R.node m j).commit) ∧
    ((R.node m j).term = (R.node k i).term → i = j ∧
      R.Reflects m j key (R.node k i).log.length answer) ∧
    ((R.node k i).term < (R.node m j).term → (∃ p own, p < (R.node m j).commit ∧
        (R.node m j).log[p]? = some own ∧ own.term = (R.node m j).term) →
      R.Reflects m j key (R.node k i).log.length answer) ∧
    ((R.node m j).term < (R.node k i).term →
      ¬ R.Reflects m j key (R.node k i).log.length answer) := by
  obtain ⟨v, e, confirms⟩ := ack.confirms
  obtain ⟨role, said⟩ := (R.sound m j).read_ok read
  have term : (R.node k i).term = e.term := confirms.before.2
  have reflects : (R.node k i).log.length < (R.node m j).commit →
      R.Reflects m j key (R.node k i).log.length answer := fun reached =>
    confirms.reflects reached read
  refine ⟨said, ⟨Reflects.reached, reflects⟩, fun same => ?_, fun newer => ?_, fun older h => ?_⟩
  · have leads : R.Leads m j e.term := ⟨role, same.trans term⟩
    exact ⟨confirms.before.unique leads, reflects (confirms.reached_in_term later leads)⟩
  · rintro ⟨p, own, committed, at_, ownTerm⟩
    exact reflects
      (confirms.reached_by_successor ⟨role, rfl⟩ (term ▸ newer) committed at_ ownTerm)
  · exact absurd h.reached
      (Nat.not_lt_of_le (confirms.unreached_by_predecessor (term ▸ older)))

theorem succession_first : succession.Acknowledged 3 7 0 "k" (.upsert 0 ⟨[]⟩)
    (.live (Document.render ⟨[]⟩ 1) 1) :=
  .of_staged (.live (Document.render ⟨[]⟩ 1) 1, 0) false rfl (by decide) (by decide +kernel)
    (by decide +kernel)

theorem succession_second : succession.Acknowledged 10 17 1 "j" (.upsert 0 ⟨[]⟩)
    (.live (Document.render ⟨[]⟩ 1) 1) :=
  .of_staged (.live (Document.render ⟨[]⟩ 1) 1, 0) false rfl (by decide) (by decide +kernel)
    (by decide +kernel)

theorem reads_reflect_what_is_committed_in_the_succession :
    succession.Reflects 17 0 "k" 1 (some (.live (Document.render ⟨[]⟩ 1) 1)) ∧
      succession.Reflects 17 1 "k" 1 (some (.live (Document.render ⟨[]⟩ 1) 1)) ∧
      ¬ succession.Reflects 17 0 "j" 3 none := by
  have old : (succession.node 17 0).read "k" = .ok (some (.live (Document.render ⟨[]⟩ 1) 1)) := by
    decide +kernel
  have new : (succession.node 17 1).read "k" = .ok (some (.live (Document.render ⟨[]⟩ 1) 1)) := by
    decide +kernel
  have missed : (succession.node 17 0).read "j" = .ok none := by decide +kernel
  obtain ⟨_, _, inTerm, _, _⟩ := reads_reflect_what_is_committed succession_first (by decide) old
  obtain ⟨_, _, _, afterwards, _⟩ :=
    reads_reflect_what_is_committed succession_first (by decide) new
  obtain ⟨_, _, _, _, never⟩ :=
    reads_reflect_what_is_committed succession_second (Nat.le_refl 17) missed
  refine ⟨(inTerm (by decide +kernel)).2, afterwards (by decide +kernel) ?_,
    never (by decide +kernel)⟩
  exact ⟨2, ⟨2, .barrier⟩, by decide +kernel, by decide +kernel, by decide +kernel⟩

/-- A leader that has just been elected does not see the write that its predecessor has
    acknowledged, and the predecessor does not see the next one. -/
theorem reads_miss_acknowledged_writes :
    (succession.Acknowledged 3 7 0 "k" (.upsert 0 ⟨[]⟩) (.live (Document.render ⟨[]⟩ 1) 1) ∧
      (succession.node 10 1).read "k" = .ok none ∧
      ¬ succession.Reflects 10 1 "k" (succession.node 3 0).log.length none) ∧
    succession.Acknowledged 10 17 1 "j" (.upsert 0 ⟨[]⟩) (.live (Document.render ⟨[]⟩ 1) 1) ∧
      (succession.node 17 0).read "j" = .ok none ∧
      ¬ succession.Reflects 17 0 "j" (succession.node 10 1).log.length none := by
  refine ⟨⟨succession_first, by decide +kernel, ?_⟩, succession_second, by decide +kernel, ?_⟩
  · rintro ⟨_, _, _, _, _, said⟩
    simp at said
  · rintro ⟨_, _, _, _, _, said⟩
    simp at said

end Run

end QuorumStore
