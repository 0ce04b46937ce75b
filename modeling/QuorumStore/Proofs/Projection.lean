import QuorumStore.Proofs.Lineage
/-! # What staging looks ahead to

A leader checks a write against the record its key will have. It finds the record by searching what
is staged from the end, and asks the store only if the key is not written there. This comes to what
replaying the whole log makes of the key, and a write that is staged changes it for its own key
alone.
-/

namespace QuorumStore.Node

variable {me key : String} {n n' : Node}

/-- The commit index is inside the log, and every key has the record that replaying the committed
    entries gives it. -/
structure Applied (n : Node) : Prop where
  bound : n.commit ≤ n.lastIndex
  stored : ∀ key, n.store.get? key = (Log.replay (n.log.take n.commit)).get? key

theorem Sound.applied (h : Sound me n) : n.Applied := ⟨h.bound, fun key => by rw [h.replayed]⟩

namespace Applied

theorem projected (h : n.Applied) (key : String) :
    n.projected key = n.log.replay.get? key := by
  rw [projected_eq_or]
  exact Log.lastWrite?_drop_or (h.stored key)

theorem append (h : n.Applied) (e : Entry) : (n.append e).Applied where
  bound := append_bound h.bound e
  stored := by
    simp only [Node.append, List.take_append_of_le_length h.bound]
    exact h.stored

theorem claimTicket (h : n.Applied) : n.claimTicket.Applied := ⟨h.bound, h.stored⟩

/-- The entries that are committed give the store what replaying them gives. -/
theorem commitThrough (h : n.Applied) (target : Nat) : (n.commitThrough target).Applied where
  bound := commitThrough_bound h.bound target
  stored := by
    intro key
    have more : n.commit ≤ (n.commitThrough target).commit := by
      rw [commitThrough_commit]
      exact Nat.le_max_left ..
    rw [commitThrough_store, Log.get?_applyAll, commitThrough_log]
    apply Log.lastWrite?_drop_or
    rw [List.take_take, Nat.min_eq_left more]
    exact h.stored key

theorem advanceCommit (h : n.Applied) : n.advanceCommit.Applied := by
  rcases advanceCommit_cases n with same | ⟨_, _, _, _, _, commits⟩
  · rwa [same]
  · rw [commits]
    exact h.commitThrough _

theorem stageWrite (h : n.Applied) {write : Write} {staged : Record × Nat}
    (ok : n.stageWrite key write = .ok (staged, n')) : n'.Applied := by
  obtain ⟨_, _, version, content, _, _, rfl⟩ := stageWrite_ok ok
  exact (h.append _).claimTicket.advanceCommit

end Applied

/-- A leader stages what the version allows, and nothing else; nobody else stages anything. -/
theorem stageWrite_iff {write : Write} :
    (∃ staged n', n.stageWrite key write = .ok (staged, n')) ↔
      n.role = .leader ∧ ∃ version, write.resolve (n.projected key) = .ok version := by
  constructor
  · rintro ⟨staged, n', ok⟩
    obtain ⟨version, resolved, _, _⟩ := stageWrite_log ok
    exact ⟨(stageWrite_ok ok).1, version, resolved⟩
  · rintro ⟨leads, version, resolved⟩
    simp only [Node.stageWrite, ensureLeader, if_pos leads, resolved]
    exact ⟨_, _, rfl⟩

/-- The record that staging sees for a key is what replaying the whole log makes of an empty store,
    and the version of a write is checked against it. Once a write is staged, it is the record that
    its client is promised, and for any other key what it was. -/
theorem projected_as_replayed (applied : n.Applied) (key : String) (write : Write) :
    n.projected key = n.log.replay.get? key ∧
    ((∃ staged n', n.stageWrite key write = .ok (staged, n')) ↔
      n.role = .leader ∧ ∃ version, write.resolve (n.log.replay.get? key) = .ok version) ∧
    ∀ staged n', n.stageWrite key write = .ok (staged, n') →
      n'.Applied ∧ n'.projected key = some staged.1 ∧
        ∀ other, other ≠ key → n'.projected other = n.projected other := by
  have whole := applied.projected
  refine ⟨whole key, ?_, ?_⟩
  · rw [stageWrite_iff, whole key]
  · intro staged n' ok
    have applied' := applied.stageWrite ok
    obtain ⟨version, _, record, log⟩ := stageWrite_log ok
    have last : ∀ k, n'.projected k =
        (Log.recordBy k ⟨n.term, .write key (write.content version) version⟩).or
          (n.projected k) := by
      intro k
      rw [applied'.projected, whole k, log, Log.get?_replay, Log.get?_replay,
        Log.lastWrite?_concat]
    refine ⟨applied', ?_, ?_⟩
    · rw [last, Log.recordBy_of_writes rfl, Option.some_or, record]
    · intro other different
      have untouched : Log.recordBy other ⟨n.term, .write key (write.content version) version⟩ =
          none := if_neg (Ne.symm different)
      rw [last, untouched, Option.none_or]

/-- A leader without peers that has not committed anything of its own term yet. -/
private def leaderWithBacklog : Node where
  role := .leader
  term := 2
  votedFor := some "a"
  leader := some "a"
  log := [⟨1, .write "k" (.live "old") 1⟩, ⟨1, .write "j" (.live "other") 1⟩,
    ⟨1, .write "k" .tombstone 1⟩, ⟨2, .barrier⟩, ⟨2, .write "k" (.live "new") 1⟩]
  commit := 2
  store := ⟨[("k", .live "old" 1), ("j", .live "other" 1)]⟩
  progress := []
  deadline := 0
  tickets := []

/-- The key is written, deleted and written again, and the store knows of the first write only. That
    its records stand in another order than replaying puts them does not matter. -/
theorem projected_as_replayed_with_a_backlog :
    leaderWithBacklog.Applied ∧
      leaderWithBacklog.projected "k" = leaderWithBacklog.log.replay.get? "k" ∧
      ∃ staged n', leaderWithBacklog.stageWrite "k" .delete = .ok (staged, n') ∧
        n'.commit = 6 ∧ n'.projected "k" = some .tombstone ∧
        n'.projected "j" = some (.live "other" 1) := by
  have applied : leaderWithBacklog.Applied := by
    refine ⟨by decide, fun key => ?_⟩
    by_cases first : key = "k"
    · subst first
      decide
    · by_cases second : key = "j"
      · subst second
        decide
      · rw [Log.get?_replay]
        simp [leaderWithBacklog, Log.lastWrite?, Log.recordBy, Store.get?, List.lookup_cons,
          beq_eq_false_iff_ne.mpr first, beq_eq_false_iff_ne.mpr second, Ne.symm first,
          Ne.symm second]
  obtain ⟨replayed, stages, promised⟩ := projected_as_replayed applied "k" .delete
  obtain ⟨staged, n', ok⟩ := stages.mpr ⟨rfl, 1, by decide⟩
  obtain ⟨_, own, others⟩ := promised staged n' ok
  obtain ⟨rfl, rfl⟩ := Prod.mk.inj (Except.ok.inj ok)
  refine ⟨applied, replayed, _, _, ok, by decide, own, ?_⟩
  rw [others "j" (by decide)]
  decide

end QuorumStore.Node
