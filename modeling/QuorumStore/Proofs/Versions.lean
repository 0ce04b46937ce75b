import QuorumStore.Proofs.Durability
/-! # Versions over a run

A leader gives a write its version after all that its log comes to, and everyone else has its entries
from leaders. So every log is in line, however leaders change and whatever is taken back. Two clients
who are told the same version of a key have therefore written two lives of it, with its deletion
between them.
-/

namespace QuorumStore

theorem Write.resolve_upsert {current : Option Record} {expected version : Nat}
    {document : Document} (h : (Write.upsert expected document).resolve current = .ok version) :
    version = expected + 1 := by
  rw [resolve] at h
  split at h
  · split at h
    · rename_i creates
      rw [← Except.ok.inj h, creates]
    · simp at h
  · split at h
    · rename_i same
      rw [← Except.ok.inj h, same]
    · simp at h

namespace Run

variable {n : Nat} {R : Run n} {k l k' l' p : Nat} {i i' : Fin n} {key : String} {e : Entry}

/-! ## Entries that leaders add -/

/-- A log that an act makes longer under a leader is made so by an election, or by a client's write
    that is accepted after the whole log, committed or not. -/
theorem write_of_added (role : (R.node (k + 1) i).role = .leader)
    (longer : (R.node (k + 1) i).log = (R.node k i).log ++ [e]) (key : String) (content : Content)
    (version : Nat) (command : e.command = .write key content version) :
    ∃ write, R.acts k = .write i key write ∧ content = write.content version ∧
      write.resolve (Log.lastWrite? (R.node k i).log key) = .ok version := by
  have grew : ¬ (R.node (k + 1) i).log = (R.node k i).log := by
    rw [longer]
    simp
  have idle : ¬ Node.Idle (R.node k i) (R.node (k + 1) i) := fun idle => grew idle.log
  have added : ∀ e', (R.node (k + 1) i).log = (R.node k i).log ++ [e'] →
      e'.command = .write key content version := by
    intro e' longer'
    rw [longer] at longer'
    rw [← List.singleton_inj.mp (List.append_cancel_left longer'), command]
  cases R.move k i with
  | rests h => exact absurd (congrArg Node.log h) grew
  | campaigns t _ _ h => exact absurd (h ▸ Node.idle_beginCandidacy ..) idle
  | campaignsAlone t _ _ _ h =>
      rcases Node.count_cases (R.roster.address i) (R.roster.peers i).length
          ⟨(R.node k i).term + 1, 1, quorum ((R.roster.peers i).length + 1)⟩
          ((R.node k i).beginCandidacy t (R.roster.address i)).2 with
        ⟨_, _, same⟩ | ⟨_, _, _, won⟩
      · rw [same] at h
        exact absurd (h ▸ Node.idle_beginCandidacy ..) idle
      · rw [won] at h
        exact absurd (added _ (by rw [h]; exact Node.becomeLeader_log ..)) (by simp)
  | votes x peer request t _ _ _ h => exact absurd (h ▸ Node.idle_decideVote ..) idle
  | counts ballot peer choice x reply t _ _ _ _ h =>
      rcases Node.fold_cases t (R.roster.address i) (R.roster.peers i).length reply x.task
          (R.node k i) with ⟨_, f⟩ | ⟨_, _, f⟩ | ⟨_, _, _, f⟩
      · rw [f] at h
        exact absurd (h ▸ Node.idle_stepDown ..) idle
      · rw [f] at h
        exact absurd (congrArg Node.log h) grew
      · rw [f] at h
        exact absurd (added _ (by rw [h]; exact Node.becomeLeader_log ..)) (by simp)
  | follows x peer request t _ _ _ h =>
      rcases Node.answers (R.sound k i).bound t request with ⟨_, same | ⟨_, followed⟩⟩ | ⟨_, taken⟩
      · exact absurd (congrArg Node.log (h.trans same)) grew
      · rw [followed] at h
        exact absurd (h ▸ Node.idle_follow ..) idle
      · rw [← h] at taken
        exact absurd (taken.role.symm.trans role) (by decide)
  | records x peer sent reply t _ _ _ _ h =>
      rcases Node.recordReply_leads t x.task peer sent reply (R.node k i) with
        rests | ⟨_, _, told, rfl, _, _, same, _⟩
      · exact absurd (h ▸ rests) idle
      · exact absurd (h ▸ same) grew
  | stages key' write staged did ok =>
      obtain ⟨version', resolved, _, longer'⟩ := Node.stageWrite_log ok
      obtain ⟨rfl, rfl, rfl⟩ := Command.write.inj (added _ longer')
      rw [(R.sound k i).projected_eq] at resolved
      exact ⟨write, did, rfl, resolved⟩

theorem takes_of_added (role : (R.node (k + 1) i).role = .leader)
    (longer : (R.node (k + 1) i).log = (R.node k i).log ++ [e]) (key : String) (content : Content)
    (version : Nat) (command : e.command = .write key content version) :
    (R.node k i).log.Takes key content version := by
  obtain ⟨write, _, rfl, resolved⟩ := write_of_added role longer key content version command
  exact Log.takes_of_resolve resolved

/-! ## Every log -/

theorem lineage (k : Nat) (i : Fin n) : (R.node k i).log.Lineage := by
  refine log_induct Log.lineage_nil (fun a b h part => h.of_part part) ?_ k i
  intro k i e leads longer old
  exact old.append (takes_of_added leads.1 longer)

/-! ## Versions that clients are told -/

variable (R) in
/-- By a moment somebody has committed a write of a key at a position, and nobody ever commits
    anything else there. -/
def CommitsWrite (l p : Nat) (key : String) (content : Content) (version : Nat) : Prop :=
  (∃ m ≤ l, ∃ j, p < (R.node m j).commit) ∧
    ∀ m j, p < (R.node m j).commit → (R.node m j).log.WritesAt p key content version

theorem CommitsWrite.mono {content : Content} {version : Nat}
    (h : R.CommitsWrite l p key content version) (le : l ≤ l') :
    R.CommitsWrite l' p key content version := by
  obtain ⟨⟨m, upTo, committed⟩, only⟩ := h
  exact ⟨⟨m, Nat.le_trans upTo le, committed⟩, only⟩

variable {expected version : Nat} {document : Document} {r : Record}

theorem Acknowledged.told_version (h : R.Acknowledged k l i key (.upsert expected document) r) :
    r = .live (document.render (expected + 1)) (expected + 1) ∧
      R.CommitsWrite l (R.node k i).log.length key (.live (document.render (expected + 1)))
        (expected + 1) := by
  obtain ⟨version, e, confirms⟩ := h.confirms
  obtain rfl := Write.resolve_upsert confirms.resolved
  exact ⟨confirms.record, ⟨l, Nat.le_refl l, i, confirms.reached⟩, fun m j => confirms.writesAt⟩

/-- Two committed writes of one version have a tombstone between them. -/
theorem CommitsWrite.tombstone_between {q : Nat} {text text' : String}
    (h : R.CommitsWrite l p key (.live text) version)
    (h' : R.CommitsWrite l' q key (.live text') version) (before : p < q) :
    ∃ m ended, p < m ∧ m < q ∧ R.CommitsWrite l' m key .tombstone ended := by
  obtain ⟨s, upTo, j, reached⟩ := h'.1
  by_contra none
  have alive : ∀ m ended, p < m → m < q → ¬ (R.node s j).log.WritesAt m key .tombstone ended := by
    intro m ended from_ below writes
    have inside : m < (R.node s j).commit := Nat.lt_trans below reached
    exact none ⟨m, ended, from_, below, ⟨s, upTo, j, inside⟩,
      fun s' j' => writesAt_of_commit writes inside⟩
  exact Nat.lt_irrefl version ((lineage s j).lt_of_live (h.2 s j (Nat.lt_trans before reached))
    (h'.2 s j reached) before alive)

/-- Every log is in line, committed or not: a live write is one version above the live one before it
    and starts over at one where there is none, and a tombstone has the version of what it ends. Who
    writes a document is told the version after the one it is based on, and if two are told the same
    version, or base their writes on the same one, a tombstone is committed between them. -/
theorem versions_follow_lineages (R : Run n) :
    (∀ k i, (R.node k i).log.Lineage) ∧
    (∀ k l i key expected document r, R.Acknowledged k l i key (.upsert expected document) r →
      r = .live (document.render (expected + 1)) (expected + 1) ∧
        R.CommitsWrite l (R.node k i).log.length key (.live (document.render (expected + 1)))
          (expected + 1)) ∧
    ∀ k k' l l' i i' key expected expected' document document' r r',
      R.Acknowledged k l i key (.upsert expected document) r →
      R.Acknowledged k' l' i' key (.upsert expected' document') r' →
      k ≠ k' → r.version? = r'.version? ∨ expected = expected' →
      ∃ p ended, min (R.node k i).log.length (R.node k' i').log.length < p ∧
        p < max (R.node k i).log.length (R.node k' i').log.length ∧
        R.CommitsWrite (max l l') p key .tombstone ended := by
  refine ⟨lineage, fun _ _ _ _ _ _ _ => Acknowledged.told_version, ?_⟩
  intro k k' l l' i i' key expected expected' document document' r r' h h' ne same
  obtain ⟨rfl, commits⟩ := h.told_version
  obtain ⟨rfl, commits'⟩ := h'.told_version
  obtain rfl : expected = expected' := by
    rcases same with same | same
    · exact Nat.succ.inj (Option.some.inj same)
    · exact same
  have apart := h.position_ne h' ne
  rcases Nat.lt_or_gt_of_ne apart with before | after
  · obtain ⟨p, ended, from_, below, committed⟩ := commits.tombstone_between commits' before
    exact ⟨p, ended, by omega, by omega, committed.mono (Nat.le_max_right l l')⟩
  · obtain ⟨p, ended, from_, below, committed⟩ := commits'.tombstone_between commits after
    exact ⟨p, ended, by omega, by omega, committed.mono (Nat.le_max_left l l')⟩

/-- A member that is a cluster by itself elects itself and takes a value, its deletion and the value
    once more. -/
def recreation : Run 1 where
  roster :=
    { address _ := "a"
      peers _ := []
      timing _ := ⟨150, 300, 30, 50, 1000⟩
      started _ := 0
      address_injective := by unfold Function.Injective; decide
      peers_nodup := by decide
      mem_peers := by decide }
  acts k := [.wake 0 ⟨1000, 200⟩, .write 0 "k" (.upsert 0 ⟨[]⟩), .write 0 "k" .delete,
    .write 0 "k" (.upsert 0 ⟨[]⟩)].getD k (.wake 0 ⟨1000, 200⟩)

theorem versions_follow_lineages_in_the_recreation :
    (recreation.node 4 0).log.Lineage ∧ ∃ p ended, 1 < p ∧ p < 3 ∧
      recreation.CommitsWrite 4 p "k" .tombstone ended := by
  obtain ⟨lineage, told, between⟩ := versions_follow_lineages recreation
  have first : recreation.Acknowledged 1 2 0 "k" (.upsert 0 ⟨[]⟩)
      (.live (Document.render ⟨[]⟩ 1) 1) :=
    .of_staged (.live (Document.render ⟨[]⟩ 1) 1, 0) false rfl (by decide) (by decide +kernel)
      (by decide +kernel)
  have second : recreation.Acknowledged 3 4 0 "k" (.upsert 0 ⟨[]⟩)
      (.live (Document.render ⟨[]⟩ 1) 1) :=
    .of_staged (.live (Document.render ⟨[]⟩ 1) 1, 2) false rfl (by decide) (by decide +kernel)
      (by decide +kernel)
  obtain ⟨p, ended, from_, below, commits⟩ := between 1 3 2 4 0 0 "k" 0 0 _ _ _ _ first second
    (by decide) (.inl rfl)
  exact ⟨lineage 4 0, p, ended, from_, below, commits⟩

end Run

end QuorumStore
