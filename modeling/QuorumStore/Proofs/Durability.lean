import QuorumStore.Proofs.Commitment
import QuorumStore.Proofs.Lineage
import QuorumStore.Proofs.Tickets
import QuorumStore.Server.Values
/-! # Acknowledged writes are there for good

A client hears that its write is committed once its ticket says so. The ticket speaks of a position
and a term only, but two entries of one term at one position are the same entry, so what is
committed there is what was staged. It is committed in the term in which it was staged, so every
leader of a later term has it in its log, and every log that has come so far by committing.
-/

namespace QuorumStore

theorem Staged.outcome?_ok {s : Staged} {n : Node} {expired : Bool} {r : Record}
    (h : s.outcome? n expired = some (.ok r)) :
    r = s.record ∧ n.verdict s.ticket = .committed := by
  rw [outcome?] at h
  split at h
  · rename_i committed
    exact ⟨(Except.ok.inj (Option.some.inj h)).symm, committed⟩
  · simp at h
  · split at h <;> simp at h

namespace Run

variable {n : Nat} {R : Run n} {k l m T U : Nat} {i j : Fin n} {log : Log}

/-! ## Tickets over time -/

theorem handles_succ (k : Nat) (i : Fin n) : Node.Handles (R.node k i) (R.node (k + 1) i) := by
  cases R.move k i with
  | rests h => rw [h]; exact .refl _
  | campaigns t due _ h =>
      rw [h]
      exact Node.handles_beginCandidacy t _ (role_of_electionDue due)
  | campaignsAlone t _ due _ h =>
      intro waits
      have begun :=
        (Node.handles_beginCandidacy t (R.roster.address i) (role_of_electionDue due) waits).1
      rw [h]
      exact Node.handles_count _ _ _ _ begun
  | votes _ _ request t _ _ _ h => rw [h]; exact Node.handles_decideVote t request _
  | counts _ _ _ _ _ t _ _ _ _ h => rw [h]; exact Node.handles_fold t _ _ _ _ _
  | follows _ _ request t _ _ _ h =>
      rw [h]
      exact (R.sound k i).handles_handleHeartbeat t request
  | records _ _ _ _ t _ _ _ _ h => rw [h]; exact Node.handles_recordReply t _ _ _ _ _
  | stages _ _ _ _ ok => exact (Node.stageWrite_ticket ok).1

theorem waitsInTerm (k : Nat) (i : Fin n) : (R.node k i).WaitsInTerm := by
  induction k with
  | zero => intro t ht; simp [node, member, state, System.start, Member.start, Node.start] at ht
  | succ k ih => exact (handles_succ k i ih).1

theorem redeemed {number : Nat} {t : Ticket} (le : k ≤ l)
    (at_ : (R.node k i).tickets[number]? = some t)
    (open_ : t.verdict = .committed → (R.node k i).CommitsInTerm t.index t.term)
    (told : (R.node l i).verdict number = .committed) :
    ∃ m, k ≤ m ∧ m ≤ l ∧ (R.node m i).CommitsInTerm t.index t.term := by
  have all : ∃ t', (R.node l i).tickets[number]? = some t' ∧ t'.index = t.index ∧
      t'.term = t.term ∧ (t'.verdict = .committed →
        ∃ m, k ≤ m ∧ m ≤ l ∧ (R.node m i).CommitsInTerm t.index t.term) := by
    clear told
    induction l, le using Nat.le_induction with
    | base => exact ⟨t, at_, rfl, rfl, fun h => ⟨k, Nat.le_refl k, Nat.le_refl k, open_ h⟩⟩
    | succ l le ih =>
        obtain ⟨t', at', index, term, earlier⟩ := ih
        obtain ⟨t'', at'', honors⟩ := (handles_succ l i (waitsInTerm l i)).2 number t' at'
        refine ⟨t'', at'', honors.index.trans index, honors.term.trans term, fun h => ?_⟩
        cases honors.redeemed h with
        | inl before =>
            obtain ⟨m, from_, upTo, commits⟩ := earlier before
            exact ⟨m, from_, Nat.le_succ_of_le upTo, commits⟩
        | inr now =>
            rw [index, term] at now
            exact ⟨l + 1, Nat.le_succ_of_le le, Nat.le_refl _, now⟩
  obtain ⟨t', at', _, _, earlier⟩ := all
  refine earlier ?_
  simpa only [Node.verdict, at', Option.map_some, Option.getD_some] using told

/-- What is settled by a term stays with every member that holds it in that term or later. -/
theorem Settled.kept (h : R.Settled k T log) (le : l ≤ m) (reached : T ≤ (R.node l j).term)
    (holds : log <+: (R.node l j).log) : log <+: (R.node m j).log := by
  rcases h with rfl | ⟨V, before, chosen, hc, part⟩
  · exact List.nil_prefix
  · refine keeps le holds fun s _ i U lower _ leads => ?_
    exact (hc.comparable_of_leads (fun s _ => hc.carried s) (Nat.lt_succ_self s)
      (Nat.le_trans before (Nat.le_trans reached lower)) leads).of_prefixes part
        (List.prefix_refl _)

/-! ## Acknowledged writes -/

theorem member_write {key : String} {write : Write} {staged : Record × Nat} {m' : Member}
    (did : R.acts k = .write i key write) (ok : (R.member k i).put key write = .ok (staged, m')) :
    R.node (k + 1) i = m'.node := by
  apply R.node_put
  rw [member] at ok
  rw [state, did]
  simp only [System.act, ok]
  rfl

/-- What is committed in a term at the position of an entry that its leader has added is that
    entry. -/
theorem committed_entry {e : Entry} (added : (R.node (k + 1) i).log = (R.node k i).log ++ [e])
    (commits : (R.node m i).CommitsInTerm ((R.node k i).log.length + 1) e.term) :
    (R.node m i).log[(R.node k i).log.length]? = some e ∧
      R.Settled m e.term ((R.node m i).log.take ((R.node k i).log.length + 1)) := by
  obtain ⟨reached, term, own⟩ := commits
  have bound : (R.node m i).commit ≤ (R.node m i).log.length := (R.sound m i).bound
  have at_ : (R.node m i).log[(R.node k i).log.length]? =
      some (R.node m i).log[(R.node k i).log.length] := List.getElem?_eq_getElem (by omega)
  have staged : (R.node (k + 1) i).log[(R.node k i).log.length]? = some e := by
    rw [added, List.getElem?_concat_length]
  constructor
  · rw [Log.termAt_succ, at_] at term
    rw [at_, (matches_log m (k + 1) i i).entry_eq at_ staged term]
  · rw [← own]
    exact (settled m i).of_part (List.take_prefix_take_left reached)

theorem getElem?_of_take {a b : Log} {index : Nat} {e : Entry}
    (part : a.take (index + 1) <+: b) (at_ : a[index]? = some e) : b[index]? = some e := by
  refine Log.getElem?_of_part part ?_
  rw [List.getElem?_take_of_lt (Nat.lt_succ_self index), at_]

variable {p index : Nat} {key : String} {write : Write} {r : Record} {e : Entry}

variable (R) in
/-- A client writes through a member at one moment and is told at a later one that its write is
    committed, with this record. -/
def Acknowledged (k l : Nat) (i : Fin n) (key : String) (write : Write) (r : Record) : Prop :=
  R.acts k = .write i key write ∧ k < l ∧
    ∃ (staged : Record × Nat) (m : Member) (expired : Bool),
      (R.member k i).put key write = .ok (staged, m) ∧
        (⟨key, staged.1, staged.2⟩ : Staged).outcome? (R.node l i) expired = some (.ok r)

theorem Acknowledged.of_staged (staged : Record × Nat) (expired : Bool)
    (did : R.acts k = .write i key write) (after : k < l)
    (put : ((R.member k i).put key write).map Prod.fst = .ok staged)
    (told : (⟨key, staged.1, staged.2⟩ : Staged).outcome? (R.node l i) expired = some (.ok r)) :
    R.Acknowledged k l i key write r := by
  cases stages : (R.member k i).put key write with
  | error e => simp [stages, Except.map] at put
  | ok staging =>
      obtain ⟨staged', m⟩ := staging
      obtain rfl : staged' = staged := by simpa [stages, Except.map] using put
      exact ⟨did, after, staged', m, expired, stages, told⟩

variable (R) in
/-- By a moment an entry is committed at a position, in the term of the entry. -/
def Committed (l index : Nat) (e : Entry) : Prop :=
  ∃ m ≤ l, ∃ i, index < (R.node m i).commit ∧ (R.node m i).log[index]? = some e ∧
    R.Settled m e.term ((R.node m i).log.take (index + 1))

/-- What one member has committed at a position any other has committed there. -/
theorem getElem?_of_commit (at_ : (R.node k i).log[index]? = some e)
    (reached : index < (R.node k i).commit) (reached' : index < (R.node p j).commit) :
    (R.node p j).log[index]? = some e := by
  have same : (R.node k i).log.take (index + 1) = (R.node p j).log.take (index + 1) :=
    committed_eq reached reached'
  exact getElem?_of_take (same ▸ List.take_prefix _ _) at_

theorem Committed.at_commit (h : R.Committed l index e) (reached : index < (R.node p j).commit) :
    (R.node p j).log[index]? = some e := by
  obtain ⟨m, _, i, committed, at_, _⟩ := h
  exact getElem?_of_commit at_ committed reached

/-- A leader of a later term has the entry at its position, and keeps it there. -/
theorem Committed.kept (h : R.Committed l index e) (leads : R.Leads p j U) (later : e.term < U)
    (le : p ≤ m) : (R.node m j).log[index]? = some e := by
  obtain ⟨_, _, i, _, at_, settled⟩ := h
  have reached : e.term ≤ (R.node p j).term := leads.2 ▸ Nat.le_of_lt later
  exact getElem?_of_take (settled.kept le reached (settled.carried leads later)) at_

/-- What stands behind an acknowledged write: the version it was given, and the entry that its leader
    added, which is committed by now. -/
structure Confirms (R : Run n) (k l : Nat) (i : Fin n) (key : String) (write : Write) (r : Record)
    (version : Nat) (e : Entry) : Prop where
  resolved : write.resolve ((R.node k i).projected key) = .ok version
  record : r = (write.content version).record version
  command : e.command = .write key (write.content version) version
  before : R.Leads k i e.term
  after : R.Leads (k + 1) i e.term
  added : (R.node (k + 1) i).log = (R.node k i).log ++ [e]
  committed : R.Committed l (R.node k i).log.length e
  reached : (R.node k i).log.length < (R.node l i).commit

theorem Acknowledged.confirms (h : R.Acknowledged k l i key write r) :
    ∃ version e, R.Confirms k l i key write r version e := by
  obtain ⟨did, after, ⟨record, ticket⟩, m', expired, put, told⟩ := h
  obtain ⟨rfl, redeems⟩ := Staged.outcome?_ok told
  have next := member_write did put
  have ok := (Member.put_ok put).2
  rw [← next] at ok
  obtain ⟨t, at_, index, term, told⟩ := (Node.stageWrite_ticket ok).2 (waitsInTerm k i)
  obtain ⟨version, resolved, record_eq, added⟩ := Node.stageWrite_log ok
  obtain ⟨role, role', term', _⟩ := Node.stageWrite_leads ok
  obtain ⟨m, _, upTo, commits⟩ := redeemed after at_ told redeems
  rw [index, term] at commits
  obtain ⟨entry, settled⟩ := committed_entry added commits
  exact ⟨version, _, resolved, record_eq, rfl, ⟨role, rfl⟩, ⟨role', term'⟩, added,
    ⟨m, upTo, i, commits.1, entry, settled⟩, Nat.lt_of_lt_of_le commits.1 (R.later upTo i).commit⟩

/-- An acknowledged write is committed, and the record that the client is told is what the store
    gets. The entry is in the log of every leader of a later term from the time when it takes the
    lead, and nothing else is ever committed at its position. -/
theorem acknowledged_write_lasts {key : String} {write : Write} {record r : Record}
    {ticket : Nat} {m' : Member} {expired : Bool} (did : R.acts k = .write i key write)
    (put : (R.member k i).put key write = .ok ((record, ticket), m')) (after : k < l)
    (told : (⟨key, record, ticket⟩ : Staged).outcome? (R.node l i) expired = some (.ok r)) :
    ∃ (index : Nat) (e : Entry), index = (R.node k i).log.length ∧
      R.Leads k i e.term ∧ (R.node (k + 1) i).log = (R.node k i).log ++ [e] ∧
      (index < (R.node l i).commit ∧ (R.node l i).log[index]? = some e) ∧
      r = record ∧ (∀ s : Store, (s.apply e.command).get? key = some r) ∧
      (∀ s j U, e.term < U → R.TakesLead s j U →
        ∀ m, s < m → (R.node m j).log[index]? = some e) ∧
      ∀ m j, index < (R.node m j).commit → (R.node m j).log[index]? = some e := by
  obtain ⟨same, _⟩ := Staged.outcome?_ok told
  obtain ⟨version, e, confirms⟩ :=
    Acknowledged.confirms ⟨did, after, (record, ticket), m', expired, put, told⟩
  have committed := confirms.committed
  refine ⟨_, e, rfl, confirms.before, confirms.added,
    ⟨confirms.reached, committed.at_commit confirms.reached⟩, same, fun s => ?_, ?_,
    fun m j reached => committed.at_commit reached⟩
  · rw [confirms.command, Store.apply, Store.get?_put, if_pos rfl, confirms.record]
  · exact fun s j U newer takes m lt => committed.kept takes.2 newer lt

theorem acknowledged_write_lasts_in_the_sample : sample.TakesLead 12 1 2 ∧ ∃ e : Entry,
    (sample.node 5 0).log = (sample.node 4 0).log ++ [e] ∧
      (∀ s : Store, (s.apply e.command).get? "k" = some .tombstone) ∧
      (sample.node 13 1).log[(sample.node 4 0).log.length]? = some e := by
  have takes : sample.TakesLead 12 1 2 := by
    rw [TakesLead]
    decide +kernel
  have put : (sample.member 4 0).put "k" .delete =
      .ok ((.tombstone, 0), sample.member 5 0) := rfl
  have told : (⟨"k", .tombstone, 0⟩ : Staged).outcome? (sample.node 8 0) false =
      some (.ok .tombstone) := rfl
  obtain ⟨_, e, rfl, leads, added, _, _, applied, leaders, _⟩ :=
    acknowledged_write_lasts rfl put (by decide : 4 < 8) told
  have term : (sample.node 4 0).term = 1 := by decide +kernel
  refine ⟨takes, e, added, applied, leaders 12 1 2 ?_ takes 13 (by decide)⟩
  rw [← leads.2, term]
  decide

variable {k' l' : Nat} {i' : Fin n} {key' : String} {write' : Write} {r' : Record} {v v' : Nat}
  {e' : Entry}

/-- Two writes that are acknowledged have two positions. -/
theorem Confirms.position_ne (h : R.Confirms k l i key write r v e)
    (h' : R.Confirms k' l' i' key' write' r' v' e') (earlier : k < k') :
    (R.node k i).log.length ≠ (R.node k' i').log.length := by
  intro same
  have at_ := h.committed.at_commit h.reached
  rw [same] at at_
  have reached := same ▸ h.reached
  obtain rfl := Option.some.inj (at_.symm.trans (h'.committed.at_commit reached))
  obtain rfl := h.before.unique h'.before
  have longer := (h.after.grows h'.before earlier).length_le
  rw [h.added, List.length_append, List.length_singleton] at longer
  omega

theorem Acknowledged.position_ne (h : R.Acknowledged k l i key write r)
    (h' : R.Acknowledged k' l' i' key' write' r') (ne : k ≠ k') :
    (R.node k i).log.length ≠ (R.node k' i').log.length := by
  obtain ⟨_, _, confirms⟩ := h.confirms
  obtain ⟨_, _, confirms'⟩ := h'.confirms
  rcases Nat.lt_or_gt_of_ne ne with earlier | later
  · exact confirms.position_ne confirms' earlier
  · exact (confirms'.position_ne confirms later).symm

theorem Confirms.writesAt (h : R.Confirms k l i key write r v e)
    (reached : (R.node k i).log.length < (R.node p j).commit) :
    (R.node p j).log.WritesAt (R.node k i).log.length key (write.content v) v := by
  refine ⟨e.term, ?_⟩
  rw [h.committed.at_commit reached, ← h.command]

theorem writesAt_of_commit {content : Content}
    (writes : (R.node k i).log.WritesAt index key content v)
    (reached : index < (R.node k i).commit) (reached' : index < (R.node p j).commit) :
    (R.node p j).log.WritesAt index key content v := by
  obtain ⟨term, at_⟩ := writes
  exact ⟨term, getElem?_of_commit at_ reached reached'⟩

end Run

end QuorumStore
