import QuorumStore.Proofs.Lasting
/-! # What becomes of tickets

No step takes a ticket away or changes what it claims. Clients wait at a leader only, and only for
what it staged in its term, because whoever steps down gives up all tickets. So a ticket is redeemed
while the term lasts in which its write was staged.
-/

namespace QuorumStore

namespace Ticket

@[simp] theorem drop_index (t : Ticket) : t.drop.index = t.index := by
  rw [drop]
  split <;> rfl

@[simp] theorem drop_term (t : Ticket) : t.drop.term = t.term := by
  rw [drop]
  split <;> rfl

theorem drop_not_pending (t : Ticket) : t.drop.verdict ≠ .pending := by
  rw [drop]
  split
  · simp
  · assumption

theorem drop_drop (t : Ticket) : t.drop.drop = t.drop := if_neg t.drop_not_pending

theorem committed_of_drop {t : Ticket} (h : t.drop.verdict = .committed) :
    t.verdict = .committed := by
  rw [drop] at h
  split at h
  · simp at h
  · exact h

end Ticket

namespace Node

variable {me : String} {n n' n'' : Node}

/-- Clients wait for nothing but what the node has staged as the leader of its term. -/
def WaitsInTerm (n : Node) : Prop :=
  ∀ t ∈ n.tickets, t.verdict = .pending → n.role = .leader ∧ t.term = n.term

/-- An entry of the node's own term is committed at a position. -/
def CommitsInTerm (n : Node) (index term : Nat) : Prop :=
  index ≤ n.commit ∧ n.log.termAt index = term ∧ n.term = term

/-- What a node may make of a ticket: it claims the same, and is redeemed only when the entry is
    there. -/
structure Honors (n : Node) (t t' : Ticket) : Prop where
  index : t'.index = t.index
  term : t'.term = t.term
  redeemed : t'.verdict = .committed → t.verdict = .committed ∨ n.CommitsInTerm t.index t.term

theorem Honors.refl (n : Node) (t : Ticket) : n.Honors t t := ⟨rfl, rfl, .inl⟩

theorem Honors.drop {t s t' : Ticket} (dropped : s = t ∨ s = t.drop) (h : n.Honors s t') :
    n.Honors t t' := by
  rcases dropped with rfl | rfl
  · exact h
  · have redeemed := h.redeemed
    rw [t.drop_index, t.drop_term] at redeemed
    exact ⟨h.index.trans t.drop_index, h.term.trans t.drop_term,
      fun committed => (redeemed committed).imp_left Ticket.committed_of_drop⟩

/-- The second of two states of a node has all tickets of the first and honors them. -/
def Settles (n n' : Node) : Prop :=
  ∀ (number : Nat) (t : Ticket), n.tickets[number]? = some t →
    ∃ t', n'.tickets[number]? = some t' ∧ n'.Honors t t'

/-- What a step may do to tickets. -/
def Handles (n n' : Node) : Prop := n.WaitsInTerm → n'.WaitsInTerm ∧ Settles n n'

theorem Settles.of_map (f : Ticket → Ticket) (after : n'.tickets = n.tickets.map f)
    (honors : ∀ t ∈ n.tickets, n'.Honors t (f t)) : Settles n n' := by
  intro number t at_
  exact ⟨f t, by rw [after, List.getElem?_map, at_, Option.map_some],
    honors t (List.mem_of_getElem? at_)⟩

/-- A step that at most gives tickets up. -/
def Drops (n n' : Node) : Prop :=
  ∃ f : Ticket → Ticket, (∀ t, f t = t ∨ f t = t.drop) ∧ n'.tickets = n.tickets.map f

theorem Drops.trans (h : Drops n n') (h' : Drops n' n'') : Drops n n'' := by
  obtain ⟨f, drops, after⟩ := h
  obtain ⟨g, drops', after'⟩ := h'
  refine ⟨g ∘ f, fun t => ?_, by rw [after', after, List.map_map]⟩
  cases drops' (f t) with
  | inl second => exact (drops t).imp second.trans second.trans
  | inr second =>
      refine .inr (second.trans ?_)
      cases drops t with
      | inl first => rw [first]
      | inr first => rw [first, Ticket.drop_drop]

theorem Drops.settles (h : Drops n n') : Settles n n' := by
  obtain ⟨f, drops, after⟩ := h
  exact .of_map f after fun t _ => (Honors.refl n' (f t)).drop (drops t)

theorem Drops.of_eq (same : n'.tickets = n.tickets) : Drops n n' :=
  ⟨id, fun _ => .inl rfl, by rw [same, List.map_id]⟩

theorem WaitsInTerm.none_pending (h : n.WaitsInTerm) (role : n.role ≠ .leader) :
    ∀ t ∈ n.tickets, t.verdict ≠ .pending :=
  fun t ht pending => role (h t ht pending).1

namespace Handles

theorem of_eq (tickets : n'.tickets = n.tickets) (role : n.role = .leader → n'.role = .leader)
    (term : n.role = .leader → n'.term = n.term) : Handles n n' := by
  refine fun waits => ⟨fun t ht pending => ?_, fun number t at_ => ?_⟩
  · obtain ⟨leads, own⟩ := waits t (tickets ▸ ht) pending
    exact ⟨role leads, own.trans (term leads).symm⟩
  · exact ⟨t, tickets ▸ at_, .refl n' t⟩

theorem refl (n : Node) : Handles n n := .of_eq rfl id fun _ => rfl

/-- Whoever leads no more gives up all tickets. -/
theorem of_drop_all (tickets : n'.tickets = n.tickets.map Ticket.drop) : Handles n n' := by
  refine fun _ => ⟨fun t ht pending => ?_, Drops.settles ⟨_, fun _ => .inr rfl, tickets⟩⟩
  rw [tickets] at ht
  obtain ⟨old, _, rfl⟩ := List.mem_map.mp ht
  exact absurd pending old.drop_not_pending

end Handles

/-! ## Every step -/

theorem handles_stepDown (m : Moment) (term : Nat) (n : Node) : Handles n (n.stepDown m term) :=
  .of_drop_all (stepDown_tickets ..)

theorem handles_heed (m : Moment) (term : Nat) (n : Node) : Handles n (n.heed m term) := by
  rw [heed]
  split
  · exact handles_stepDown m term n
  · exact .refl n

theorem handles_decideVote (m : Moment) (r : VoteRequest) (n : Node) :
    Handles n (n.decideVote m r).2 := by
  rcases decideVote_cases m r n with ⟨_, h⟩ | ⟨_, h⟩ | ⟨_, _, _, h⟩
  · rw [h]; exact .refl n
  · rw [h]; exact handles_heed m r.term n
  · rw [h, heed]
    split
    · exact .of_drop_all (stepDown_tickets m r.term n)
    · exact .of_eq rfl id fun _ => rfl

theorem handles_follow (m : Moment) (r : HeartbeatRequest) (n : Node) :
    Handles n (n.follow m r) := by
  rw [follow]
  split
  · refine .of_drop_all ?_
    exact stepDown_tickets m r.term n
  · exact .of_eq rfl id fun _ => rfl

theorem drops_follow (m : Moment) (r : HeartbeatRequest) (n : Node) : Drops n (n.follow m r) := by
  rw [follow]
  split
  · exact ⟨Ticket.drop, fun _ => .inr rfl, stepDown_tickets m r.term n⟩
  · exact .of_eq rfl

/-- Where nobody waits, nobody hears of what is committed. -/
theorem commitThrough_of_none_pending (target : Nat)
    (none : ∀ t ∈ n.tickets, t.verdict ≠ .pending) :
    (n.commitThrough target).tickets = n.tickets := by
  rw [commitThrough]
  split
  · rfl
  · refine List.map_congr_left (fun t ht => ?_) |>.trans (List.map_id _)
    exact if_neg fun waits => none t ht waits.1

/-- Whoever follows has given up all tickets that it did not redeem before, and redeems none. -/
theorem Sound.drops_handleHeartbeat (h : Sound me n) (waits : n.WaitsInTerm) (m : Moment)
    (r : HeartbeatRequest) : (n.handleHeartbeat m r).2 = n ∨
      (n.handleHeartbeat m r).2.role = .follower ∧ Drops n (n.handleHeartbeat m r).2 ∧
        ∀ t ∈ (n.handleHeartbeat m r).2.tickets, t.verdict ≠ .pending := by
  have none := ((handles_follow m r n waits).1).none_pending (by simp)
  rcases handleHeartbeat_cases m r n with ⟨_, e⟩ | ⟨_, _, e⟩ | ⟨_, inside, _, taken, took, e⟩
  · exact .inl (by rw [e])
  · rw [e]
    exact .inr ⟨follow_role m r n, drops_follow m r n, none⟩
  · obtain ⟨_, _, f, drops, frame⟩ :=
      takeOver_through (h.follow m r).bound (by simpa [lastIndex] using inside) took
    have role : taken.role = .follower := by rw [frame]; exact follow_role m r n
    have takes : Drops (n.follow m r) taken := ⟨f, drops, by rw [frame]⟩
    have resolved : ∀ t ∈ taken.tickets, t.verdict ≠ .pending := by
      rw [frame]
      intro t ht
      obtain ⟨old, mem, rfl⟩ := List.mem_map.mp ht
      cases drops old with
      | inl same =>
          rw [same]
          exact none old mem
      | inr dropped =>
          rw [dropped]
          exact old.drop_not_pending
    have tickets := commitThrough_of_none_pending (min r.commit r.lastIndex) resolved
    rw [e]
    refine .inr ⟨?_, (drops_follow m r n).trans (takes.trans (.of_eq tickets)), ?_⟩
    · rw [commitThrough_role, role]
    · rw [tickets]
      exact resolved

theorem Sound.handles_handleHeartbeat (h : Sound me n) (m : Moment) (r : HeartbeatRequest) :
    Handles n (n.handleHeartbeat m r).2 := by
  intro waits
  rcases h.drops_handleHeartbeat waits m r with same | ⟨_, drops, resolved⟩
  · rw [same]
    exact Handles.refl n waits
  · exact ⟨fun t ht pending => absurd pending (resolved t ht), drops.settles⟩

theorem handles_commitThrough (target : Nat) (n : Node) : Handles n (n.commitThrough target) := by
  rw [commitThrough]
  split
  · exact .refl n
  · intro waits
    constructor
    · intro t ht pending
      obtain ⟨old, mem, rfl⟩ := List.mem_map.mp ht
      rw [settle] at pending ⊢
      split at pending
      · simp only at pending
        split at pending <;> simp at pending
      · rename_i open_
        rw [if_neg open_]
        exact waits old mem pending
    · refine .of_map (settle n.log (min target n.lastIndex)) rfl fun t ht => ?_
      rw [settle]
      split
      · rename_i reached
        refine ⟨rfl, rfl, fun committed => .inr ⟨reached.2, ?_, (waits t ht reached.1).2.symm⟩⟩
        simp only at committed
        split at committed
        · assumption
        · simp at committed
      · exact .refl _ t

theorem handles_advanceCommit (n : Node) : Handles n n.advanceCommit := by
  rcases advanceCommit_cases n with h | ⟨_, reached, _, _, _, h⟩
  · rw [h]; exact .refl n
  · rw [h]; exact handles_commitThrough reached n

theorem handles_beginCandidacy (m : Moment) (name : String) (role : n.role ≠ .leader) :
    Handles n (n.beginCandidacy m name).2 :=
  .of_eq rfl (absurd · role) (absurd · role)

theorem handles_becomeLeader (name : String) (peers : Nat) (role : n.role ≠ .leader) :
    Handles n (n.becomeLeader name peers) := by
  intro waits
  have none := waits.none_pending role
  rw [becomeLeader]
  have starts : WaitsInTerm { n with
      role := .leader
      leader := some name
      log := n.log ++ [(⟨n.term, .barrier⟩ : Entry)]
      progress := List.replicate peers ⟨(n.log ++ [(⟨n.term, .barrier⟩ : Entry)]).length, 0⟩ } :=
    fun t ht pending => absurd pending (none t ht)
  obtain ⟨waits', settles⟩ := handles_advanceCommit _ starts
  exact ⟨waits', settles⟩

theorem handles_count (name : String) (peers : Nat) (e : Election) (n : Node) :
    Handles n (e.count name peers n).2 := by
  rcases count_cases name peers e n with ⟨_, _, c⟩ | ⟨role, _, _, c⟩
  · rw [c]; exact .refl n
  · rw [c]; exact handles_becomeLeader name peers (by simp [role])

theorem handles_fold (m : Moment) (name : String) (peers : Nat) (reply : VoteReply)
    (e : Election) (n : Node) : Handles n (e.fold m name peers reply n).2.2 := by
  rcases fold_cases m name peers reply e n with ⟨_, f⟩ | ⟨_, _, f⟩ | ⟨role, _, _, f⟩
  · rw [f]; exact handles_stepDown m reply.term n
  · rw [f]; exact .refl n
  · rw [f]; exact handles_becomeLeader name peers (by simp [role])

theorem handles_recordReply (m : Moment) (term peer : Nat) (sent : HeartbeatRequest)
    (reply : HeartbeatReply) (n : Node) :
    Handles n (n.recordReply m term peer sent reply).2 := by
  rcases recordReply_cases m term peer sent reply n with ⟨_, r⟩ | ⟨_, r⟩ | ⟨_, _, told, rfl, r | r⟩
  · rw [r]; exact handles_stepDown m reply.term n
  · rw [r]; exact .refl n
  · rw [r]; exact .of_eq rfl id fun _ => rfl
  · have all := handles_advanceCommit (n.updateProgress peer (learn sent reply))
    rw [r]
    exact all

/-- Claiming a ticket at most gives older ones up. -/
theorem claimTicket_tickets (n : Node) : ∃ f : Ticket → Ticket, (∀ t, f t = t ∨ f t = t.drop) ∧
    n.claimTicket.tickets = n.tickets.map f ++ [⟨n.lastIndex, n.term, .pending⟩] := by
  refine ⟨_, fun t => ?_, rfl⟩
  split
  · exact .inr rfl
  · exact .inl rfl

theorem WaitsInTerm.claimTicket (h : n.WaitsInTerm) (role : n.role = .leader) :
    n.claimTicket.WaitsInTerm := by
  obtain ⟨f, drops, after⟩ := claimTicket_tickets n
  intro t ht pending
  rw [after] at ht
  cases List.mem_append.mp ht with
  | inl older =>
      obtain ⟨old, mem, rfl⟩ := List.mem_map.mp older
      cases drops old with
      | inl same =>
          rw [same] at pending ⊢
          exact h old mem pending
      | inr dropped =>
          rw [dropped] at pending
          exact absurd pending old.drop_not_pending
  | inr new =>
      rw [List.mem_singleton.mp new]
      exact ⟨role, rfl⟩

/-- A write that is staged has a ticket for the new entry, with no verdict that was not reached. -/
theorem stageWrite_ticket {key : String} {write : Write} {record : Record} {ticket : Nat}
    (ok : n.stageWrite key write = .ok ((record, ticket), n')) : Handles n n' ∧
    (n.WaitsInTerm → ∃ t, n'.tickets[ticket]? = some t ∧ t.index = n.lastIndex + 1 ∧
      t.term = n.term ∧ (t.verdict = .committed → n'.CommitsInTerm t.index t.term)) := by
  obtain ⟨role, rfl, version, content, _, _, rfl⟩ := stageWrite_ok ok
  let longer := n.append ⟨n.term, .write key content version⟩
  obtain ⟨f, drops, after⟩ := claimTicket_tickets longer
  have waits' : n.WaitsInTerm → longer.claimTicket.WaitsInTerm := fun waits =>
    WaitsInTerm.claimTicket (fun t ht pending => waits t ht pending) role
  have older : ∀ (number : Nat) (t : Ticket), n.tickets[number]? = some t →
      longer.claimTicket.tickets[number]? = some (f t) := by
    intro number t at_
    have mapped : (longer.tickets.map f)[number]? = some (f t) := by
      rw [List.getElem?_map]
      exact congrArg (Option.map f) at_
    obtain ⟨inside, _⟩ := List.getElem?_eq_some_iff.mp mapped
    rw [after, List.getElem?_append_left inside, mapped]
  have newest : longer.claimTicket.tickets[n.tickets.length]? =
      some ⟨n.lastIndex + 1, n.term, .pending⟩ := by
    have length : (longer.tickets.map f).length = n.tickets.length := List.length_map _
    rw [after, ← length, List.getElem?_concat_length]
    simp [longer, append, lastIndex]
  constructor
  · intro waits
    obtain ⟨waits'', settles⟩ := handles_advanceCommit _ (waits' waits)
    refine ⟨waits'', fun number t at_ => ?_⟩
    obtain ⟨t', at', honors⟩ := settles number (f t) (older number t at_)
    exact ⟨t', at', honors.drop (drops t)⟩
  · intro waits
    obtain ⟨t, at_, honors⟩ := (handles_advanceCommit _ (waits' waits)).2 _ _ newest
    refine ⟨t, at_, honors.index, honors.term, fun committed => ?_⟩
    rw [honors.index, honors.term]
    exact (honors.redeemed committed).resolve_left (by simp)

end Node

end QuorumStore
