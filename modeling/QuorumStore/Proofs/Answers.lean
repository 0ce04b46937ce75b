import QuorumStore.Proofs.Lineage
import QuorumStore.Proofs.Strangers
/-! # What waiting clients are told

A client that has staged a write holds a ticket, and nothing but the state of the node after a step
decides what the step makes of it: a ticket that waits is redeemed once its position is committed,
goes on waiting as long as the node leads the term of the ticket, and is dropped as soon as it does
not. So a client is told that its write is committed exactly if it is, and told nothing else before
the node has ceased to lead.
-/

namespace QuorumStore

/-- The effect of a write on the store comes after all that stands before it in the log. -/
theorem Log.replay_of_write {log : Log} {p term version : Nat} {key : String} {content : Content}
    (at_ : log[p]? = some ⟨term, .write key content version⟩) : log.replay =
      ((Log.replay (log.take p)).put key (content.record version)).applyAll
        (log.drop (p + 1)) := by
  obtain ⟨inside, there⟩ := List.getElem?_eq_some_iff.mp at_
  have parts : log = log.take p ++ ⟨term, .write key content version⟩ :: log.drop (p + 1) := by
    rw [← there, List.getElem_cons_drop, List.take_append_drop]
  conv_lhs => rw [parts, Log.replay, Store.applyAll_append]
  rfl

namespace Node

variable {me : String} {peers : Nat} {n n' : Node}

/-- What a step makes of a ticket that ends in this state. -/
def judge (n : Node) (t : Ticket) : Ticket :=
  if t.verdict = .pending then
    if n.role = .leader ∧ n.term = t.term then
      if t.index ≤ n.commit then { t with verdict := .committed } else t
    else { t with verdict := .dropped }
  else t

theorem judge_resolved {t : Ticket} (resolved : t.verdict ≠ .pending) (n : Node) :
    n.judge t = t := if_neg resolved

theorem judge_lost {t : Ticket} (pending : t.verdict = .pending)
    (lost : ¬ (n.role = .leader ∧ n.term = t.term)) :
    n.judge t = { t with verdict := .dropped } := by
  rw [judge, if_pos pending, if_neg lost]

theorem judge_led {t : Ticket} (pending : t.verdict = .pending)
    (leads : n.role = .leader ∧ n.term = t.term) :
    n.judge t = if t.index ≤ n.commit then { t with verdict := .committed } else t := by
  rw [judge, if_pos pending, if_pos leads]

@[simp] theorem judge_index (n : Node) (t : Ticket) : (n.judge t).index = t.index := by
  simp only [judge]
  repeat' split
  all_goals rfl

@[simp] theorem judge_term (n : Node) (t : Ticket) : (n.judge t).term = t.term := by
  simp only [judge]
  repeat' split
  all_goals rfl

/-- A step judges all tickets by the state that it ends in. -/
def Judges (n n' : Node) : Prop :=
  ∀ (number : Nat) (t : Ticket), n.tickets[number]? = some t →
    n'.tickets[number]? = some (n'.judge t)

/-- Whoever waits, waits at the leader of its term for an entry of it that is not committed yet. -/
structure Attends (n : Node) : Prop where
  waits : n.Waits
  inTerm : n.WaitsInTerm

theorem Attends.leads (h : n.Attends) {t : Ticket} (mem : t ∈ n.tickets)
    (pending : t.verdict = .pending) : n.role = .leader ∧ n.term = t.term := by
  obtain ⟨role, term⟩ := h.inTerm t mem pending
  exact ⟨role, term.symm⟩

theorem attends_of_resolved (resolved : ∀ t ∈ n.tickets, t.verdict ≠ .pending) : n.Attends :=
  ⟨waits_of_resolved resolved, fun t mem pending => absurd pending (resolved t mem)⟩

/-- Clients wait at a leader only, so nobody else has to be looked at. -/
theorem attends_of_leads (inTerm : n.WaitsInTerm) (waits : n.role = .leader → n.Waits) :
    n.Attends := ⟨fun t mem pending => waits (inTerm t mem pending).1 t mem pending, inTerm⟩

theorem Judges.of_map (f : Ticket → Ticket) (after : n'.tickets = n.tickets.map f)
    (judged : ∀ t ∈ n.tickets, f t = n'.judge t) : Judges n n' := by
  intro number t at_
  rw [after, List.getElem?_map, at_, Option.map_some, judged t (List.mem_of_getElem? at_)]

/-- As long as the leader's term lasts and no more is committed, every ticket waits on. -/
theorem Attends.judges_of_same (h : n.Attends) (tickets : n'.tickets = n.tickets)
    (same : n.role = .leader → n'.role = .leader ∧ n'.term = n.term ∧ n'.commit = n.commit) :
    Judges n n' := by
  apply Judges.of_map id (by rw [tickets, List.map_id])
  intro t mem
  by_cases pending : t.verdict = .pending
  · obtain ⟨role, term⟩ := h.leads mem pending
    obtain ⟨role', term', commit⟩ := same role
    have uncommitted := (h.waits t mem pending).1
    rw [judge_led pending ⟨role', term'.trans term⟩, if_neg (by omega)]
    rfl
  · exact (judge_resolved pending n').symm

theorem Attends.judges (h : n.Attends) : Judges n n :=
  h.judges_of_same rfl fun role => ⟨role, rfl, rfl⟩

/-- Whoever does not lead has given up all tickets. -/
theorem Drops.judges (h : Drops n n') (role : n'.role ≠ .leader)
    (resolved : ∀ t ∈ n'.tickets, t.verdict ≠ .pending) : Judges n n' := by
  obtain ⟨f, drops, after⟩ := h
  apply Judges.of_map f after
  intro t mem
  by_cases pending : t.verdict = .pending
  · have kept : f t ∈ n'.tickets := after ▸ List.mem_map_of_mem mem
    cases drops t with
    | inl same => exact absurd (same.symm ▸ pending) (resolved _ kept)
    | inr gone =>
        rw [gone, Ticket.drop, if_pos pending, judge_lost pending fun leads => role leads.1]
  · rw [judge_resolved pending]
    cases drops t with
    | inl same => exact same
    | inr gone => rw [gone, Ticket.drop, if_neg pending]

/-- What is committed stays, and while the node leads, its log only grows. -/
structure Holds (n n' : Node) : Prop extends Keeps n n' where
  grows : n.role = .leader → n'.role = .leader → n.log <+: n'.log

theorem Onward.holds (h : Onward n n') : Holds n n' :=
  ⟨h.later.toKeeps, fun role leads => (h.kept.leading role leads).log⟩

/-! ## Every step -/

theorem judges_stepDown (m : Moment) (term : Nat) (n : Node) : Judges n (n.stepDown m term) := by
  have gone : Drops n (n.stepDown m term) :=
    ⟨Ticket.drop, fun _ => .inr rfl, stepDown_tickets m term n⟩
  exact gone.judges (by simp) (withdrawn_stepDown m term n).resolved

theorem Attends.judges_heed (h : n.Attends) (m : Moment) (term : Nat) :
    Judges n (n.heed m term) := by
  rw [heed]
  split
  · exact judges_stepDown m term n
  · exact h.judges

theorem Attends.judges_decideVote (h : n.Attends) (m : Moment) (r : VoteRequest) :
    Judges n (n.decideVote m r).2 := by
  have heeded := h.judges_heed m r.term
  rcases decideVote_cases m r n with ⟨_, e⟩ | ⟨_, e⟩ | ⟨_, _, _, e⟩
  · rw [e]; exact h.judges
  · rwa [e]
  · rw [e]; exact heeded

theorem Attends.judges_handleHeartbeat (h : n.Attends) (sound : n.Sound me) (m : Moment)
    (r : HeartbeatRequest) : Judges n (n.handleHeartbeat m r).2 := by
  rcases sound.drops_handleHeartbeat h.inTerm m r with same | ⟨role, drops, resolved⟩
  · rw [same]
    exact h.judges
  · exact drops.judges (by simp [role]) resolved

theorem Attends.judges_beginCandidacy (h : n.Attends) (role : n.role ≠ .leader) (m : Moment)
    (name : String) : Judges n (n.beginCandidacy m name).2 :=
  h.judges_of_same rfl (absurd · role)

theorem Attends.judges_commitThrough (h : n.Attends) (target : Nat) :
    Judges n (n.commitThrough target) := by
  rw [commitThrough]
  split
  · exact h.judges
  · apply Judges.of_map (settle n.log (min target n.lastIndex)) rfl
    intro t mem
    rw [settle]
    by_cases pending : t.verdict = .pending
    · have own := (h.waits t mem pending).2.2
      have leads := h.leads mem pending
      simp only [pending, true_and, own, if_true, judge, leads]
    · rw [judge_resolved pending, if_neg fun waits => pending waits.1]

theorem Attends.judges_advanceCommit (h : n.Attends) : Judges n n.advanceCommit := by
  rcases advanceCommit_cases n with same | ⟨_, reached, _, _, _, same⟩
  · rw [same]
    exact h.judges
  · rw [same]
    exact h.judges_commitThrough reached

theorem Attends.judges_becomeLeader (h : n.Attends) (role : n.role = .candidate) (name : String)
    (peers : Nat) : Judges n (n.becomeLeader name peers) := by
  have resolved := h.inTerm.none_pending (by simp [role])
  exact judges_advanceCommit (n := { n with
    role := .leader
    leader := some name
    log := n.log ++ [(⟨n.term, .barrier⟩ : Entry)]
    progress := List.replicate peers ⟨(n.log ++ [(⟨n.term, .barrier⟩ : Entry)]).length, 0⟩ })
    (attends_of_resolved resolved)

theorem Attends.judges_fold (h : n.Attends) (m : Moment) (name : String) (peers : Nat)
    (reply : VoteReply) (e : Election) : Judges n (e.fold m name peers reply n).2.2 := by
  rcases fold_cases m name peers reply e n with ⟨_, f⟩ | ⟨_, _, f⟩ | ⟨role, _, _, f⟩
  · rw [f]; exact judges_stepDown m reply.term n
  · rw [f]; exact h.judges
  · rw [f]; exact h.judges_becomeLeader role name peers

theorem Attends.waits_fold (h : n.Attends) (m : Moment) (name : String) (peers : Nat)
    (reply : VoteReply) (e : Election) : (e.fold m name peers reply n).2.2.Waits := by
  rcases fold_cases m name peers reply e n with ⟨_, f⟩ | ⟨_, _, f⟩ | ⟨role, _, _, f⟩
  · rw [f]; exact waits_of_resolved (withdrawn_stepDown m reply.term n).resolved
  · rw [f]; exact h.waits
  · rw [f]; exact waits_becomeLeader (h.inTerm.none_pending (by simp [role])) name peers

theorem Attends.judges_recordReply (h : n.Attends) (m : Moment) (term peer : Nat)
    (sent : HeartbeatRequest) (reply : HeartbeatReply) :
    Judges n (n.recordReply m term peer sent reply).2 := by
  have told : Attends (n.updateProgress peer (learn sent reply)) := ⟨h.waits, h.inTerm⟩
  rcases recordReply_cases m term peer sent reply n with
    ⟨_, r⟩ | ⟨_, r⟩ | ⟨_, _, _, rfl, r | r⟩
  · rw [r]; exact judges_stepDown m reply.term n
  · rw [r]; exact h.judges
  · rw [r]; exact h.judges
  · rw [r]; exact told.judges_advanceCommit

/-- Nobody waits for a position behind the log, so nobody is disturbed by a ticket for it. -/
theorem Attends.tickets_claimTicket (h : n.Attends) (e : Entry) :
    (n.append e).claimTicket.tickets = n.tickets ++ [⟨n.lastIndex + 1, n.term, .pending⟩] := by
  have longer : (n.append e).lastIndex = n.lastIndex + 1 := by simp [lastIndex, append]
  have undisturbed : ∀ t ∈ n.tickets, (if t.index = n.lastIndex + 1 then t.drop else t) = t := by
    intro t mem
    split
    · rename_i beyond
      refine if_neg fun pending => ?_
      have inside := (h.waits t mem pending).2.1
      omega
    · rfl
  rw [claimTicket, longer]
  exact congrArg (· ++ _) (List.map_congr_left undisturbed |>.trans (List.map_id _))

/-- The ticket of a write that is staged is judged along with all others. -/
theorem Attends.judges_stageWrite (h : n.Attends) (bound : n.commit ≤ n.lastIndex) {key : String}
    {write : Write} {record : Record} {ticket : Nat}
    (ok : n.stageWrite key write = .ok ((record, ticket), n')) : Judges n n' ∧
      n'.tickets[ticket]? = some (n'.judge ⟨n.lastIndex + 1, n.term, .pending⟩) := by
  obtain ⟨role, rfl, version, content, _, _, rfl⟩ := stageWrite_ok ok
  let e : Entry := ⟨n.term, .write key content version⟩
  have claimed : (n.append e).claimTicket.Attends :=
    ⟨h.waits.stage bound rfl, WaitsInTerm.claimTicket (n := n.append e) h.inTerm role⟩
  have tickets := h.tickets_claimTicket e
  have judges := claimed.judges_advanceCommit
  constructor
  · intro number t at_
    obtain ⟨inside, _⟩ := List.getElem?_eq_some_iff.mp at_
    apply judges number t
    rw [tickets, List.getElem?_append_left inside, at_]
  · apply judges
    rw [tickets, List.getElem?_concat_length]

end Node

namespace Exposed

open Node

variable {me : String} {peers : Nat} {s s' : Exposed}

/-- What can happen to a node whose elections are held as well: besides the steps that it takes
    among strangers, a vote reply may come in at any time, for whatever election. A candidacy in the
    greatest term is not left out here, though it starts over in the term zero. -/
inductive Move (me : String) (peers : Nat) : Exposed → Exposed → Prop where
  | step {s s' : Exposed} (step : Step me peers s s') : Move me peers s s'
  | tallies (s : Exposed) (m : Moment) (e : Election) (reply : VoteReply) :
      Move me peers s { s with node := (e.fold m me peers reply s.node).2.2 }
  | startsOver (s : Exposed) (m : Moment) (role : s.node.role ≠ .leader)
      (last : ¬ s.node.HasNextTerm) :
      Move me peers s { s with node := (s.node.beginCandidacy m me).2 }

namespace Move

/-- No move takes back what is committed, and a leader's log only grows. -/
theorem holds (sound : s.node.Sound me) (move : Move me peers s s') : Holds s.node s'.node := by
  cases move with
  | step step => exact (step.onward sound).holds
  | tallies m e reply => exact (sound.onward_fold m peers reply e).holds
  | startsOver m role _ =>
      exact ⟨.of_log rfl (Nat.le_refl _), fun leads => absurd leads role⟩

theorem sound (before : s.node.Sound me) (move : Move me peers s s') : s'.node.Sound me := by
  cases move with
  | step step => exact step.sound before
  | tallies m e reply => exact before.fold m peers reply e
  | startsOver m _ _ => exact before.beginCandidacy m

theorem handles (sound : s.node.Sound me) (move : Move me peers s s') :
    Handles s.node s'.node := by
  cases move with
  | tallies m e reply => exact handles_fold m me peers reply e s.node
  | startsOver m role _ => exact handles_beginCandidacy m me role
  | step step =>
      cases step with
      | campaigns m role _ => exact handles_beginCandidacy m me role
      | wins role => exact handles_becomeLeader me peers (by simp [role])
      | stages key write staged n ok => exact (stageWrite_ticket ok).1
      | votes m r => exact handles_decideVote m r s.node
      | hears m r => exact sound.handles_handleHeartbeat m r
      | builds peer r some => exact .refl s.node
      | records m peer sent reply mem =>
          exact handles_recordReply m sent.term peer sent reply s.node

theorem attends (sound : s.node.Sound me) (attends : s.node.Attends)
    (move : Move me peers s s') : s'.node.Attends := by
  refine attends_of_leads (move.handles sound attends.inTerm).1 fun leads => ?_
  cases move with
  | tallies m e reply => exact attends.waits_fold m me peers reply e
  | startsOver m role _ => simp [beginCandidacy] at leads
  | step step =>
      cases step with
      | campaigns m role _ => simp [beginCandidacy] at leads
      | wins role =>
          exact waits_becomeLeader (attends.inTerm.none_pending (by simp [role])) me peers
      | stages key write staged n ok => exact attends.waits.stageWrite sound.bound ok
      | votes m r => exact attends.waits.decideVote m r
      | hears m r =>
          rcases sound.drops_handleHeartbeat attends.inTerm m r with same | ⟨_, _, resolved⟩
          · rw [same]
            exact attends.waits
          · exact waits_of_resolved resolved
      | builds peer r some => exact attends.waits
      | records m peer sent reply mem =>
          exact attends.waits.recordReply m sent.term peer sent reply

theorem judges (sound : s.node.Sound me) (attends : s.node.Attends)
    (move : Move me peers s s') : Judges s.node s'.node := by
  cases move with
  | tallies m e reply => exact attends.judges_fold m me peers reply e
  | startsOver m role _ => exact attends.judges_beginCandidacy role m me
  | step step =>
      cases step with
      | campaigns m role _ => exact attends.judges_beginCandidacy role m me
      | wins role => exact attends.judges_becomeLeader role me peers
      | stages key write staged n ok => exact (attends.judges_stageWrite sound.bound ok).1
      | votes m r => exact attends.judges_decideVote m r
      | hears m r => exact attends.judges_handleHeartbeat sound m r
      | builds peer r some => exact attends.judges
      | records m peer sent reply mem =>
          exact attends.judges_recordReply m sent.term peer sent reply

/-- A reply to an election that is over changes nothing. -/
theorem rest (s : Exposed) : Move me peers s s := by
  let m : Moment := ⟨0, 0⟩
  let past : Election := ⟨s.node.term + 1, 0, 0⟩
  have same : (past.fold m me peers ⟨false, s.node.term⟩ s.node).2.2 = s.node := by
    simp [Election.fold, Election.count, past]
  have late : Move me peers s
      { s with node := (past.fold m me peers ⟨false, s.node.term⟩ s.node).2.2 } :=
    .tallies s m past ⟨false, s.node.term⟩
  rwa [same] at late

end Move

/-- Everything that becomes of a node from its start on, one move after the other. -/
structure Course (me : String) (peers : Nat) where
  state : Nat → Exposed
  starts : ∃ m, state 0 = ⟨.start m, []⟩
  moves : ∀ k, Move me peers (state k) (state (k + 1))

namespace Course

def node (C : Course me peers) (k : Nat) : Node := (C.state k).node

/-- No course is cut off: whatever can happen next, there is a course on which it does. -/
theorem exists_turn (C : Course me peers) (k : Nat) (move : Move me peers (C.state k) s') :
    ∃ C' : Course me peers, (∀ j ≤ k, C'.state j = C.state j) ∧ C'.state (k + 1) = s' := by
  let state (j : Nat) : Exposed := if j ≤ k then C.state j else s'
  have before {j : Nat} (le : j ≤ k) : state j = C.state j := if_pos le
  have since {j : Nat} (after : k < j) : state j = s' := if_neg (Nat.not_le_of_lt after)
  have moves : ∀ j, Move me peers (state j) (state (j + 1)) := by
    intro j
    rcases Nat.lt_trichotomy j k with earlier | rfl | later
    · rw [before (Nat.le_of_lt earlier), before earlier]
      exact C.moves j
    · rw [before (Nat.le_refl j), since (Nat.lt_succ_self j)]
      exact move
    · rw [since later, since (Nat.lt_succ_of_lt later)]
      exact Move.rest s'
  have starts : ∃ m, state 0 = ⟨.start m, []⟩ := by
    rw [before (Nat.zero_le k)]
    exact C.starts
  exact ⟨⟨state, starts, moves⟩, fun j le => before le, since (Nat.lt_succ_self k)⟩

variable {C : Course me peers} {k l l' s T i : Nat}

theorem sound (C : Course me peers) (k : Nat) : (C.node k).Sound me := by
  induction k with
  | zero =>
      obtain ⟨m, start⟩ := C.starts
      rw [node, start]
      exact sound_start me m
  | succ k before => exact (C.moves k).sound before

theorem attends (C : Course me peers) (k : Nat) : (C.node k).Attends := by
  induction k with
  | zero =>
      obtain ⟨m, start⟩ := C.starts
      rw [node, start]
      exact attends_of_resolved fun t mem => absurd mem List.not_mem_nil
  | succ k before => exact (C.moves k).attends (C.sound k) before

theorem keeps (C : Course me peers) (le : k ≤ l) : Keeps (C.node k) (C.node l) := by
  induction l, le using Nat.le_induction with
  | base => exact .refl _
  | succ l _ before => exact before.trans ((C.moves l).holds (C.sound l)).toKeeps

variable (C) in
/-- The node leads a term from one moment to another one. -/
def Reigns (s l T : Nat) : Prop :=
  ∀ j, s ≤ j → j ≤ l → (C.node j).role = .leader ∧ (C.node j).term = T

variable (C) in
/-- The commit index passes a position while the node leads the term. -/
def Passes (s l T i : Nat) : Prop := ∃ j, s ≤ j ∧ j ≤ l ∧ C.Reigns s j T ∧ i ≤ (C.node j).commit

variable (C) in
/-- The node ceases to lead the term before its commit index passes the position. -/
def Ceases (s l T i : Nat) : Prop := ∃ j, s ≤ j ∧ j < l ∧ C.Reigns s j T ∧
  (C.node j).commit < i ∧ ¬ ((C.node (j + 1)).role = .leader ∧ (C.node (j + 1)).term = T)

theorem Passes.mono (h : C.Passes s l T i) (le : l ≤ l') : C.Passes s l' T i := by
  obtain ⟨j, since, until_, rest⟩ := h
  exact ⟨j, since, Nat.le_trans until_ le, rest⟩

theorem Ceases.mono (h : C.Ceases s l T i) (le : l ≤ l') : C.Ceases s l' T i := by
  obtain ⟨j, since, until_, rest⟩ := h
  exact ⟨j, since, Nat.lt_of_lt_of_le until_ le, rest⟩

theorem Passes.commit (h : C.Passes s l T i) : i ≤ (C.node l).commit := by
  obtain ⟨j, _, le, _, passed⟩ := h
  exact Nat.le_trans passed (C.keeps le).commit

theorem Ceases.not_reigns (h : C.Ceases s l T i) : ¬ C.Reigns s l T := by
  obtain ⟨j, since, before, _, _, ended⟩ := h
  exact fun reigns => ended (reigns (j + 1) (Nat.le_succ_of_le since) before)

theorem Passes.not_ceases (h : C.Passes s l T i) : ¬ C.Ceases s l T i := by
  obtain ⟨j, _, _, reigns, passed⟩ := h
  rintro ⟨j', since, _, _, short, ended⟩
  rcases Nat.lt_or_ge j' j with before | after
  · exact ended (reigns (j' + 1) (Nat.le_succ_of_le since) before)
  · have rises := (C.keeps after).commit
    omega

/-- While the node leads, its log only grows. -/
theorem Reigns.part (h : C.Reigns s l T) (le : s ≤ l) : (C.node s).log <+: (C.node l).log := by
  induction l, le using Nat.le_induction with
  | base => exact List.prefix_rfl
  | succ l since before =>
      have earlier : C.Reigns s l T := fun j from_ upTo => h j from_ (Nat.le_succ_of_le upTo)
      have leads := (h (l + 1) (Nat.le_succ_of_le since) (Nat.le_refl _)).1
      have grows := ((C.moves l).holds (C.sound l)).grows (earlier l since (Nat.le_refl l)).1 leads
      exact (before earlier).trans grows

/-- What the log holds when the leader's commit index passes it is there for good. -/
theorem Passes.entry {e : Entry} {p : Nat} (h : C.Passes s l T (p + 1))
    (at_ : (C.node s).log[p]? = some e) : (C.node l).log[p]? = some e := by
  obtain ⟨j, since, le, reigns, passed⟩ := h
  have there := Log.getElem?_of_part (reigns.part since) at_
  have committed := congrArg (·[p]?) (C.keeps le).committed
  simp only [List.getElem?_take_of_lt (Nat.lt_of_succ_le passed)] at committed
  rw [committed, there]

variable (C) in
/-- What is known of a write, staged at a position in a term, when its ticket has a verdict. -/
inductive Told (s l T i : Nat) : Verdict → Prop where
  | waits (reigns : C.Reigns s l T) (uncommitted : (C.node l).commit < i) : Told s l T i .pending
  | redeemed (passes : C.Passes s l T i) : Told s l T i .committed
  | lost (ceases : C.Ceases s l T i) : Told s l T i .dropped

/-- A verdict is given as soon as there is reason for it. -/
theorem told_of_leads {t : Ticket} (pending : t.verdict = .pending) (le : s ≤ l)
    (reigns : C.Reigns s l t.term) : C.Told s l t.term t.index ((C.node l).judge t).verdict := by
  rw [judge_led pending (reigns l le (Nat.le_refl l))]
  split
  · rename_i passed
    exact .redeemed ⟨l, le, Nat.le_refl l, reigns, passed⟩
  · rename_i short
    exact pending ▸ .waits reigns (Nat.lt_of_not_le short)

theorem Told.lasts {v : Verdict} (h : C.Told s l T i v) (resolved : v ≠ .pending) (le : l ≤ l') :
    C.Told s l' T i v := by
  cases h with
  | waits _ _ => exact absurd rfl resolved
  | redeemed passes => exact .redeemed (passes.mono le)
  | lost ceases => exact .lost (ceases.mono le)

theorem Told.judged {t : Ticket} (h : C.Told s l t.term t.index t.verdict) (le : s ≤ l) :
    C.Told s (l + 1) t.term t.index ((C.node (l + 1)).judge t).verdict := by
  by_cases pending : t.verdict = .pending
  · rw [pending] at h
    obtain ⟨reigns, uncommitted⟩ := h
    by_cases leads : (C.node (l + 1)).role = .leader ∧ (C.node (l + 1)).term = t.term
    · apply told_of_leads pending (Nat.le_succ_of_le le)
      intro j since upTo
      rcases Nat.lt_or_eq_of_le upTo with before | rfl
      · exact reigns j since (Nat.le_of_lt_succ before)
      · exact leads
    · rw [judge_lost pending leads]
      exact .lost ⟨l, le, Nat.lt_succ_self l, reigns, uncommitted, leads⟩
  · rw [judge_resolved pending]
    exact h.lasts pending (Nat.le_succ l)

/-- Of all reasons there is one only. -/
theorem Told.committed_iff {v : Verdict} (h : C.Told s l T i v) :
    v = .committed ↔ C.Passes s l T i := by
  cases h with
  | waits _ uncommitted =>
      refine iff_of_false (by simp) fun passes => ?_
      have passed := passes.commit
      omega
  | redeemed passes => exact iff_of_true rfl passes
  | lost ceases => exact iff_of_false (by simp) fun passes => passes.not_ceases ceases

theorem Told.dropped_iff {v : Verdict} (h : C.Told s l T i v) :
    v = .dropped ↔ C.Ceases s l T i := by
  cases h with
  | waits reigns _ => exact iff_of_false (by simp) fun ceases => ceases.not_reigns reigns
  | redeemed passes => exact iff_of_false (by simp) passes.not_ceases
  | lost ceases => exact iff_of_true rfl ceases

theorem Told.pending_iff {v : Verdict} (h : C.Told s l T i v) :
    v = .pending ↔ C.Reigns s l T ∧ (C.node l).commit < i := by
  cases h with
  | waits reigns uncommitted => exact iff_of_true rfl ⟨reigns, uncommitted⟩
  | redeemed passes =>
      refine iff_of_false (by simp) fun waits => ?_
      have passed := passes.commit
      omega
  | lost ceases => exact iff_of_false (by simp) fun waits => ceases.not_reigns waits.1

/-- Every ticket is judged anew by every move. -/
theorem ticket_succ {number : Nat} {t : Ticket} (C : Course me peers) (k : Nat)
    (at_ : (C.node k).tickets[number]? = some t) :
    (C.node (k + 1)).tickets[number]? = some ((C.node (k + 1)).judge t) :=
  (C.moves k).judges (C.sound k) (C.attends k) number t at_

/-- A ticket that has a verdict is never touched again. -/
theorem ticket_stands {number : Nat} {t : Ticket} (at_ : (C.node k).tickets[number]? = some t)
    (resolved : t.verdict ≠ .pending) (le : k ≤ l) : (C.node l).tickets[number]? = some t := by
  induction l, le using Nat.le_induction with
  | base => exact at_
  | succ l _ before => rw [C.ticket_succ l before, judge_resolved resolved]

/-- Whoever stages a write is told, from then on, what there is to tell of it. -/
theorem told_of_staged {key : String} {write : Write} {record : Record} {ticket : Nat}
    (ok : (C.node k).stageWrite key write = .ok ((record, ticket), C.node (k + 1)))
    (after : k < l) :
    ∃ t, (C.node l).tickets[ticket]? = some t ∧ C.Told (k + 1) l (C.node k).term
      ((C.node k).lastIndex + 1) t.verdict := by
  obtain ⟨_, role, term, _⟩ := stageWrite_leads ok
  let claim : Ticket := ⟨(C.node k).lastIndex + 1, (C.node k).term, .pending⟩
  -- the induction keeps along that the ticket still claims what it was given out for
  suffices told : ∃ t, (C.node l).tickets[ticket]? = some t ∧ t.index = claim.index ∧
      t.term = claim.term ∧ C.Told (k + 1) l t.term t.index t.verdict by
    obtain ⟨t, at_, index, own, told⟩ := told
    rw [index, own] at told
    exact ⟨t, at_, told⟩
  induction l, Nat.succ_le_of_lt after using Nat.le_induction with
  | base =>
      have at_ := ((C.attends k).judges_stageWrite (C.sound k).bound ok).2
      refine ⟨_, at_, judge_index _ _, judge_term _ _, ?_⟩
      have reigns : C.Reigns (k + 1) (k + 1) claim.term := by
        intro j since upTo
        obtain rfl := Nat.le_antisymm upTo since
        exact ⟨role, term⟩
      have told := told_of_leads (t := claim) rfl (Nat.le_refl _) reigns
      rwa [judge_index, judge_term]
  | succ l since before =>
      obtain ⟨t, at_, index, own, told⟩ := before since
      refine ⟨_, C.ticket_succ l at_, ?_, ?_, ?_⟩
      · rw [judge_index, index]
      · rw [judge_term, own]
      · rw [judge_index, judge_term]
        exact told.judged since

variable (C) in
/-- The ticket of a write says how the write fares that was staged for a position in a term, and a
    client that is told of a commit finds its write in the store. -/
structure Answers (s l T p : Nat) (key : String) (record : Record) (e : Entry) (ticket : Nat)
    (t : Ticket) : Prop where
  committed : t.verdict = .committed ↔ C.Passes s l T (p + 1)
  dropped : t.verdict = .dropped ↔ C.Ceases s l T (p + 1)
  pending : t.verdict = .pending ↔ C.Reigns s l T ∧ (C.node l).commit < p + 1
  /-- There is one verdict only. -/
  stands : t.verdict ≠ .pending → ∀ l' ≥ l, (C.node l').tickets[ticket]? = some t
  effect : t.verdict = .committed → (C.node l).log[p]? = some e ∧ p < (C.node l).commit ∧
    (C.node l).store = ((Log.replay ((C.node l).log.take p)).put key record).applyAll
      (((C.node l).log.take (C.node l).commit).drop (p + 1))

/-- Every write that is staged is answered once at most and truthfully. Its ticket is redeemed if
    the commit index passes its entry while the node leads the term it was staged in, and in no
    other case; otherwise it is dropped when the node ceases to lead that term, and not before. -/
theorem staged_write_is_answered {key : String} {write : Write} {record : Record} {ticket : Nat}
    (ok : (C.node k).stageWrite key write = .ok ((record, ticket), C.node (k + 1))) :
    ∃ version e, e = ⟨(C.node k).term, .write key (write.content version) version⟩ ∧
      record = (write.content version).record version ∧
      (C.node (k + 1)).log = (C.node k).log ++ [e] ∧
      ∀ l > k, ∃ t, (C.node l).tickets[ticket]? = some t ∧
        C.Answers (k + 1) l (C.node k).term (C.node k).lastIndex key record e ticket t := by
  obtain ⟨version, _, rfl, log⟩ := stageWrite_log ok
  refine ⟨version, _, rfl, rfl, log, fun l after => ?_⟩
  obtain ⟨t, at_, told⟩ := told_of_staged ok after
  refine ⟨t, at_, told.committed_iff, told.dropped_iff, told.pending_iff,
    fun resolved l' later => ticket_stands at_ resolved later, fun committed => ?_⟩
  have passes := told.committed_iff.mp committed
  have staged : (C.node (k + 1)).log[(C.node k).lastIndex]? =
      some ⟨(C.node k).term, .write key (write.content version) version⟩ := by
    rw [log, lastIndex, List.getElem?_concat_length]
  have entry := passes.entry staged
  have passed : (C.node k).lastIndex < (C.node l).commit := passes.commit
  refine ⟨entry, passed, ?_⟩
  have applied := Log.replay_of_write ((List.getElem?_take_of_lt passed).trans entry)
  rwa [List.take_take, Nat.min_eq_left (Nat.le_of_lt passed), ← (C.sound l).replayed] at applied

/-! ## A sample -/

def candidate : Node where
  role := .candidate
  term := 1
  votedFor := some "a"
  leader := none
  log := []
  commit := 0
  store := .empty
  progress := []
  deadline := 20
  tickets := []

def leading : Node :=
  { candidate with
    role := .leader
    leader := some "a"
    log := [⟨1, .barrier⟩]
    progress := [⟨1, 0⟩, ⟨1, 0⟩] }

def waiting : Node :=
  { leading with
    log := [⟨1, .barrier⟩, ⟨1, .write "k" .tombstone 0⟩]
    tickets := [⟨2, 1, .pending⟩] }

def asked : HeartbeatRequest :=
  ⟨1, 0, "a", 0, 0, [⟨1, .barrier⟩, ⟨1, .write "k" .tombstone 0⟩]⟩

def busy : Node :=
  { waiting with
    log := [⟨1, .barrier⟩, ⟨1, .write "k" .tombstone 0⟩, ⟨1, .write "k" .tombstone 0⟩]
    tickets := [⟨2, 1, .pending⟩, ⟨3, 1, .pending⟩] }

def confirmed : Node :=
  { busy with
    commit := 2
    store := ⟨[("k", .tombstone)]⟩
    progress := [⟨3, 2⟩, ⟨1, 0⟩]
    tickets := [⟨2, 1, .committed⟩, ⟨3, 1, .pending⟩] }

def voted : Node :=
  { confirmed with
    role := .follower
    term := 2
    votedFor := some "b"
    leader := none
    progress := []
    deadline := 22
    tickets := [⟨2, 1, .committed⟩, ⟨3, 1, .dropped⟩] }

/-- A leader of three that stages two writes and has the first one confirmed, and then votes for
    another candidate. -/
def succeeded : Course "a" 2 where
  state
    | 0 => ⟨.start ⟨0, 10⟩, []⟩
    | 1 => ⟨candidate, []⟩
    | 2 => ⟨leading, []⟩
    | 3 => ⟨waiting, []⟩
    | 4 => ⟨waiting, [(0, asked)]⟩
    | 5 => ⟨busy, [(0, asked)]⟩
    | 6 => ⟨confirmed, [(0, asked)]⟩
    | _ => ⟨voted, [(0, asked)]⟩
  starts := ⟨⟨0, 10⟩, rfl⟩
  moves
    | 0 => .step (.campaigns _ ⟨10, 10⟩ (by decide) (by decide))
    | 1 => .step (.wins _ rfl)
    | 2 => .step (.stages _ "k" .delete _ _ rfl)
    | 3 => .step (.builds _ 0 _ rfl)
    | 4 => .step (.stages _ "k" .delete _ _ rfl)
    | 5 => .step (.records _ ⟨11, 10⟩ 0 asked ⟨1, 0, true, 2⟩ (.head _))
    | 6 => .step (.votes _ ⟨12, 10⟩ ⟨2, 2, 1, 1, some "b"⟩)
    | _ + 7 => .step (.votes _ ⟨12, 10⟩ ⟨0, 0, 0, 0, none⟩)

/-- Of two writes that were staged one after the other, the first is known to be committed and the
    second is lost. -/
theorem staged_write_is_answered_before_a_vote :
    (leading.stageWrite "k" .delete = .ok ((.tombstone, 0), waiting) ∧
      succeeded.Passes 3 7 1 2) ∧
    (waiting.stageWrite "k" .delete = .ok ((.tombstone, 1), busy) ∧ succeeded.Ceases 5 7 1 3) := by
  have first : (succeeded.node 2).stageWrite "k" .delete =
      .ok ((.tombstone, 0), succeeded.node 3) := rfl
  have second : (succeeded.node 4).stageWrite "k" .delete =
      .ok ((.tombstone, 1), succeeded.node 5) := rfl
  obtain ⟨_, _, _, _, _, told⟩ := staged_write_is_answered first
  obtain ⟨_, _, _, _, _, told'⟩ := staged_write_is_answered second
  obtain ⟨t, at_, answers⟩ := told 7 (by decide)
  obtain ⟨t', at_', answers'⟩ := told' 7 (by decide)
  obtain rfl : ⟨2, 1, .committed⟩ = t := Option.some.inj at_
  obtain rfl : ⟨3, 1, .dropped⟩ = t' := Option.some.inj at_'
  exact ⟨⟨first, answers.committed.mp rfl⟩, second, answers'.dropped.mp rfl⟩

end Course

end Exposed

end QuorumStore
