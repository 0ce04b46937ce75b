import QuorumStore.Proofs.Counting
import QuorumStore.Proofs.Strangers
import QuorumStore.Proofs.TimerSteps
import Mathlib.Data.List.Perm.Basic
import Mathlib.Logic.Relation
/-! # The answers of a round

The peers answer a round of heartbeats in any order, and every success makes the leader look again
at what it can commit. What is committed on the way depends on the order; where the round ends does
not. Two answers of different peers can be exchanged, because what a majority has reached never
falls while answers are taken in, and because committing in two steps is committing at once.
-/

namespace QuorumStore

/-! ## Committing in steps -/

/-- A ticket that is settled on the way is settled as it would be at the end. -/
theorem Node.settle_settle {log : Log} {upTo upTo' : Nat} (le : upTo ≤ upTo') (t : Ticket) :
    settle log upTo' (settle log upTo t) = settle log upTo' t := by
  by_cases due : t.verdict = .pending ∧ t.index ≤ upTo
  · have dueLater : t.verdict = .pending ∧ t.index ≤ upTo' := ⟨due.1, Nat.le_trans due.2 le⟩
    rw [settle, settle, settle, if_pos due, if_pos dueLater]
    apply if_neg
    dsimp only
    split <;> simp
  · rw [settle.eq_def log upTo, if_neg due]

namespace Node

variable {n : Node} {target target' peer : Nat} {f : Progress → Progress}

theorem commitThrough_of_lt (new : n.commit < min target n.lastIndex) :
    n.commitThrough target = { n with
      store := n.store.applyAll ((n.log.take (min target n.lastIndex)).drop n.commit)
      commit := min target n.lastIndex
      tickets := n.tickets.map (settle n.log (min target n.lastIndex)) } :=
  if_neg (Nat.not_le_of_lt new)

theorem commitThrough_commitThrough (le : target ≤ target') :
    (n.commitThrough target).commitThrough target' = n.commitThrough target' := by
  by_cases old : min target n.lastIndex ≤ n.commit
  · rw [commitThrough.eq_def target, if_pos old]
  let upTo := min target n.lastIndex
  let upTo' := min target' n.lastIndex
  have later : upTo ≤ upTo' := by omega
  have last : n.commitThrough target' = _ := commitThrough_of_lt (by omega)
  rw [last, commitThrough_of_lt (Nat.lt_of_not_le old)]
  by_cases same : upTo' ≤ upTo
  · have equal : upTo' = upTo := Nat.le_antisymm same later
    simp only [upTo, upTo'] at equal
    rw [equal]
    exact if_pos (Nat.le_of_eq equal)
  · have entries : (n.log.take upTo').drop n.commit =
        (n.log.take upTo).drop n.commit ++ (n.log.take upTo').drop upTo := by
      have parts : n.log.take upTo' = n.log.take upTo ++ (n.log.take upTo').drop upTo := by
        conv_lhs => rw [← List.take_append_drop upTo (n.log.take upTo'), List.take_take,
          Nat.min_eq_left later]
      have committed : n.commit ≤ (n.log.take upTo).length := by
        have length : (n.log.take upTo).length = upTo :=
          List.length_take_of_le (Nat.min_le_right ..)
        rw [length]
        exact Nat.le_of_not_le old
      rw [← List.drop_append_of_le_length committed, ← parts]
    have tickets : (n.tickets.map (settle n.log upTo)).map (settle n.log upTo') =
        n.tickets.map (settle n.log upTo') := by
      rw [List.map_map]
      exact List.map_congr_left fun t _ => settle_settle later t
    rw [entries, Store.applyAll_append, ← tickets]
    exact if_neg same

/-! ## Learning and committing -/

/-- What a leader knows of its peers has no part in committing up to a given position. -/
theorem commitThrough_updateProgress :
    (n.updateProgress peer f).commitThrough target =
      (n.commitThrough target).updateProgress peer f := by
  by_cases old : min target n.lastIndex ≤ n.commit
  · rw [commitThrough.eq_def target n, if_pos old]
    exact if_pos old
  · rw [commitThrough_of_lt (Nat.lt_of_not_le old)]
    exact if_neg old

/-- Where an entry of the leader's own term is found at the number reached, the leader commits up to
    there. -/
theorem advanceCommit_of_own (leads : n.role = .leader) (own : n.log.termAt n.reached = n.term) :
    n.advanceCommit = n.commitThrough n.reached := by
  rw [advanceCommit_of_leader leads]
  split
  · rfl
  · rename_i old
    exact (commitThrough_of_le (Nat.le_of_not_lt fun new => old ⟨new, own⟩)).symm

theorem reached_updateProgress (same : ∀ p, (f p).matched = p.matched) :
    (n.updateProgress peer f).reached = n.reached := by
  have matched : (n.progress.modify peer f).map Progress.matched =
      n.progress.map Progress.matched := by
    apply List.ext_getElem?
    intro q
    rw [List.getElem?_map, List.getElem?_map, List.getElem?_modify]
    cases n.progress[q]? with
    | none => rfl
    | some p =>
        simp only [Option.map_eq_map, Option.map_some]
        split
        · rw [same]
        · rfl
  simp only [reached, updateProgress, lastIndex, matched]

/-- A refusal tells nothing of what the peer holds. -/
theorem advanceCommit_updateProgress_of_matched (leads : n.role = .leader)
    (same : ∀ p, (f p).matched = p.matched) :
    (n.updateProgress peer f).advanceCommit = n.advanceCommit.updateProgress peer f := by
  have leads' : (n.updateProgress peer f).role = .leader := leads
  rw [advanceCommit_of_leader leads', advanceCommit_of_leader leads, reached_updateProgress same]
  by_cases now : n.commit < n.reached ∧ n.log.termAt n.reached = n.term
  · rw [if_pos now, ← commitThrough_updateProgress]
    exact if_pos now
  · rw [if_neg now]
    exact if_neg now

theorem countP_le_countP_modify {p : Progress → Bool} (grows : ∀ x, p x → p (f x))
    (known : List Progress) (peer : Nat) : known.countP p ≤ (known.modify peer f).countP p := by
  induction known generalizing peer with
  | nil => simp
  | cons x rest ih =>
      cases peer with
      | zero =>
          rw [List.modify_zero_cons, List.countP_cons, List.countP_cons]
          refine Nat.add_le_add_left ?_ _
          split
          · rename_i holds
            rw [if_pos (grows x holds)]
          · exact Nat.zero_le _
      | succ peer =>
          rw [List.modify_succ_cons, List.countP_cons, List.countP_cons]
          exact Nat.add_le_add_right (ih peer) _

/-- What a majority has reached does not fall when the leader learns more of a peer. -/
theorem reached_le_updateProgress (grows : ∀ p, p.matched ≤ (f p).matched)
    (inside : n.reached ≤ n.lastIndex) : n.reached ≤ (n.updateProgress peer f).reached := by
  have held := (quorum_le_holders_iff inside).mpr (Nat.le_refl _)
  refine (quorum_le_holders_iff (n := n.updateProgress peer f) inside).mp ?_
  have length : (n.updateProgress peer f).progress.length = n.progress.length :=
    List.length_modify ..
  rw [length]
  refine Nat.le_trans held (Nat.add_le_add_right (countP_le_countP_modify ?_ _ _) 1)
  intro p reached
  rw [decide_eq_true_iff] at reached ⊢
  exact Nat.le_trans reached (grows p)

/-- A leader as it is between two steps: along its log terms do not fall, up to its own, and no peer
    is known to hold more than the leader does. -/
structure Leads (n : Node) : Prop where
  role : n.role = .leader
  rising : n.log.Rising
  reigns : ∀ e ∈ n.log, e.term ≤ n.term
  known : ∀ p ∈ n.progress, p.matched ≤ n.lastIndex

theorem Leads.advanceCommit (h : n.Leads) : n.advanceCommit.Leads where
  role := by rw [advanceCommit_role, h.role]
  rising := by rw [advanceCommit_log]; exact h.rising
  reigns := by rw [advanceCommit_log, advanceCommit_term]; exact h.reigns
  known := by rw [advanceCommit_progress, lastIndex, advanceCommit_log]; exact h.known

/-- Committing first, and again after the leader has learned more, is committing after it has. -/
theorem Leads.advanceCommit_updateProgress (h : n.Leads) (grows : ∀ p, p.matched ≤ (f p).matched)
    (after : (n.updateProgress peer f).Leads) :
    (n.advanceCommit.updateProgress peer f).advanceCommit =
      (n.updateProgress peer f).advanceCommit := by
  rcases advanceCommit_cases n with same | ⟨_, r, r_eq, _, own, commits⟩
  · rw [same]
  obtain rfl : r = n.reached := r_eq
  let n' := n.updateProgress peer f
  have further : n.reached ≤ n'.reached :=
    reached_le_updateProgress grows (reached_le_lastIndex h.known)
  have own' : n'.log.termAt n'.reached = n'.term := by
    have lower := after.rising.termAt_le_termAt further (reached_le_lastIndex after.known)
    have start : n'.log.termAt n.reached = n'.term := own
    rw [start] at lower
    exact Nat.le_antisymm (Log.termAt_le after.reigns n'.reached) lower
  have reached : (n'.commitThrough n.reached).reached = n'.reached := by
    simp only [Node.reached, lastIndex, commitThrough_progress, commitThrough_log]
  calc (n.advanceCommit.updateProgress peer f).advanceCommit
      = (n'.commitThrough n.reached).advanceCommit := by
        rw [commits, ← commitThrough_updateProgress]
    _ = (n'.commitThrough n.reached).commitThrough n'.reached := by
        rw [advanceCommit_of_own, reached]
        · rw [commitThrough_role, after.role]
        · rw [reached, commitThrough_log, commitThrough_term, own']
    _ = n'.commitThrough n'.reached := commitThrough_commitThrough further
    _ = n'.advanceCommit := (advanceCommit_of_own after.role own').symm

end Node

/-! ## Taking answers in -/

/-- What a peer answered to the heartbeat that was sent to it. -/
structure Response where
  peer : Nat
  sent : HeartbeatRequest
  reply : HeartbeatReply
  deriving Repr, DecidableEq

namespace Node

variable {n : Node} {a b : Response} {responses responses' : List Response}

/-- What the leader knows of its peers after an answer. -/
def told (n : Node) (a : Response) : Node := n.updateProgress a.peer (learn a.sent a.reply)

/-- The leader after an answer that comes while it leads. -/
def hear (n : Node) (a : Response) : Node :=
  if a.reply.success then (n.told a).advanceCommit else n.told a

theorem recordReply_leads_on (leads : n.role = .leader) (m : Moment)
    (current : a.reply.term ≤ n.term) :
    n.recordReply m n.term a.peer a.sent a.reply = (true, n.hear a) := by
  have stands : ¬ (n.role ≠ .leader ∨ n.term ≠ n.term) := by simp [leads]
  rw [recordReply, if_neg (Nat.not_lt_of_le current), if_neg stands, hear]
  by_cases success : a.reply.success = true
  · simp only [told, success, if_true, learn_of_success success]
  · simp only [told, success, if_false, learn_of_refusal success, Bool.false_eq_true]

@[simp] theorem hear_term (n : Node) (a : Response) : (n.hear a).term = n.term := by
  simp only [hear]
  split <;> simp [told, updateProgress]

@[simp] theorem hear_lastIndex (n : Node) (a : Response) : (n.hear a).lastIndex = n.lastIndex := by
  simp only [hear, lastIndex]
  split <;> simp [told, updateProgress]

theorem told_comm (n : Node) (apart : a.peer ≠ b.peer) : (n.told a).told b = (n.told b).told a := by
  simp only [told, updateProgress, List.modify_modify_ne _ _ _ apart]

theorem Leads.told (h : n.Leads) (inside : a.sent.lastIndex ≤ n.lastIndex) : (n.told a).Leads where
  role := h.role
  rising := h.rising
  reigns := h.reigns
  known := by
    intro p hp
    obtain ⟨q, at_⟩ := List.mem_iff_getElem?.mp hp
    obtain ⟨old, before, same | ⟨_, _, covered⟩⟩ := learn_cases at_
    · rw [same]
      exact h.known old (List.mem_of_getElem? before)
    · rw [covered]
      exact inside

theorem Leads.hear (h : n.Leads) (inside : a.sent.lastIndex ≤ n.lastIndex) : (n.hear a).Leads := by
  simp only [Node.hear]
  split
  · exact (h.told inside).advanceCommit
  · exact h.told inside

/-- After two answers the leader has learned from both, and has committed if one was a success. -/
theorem Leads.hear_hear (h : n.Leads) (insideA : a.sent.lastIndex ≤ n.lastIndex)
    (insideB : b.sent.lastIndex ≤ n.lastIndex) :
    (n.hear a).hear b = if a.reply.success ∨ b.reply.success then
      ((n.told a).told b).advanceCommit else (n.told a).told b := by
  have leads : (n.told a).Leads := h.told insideA
  by_cases success : b.reply.success = true
  · simp only [Node.hear, success, if_true, or_true]
    split
    · exact leads.advanceCommit_updateProgress (matched_le_learn b.sent b.reply)
        (leads.told insideB)
    · rfl
  · have same : ∀ p, (learn b.sent b.reply p).matched = p.matched := by
      intro p
      rw [learn, if_neg success]
    simp only [Node.hear, success, if_false, or_false, Bool.false_eq_true]
    split
    · exact (advanceCommit_updateProgress_of_matched leads.role same).symm
    · rfl

/-- Answers of different peers can be exchanged. -/
theorem Leads.hear_comm (h : n.Leads) (apart : a.peer ≠ b.peer)
    (insideA : a.sent.lastIndex ≤ n.lastIndex) (insideB : b.sent.lastIndex ≤ n.lastIndex) :
    (n.hear a).hear b = (n.hear b).hear a := by
  have either : (a.reply.success = true ∨ b.reply.success = true) ↔
    (b.reply.success = true ∨ a.reply.success = true) := or_comm
  rw [h.hear_hear insideA insideB, h.hear_hear insideB insideA, n.told_comm apart]
  simp only [either]

theorem Leads.foldl_hear_perm (perm : responses.Perm responses') (h : n.Leads)
    (once : (responses.map Response.peer).Nodup)
    (inside : ∀ a ∈ responses, a.sent.lastIndex ≤ n.lastIndex) :
    responses.foldl Node.hear n = responses'.foldl Node.hear n := by
  induction perm generalizing n with
  | nil => rfl
  | cons a perm ih =>
      obtain ⟨first, rest⟩ := List.forall_mem_cons.mp inside
      refine ih (h.hear first) (List.nodup_cons.mp once).2 ?_
      simpa only [hear_lastIndex] using rest
  | swap a b rest =>
      have apart : b.peer ≠ a.peer := fun same =>
        (List.nodup_cons.mp once).1 (by simp [same])
      have exchanged := h.hear_comm apart (inside b (by simp)) (inside a (by simp))
      simp only [List.foldl_cons, exchanged]
  | trans perm perm' ih ih' =>
      refine (ih h once inside).trans (ih' h ?_ ?_)
      · exact (perm.map Response.peer).nodup_iff.mp once
      · exact fun a ha => inside a (perm.mem_iff.mpr ha)

end Node

/-! ## Rounds -/

/-- What a call brought in, if anything. -/
def Call.response? (call : Call HeartbeatRequest HeartbeatReply) : Option Response :=
  call.reply.map fun reply => ⟨call.peer, call.sent, reply⟩

namespace Member

variable {m : Member} {term : Nat} {requests : List HeartbeatRequest}
  {calls calls' : List (Moment × Call HeartbeatRequest HeartbeatReply)}

/-- What the calls of a round brought in, in the order in which they ended. -/
def responses (calls : List (Moment × Call HeartbeatRequest HeartbeatReply)) : List Response :=
  calls.filterMap fun call => call.2.response?

/-- Takes in what became of the calls of a round, each at the moment when it ends, until the node is
    found to lead no more. -/
def endRound (term : Nat) : List (Moment × Call HeartbeatRequest HeartbeatReply) → Member →
    Bool × Member
  | [], m => (true, m)
  | (t, call) :: rest, m =>
    match m.foldHeartbeat t term call.peer call.sent call.reply with
    | (true, m) => endRound term rest m
    | (false, m) => (false, m)

/-- This is what the task does with the calls as they end. -/
theorem proceeds_endRound (ended : ∀ c ∈ calls, c.2.ends ≤ c.1.now) (m : Member) :
    Relation.ReflTransGen Timer.Proceeds ⟨m, .replicating term (calls.map Prod.snd)⟩
      ⟨(m.endRound term calls).2, .replicating term []⟩ := by
  induction calls generalizing m with
  | nil => exact .refl
  | cons c rest ih =>
      obtain ⟨t, call⟩ := c
      obtain ⟨first, others⟩ := List.forall_mem_cons.mp ended
      let k : Timer := ⟨m, .replicating term (call :: rest.map Prod.snd)⟩
      have takes : k.Proceeds (k.takeHeartbeat t term call (rest.map Prod.snd)) :=
        ⟨t, if_pos first⟩
      refine .head takes ?_
      rw [Timer.takeHeartbeat, endRound]
      rcases m.foldHeartbeat t term call.peer call.sent call.reply with ⟨goesOn, m'⟩
      cases goesOn with
      | true => exact ih others m'
      | false => exact .refl

/-- As long as no answer is of a later term, a leader takes all of them in. -/
theorem endRound_leads (leads : m.node.Leads)
    (heard : ∀ a ∈ responses calls, a.sent.lastIndex ≤ m.node.lastIndex ∧
      a.reply.term ≤ m.node.term) :
    (m.endRound m.node.term calls).1 = true ∧
      (m.endRound m.node.term calls).2.node = (responses calls).foldl Node.hear m.node := by
  induction calls generalizing m with
  | nil => exact ⟨rfl, rfl⟩
  | cons c rest ih =>
      obtain ⟨t, call⟩ := c
      cases answer : call.reply with
      | none =>
          have silent : responses ((t, call) :: rest) = responses rest := by
            simp [responses, Call.response?, answer]
          rw [silent] at heard ⊢
          simp only [endRound, answer, foldHeartbeat]
          exact ih (m := m.count .peerFailures [("rpc", "heartbeat")]) leads heard
      | some reply =>
          let a : Response := ⟨call.peer, call.sent, reply⟩
          have first : responses ((t, call) :: rest) = a :: responses rest := by
            simp [responses, Call.response?, answer, a]
          rw [first] at heard ⊢
          obtain ⟨⟨inside, current⟩, others⟩ := List.forall_mem_cons.mp heard
          have taken := Node.recordReply_leads_on (a := a) leads.role t current
          have next : m.foldHeartbeat t m.node.term call.peer call.sent (some reply) =
              (true, m.become (m.node.hear a)) := by
            rw [foldHeartbeat]
            simp only [taken, a]
          simp only [endRound, answer, next, List.foldl_cons]
          have onward := ih (m := m.become (m.node.hear a)) (leads.hear inside)
          have term : (m.become (m.node.hear a)).node.term = m.node.term := Node.hear_term ..
          rw [term] at onward
          refine onward fun b hb => ?_
          obtain ⟨inside, current⟩ := others b hb
          exact ⟨Nat.le_trans inside (Nat.le_of_eq (Node.hear_lastIndex ..).symm), current⟩

/-- It does not matter in which order the peers answer a round of heartbeats, nor when: the leader
    takes in what every one of them answered, and ends with the same knowledge of its peers, the
    same log, commit index and store, and the same clients told what became of their writes. -/
theorem endRound_perm (opened : m.openRound = some (term, requests)) (rising : m.node.log.Rising)
    (reigns : ∀ e ∈ m.node.log, e.term ≤ m.node.term)
    (known : ∀ p ∈ m.node.progress, p.matched ≤ m.node.lastIndex)
    (asked : ∀ a ∈ responses calls, requests[a.peer]? = some a.sent)
    (current : ∀ a ∈ responses calls, a.reply.term ≤ term)
    (once : ((responses calls).map Response.peer).Nodup)
    (reordered : (responses calls).Perm (responses calls')) :
    (m.endRound term calls).1 = true ∧ (m.endRound term calls').1 = true ∧
      (m.endRound term calls).2.node = (m.endRound term calls').2.node := by
  rw [openRound] at opened
  split at opened
  · rename_i role
    obtain ⟨rfl, rfl⟩ := Prod.mk.inj (Option.some.inj opened)
    have leads : m.node.Leads := ⟨role, rising, reigns, known⟩
    have inside : ∀ a ∈ responses calls, a.sent.lastIndex ≤ m.node.lastIndex := by
      intro a ha
      obtain ⟨_, _, made⟩ := List.mem_filterMap.mp (List.mem_of_getElem? (asked a ha))
      exact (Node.tells_heartbeatFor? made).lastIndex_le
    have heard : ∀ a ∈ responses calls, a.sent.lastIndex ≤ m.node.lastIndex ∧
        a.reply.term ≤ m.node.term := fun a ha => ⟨inside a ha, current a ha⟩
    have heard' : ∀ a ∈ responses calls', a.sent.lastIndex ≤ m.node.lastIndex ∧
        a.reply.term ≤ m.node.term := fun a ha => heard a (reordered.mem_iff.mpr ha)
    obtain ⟨on, ends⟩ := endRound_leads leads heard
    obtain ⟨on', ends'⟩ := endRound_leads leads heard'
    exact ⟨on, on', by rw [ends, ends', leads.foldl_hear_perm reordered once inside]⟩
  · simp at opened

/-- A leader of four with two writes that clients wait for. -/
def leadsFour : Member where
  address := "a"
  peers := ["b", "c", "d"]
  timing := ⟨150, 300, 30, 50, 1000⟩
  node := { Node.leaderOfFour with tickets := [⟨4, 2, .pending⟩, ⟨5, 2, .pending⟩] }
  wakeUp := false
  metrics := []

def beatsOfFour : List HeartbeatRequest :=
  (List.range 3).filterMap (leadsFour.node.heartbeatFor? · "a")

/-- The call to one of the peers, answered at a moment. -/
def callOfFour (peer now : Nat) (success : Bool) (matched : Nat) :
    Moment × Call HeartbeatRequest HeartbeatReply :=
  (⟨now, 150⟩,
    ⟨peer, beatsOfFour[peer]?.getD ⟨0, 0, "", 0, 0, []⟩, now, some ⟨2, 1, success, matched⟩⟩)

/-- The last peer answers first. -/
def callsOfFour : List (Moment × Call HeartbeatRequest HeartbeatReply) :=
  [callOfFour 2 5 true 5, callOfFour 1 6 false 1, callOfFour 0 7 true 5]

/-- The first peer answers first. -/
def callsOfFour' : List (Moment × Call HeartbeatRequest HeartbeatReply) :=
  [callOfFour 0 5 true 5, callOfFour 1 6 false 1, callOfFour 2 7 true 5]

/-- In one order the two writes are committed one after the other, in the other one at once. -/
theorem endRound_perm_for_four :
    leadsFour.openRound = some (2, beatsOfFour) ∧
      (responses callsOfFour).Perm (responses callsOfFour') ∧
      (leadsFour.endRound 2 (callsOfFour.take 1)).2.node.commit = 4 ∧
      (leadsFour.endRound 2 (callsOfFour'.take 1)).2.node.commit = 5 ∧
      (leadsFour.endRound 2 callsOfFour).2.node = (leadsFour.endRound 2 callsOfFour').2.node := by
  have opened : leadsFour.openRound = some (2, beatsOfFour) := rfl
  have rising : leadsFour.node.log.Rising := by unfold Log.Rising; decide
  have reordered : (responses callsOfFour).Perm (responses callsOfFour') := by decide
  obtain ⟨_, _, same⟩ := endRound_perm opened rising (by decide) (by decide) (by decide) (by decide)
    (by decide) reordered
  exact ⟨opened, reordered, by decide, by decide, same⟩

end Member

end QuorumStore
