import QuorumStore.Proofs.Heartbeats
import QuorumStore.Proofs.LogMatching
import Mathlib.Algebra.Order.Floor.Div
/-! # How a follower catches up

A leader that goes on where a follower cannot follow is refused, and told where to go back to. The
first refusal takes it to the end of the follower's log at the latest, the second to what is
committed there, which both have. From then on every heartbeat is taken over, and brings the
follower as many entries as a heartbeat carries.
-/

namespace QuorumStore

/-- The position after which the next heartbeat for a peer goes on. -/
def Progress.resume (p : Progress) (log : Log) : Nat := max 1 (min p.next (log.length + 1)) - 1

theorem Progress.resume_le (p : Progress) (log : Log) : p.resume log ≤ log.length := by
  rw [Progress.resume]
  omega

namespace Node

variable {n : Node} {peer : Nat} {p : Progress} {sent : HeartbeatRequest}

/-- A leader has a heartbeat for every peer that it keeps track of. -/
theorem heartbeatFor?_tracked (tracked : n.progress[peer]? = some p) (me : String) :
    ∃ sent, n.heartbeatFor? peer me = some sent ∧ n.Tells sent ∧
      sent.prevIndex = p.resume n.log ∧
      sent.lastIndex = min (p.resume n.log + maxEntries) n.lastIndex := by
  have some : n.heartbeatFor? peer me = some ⟨n.term, n.commit, me, p.resume n.log,
      n.log.termAt (p.resume n.log), (n.log.drop (p.resume n.log)).take maxEntries⟩ := by
    rw [heartbeatFor?, tracked]
    rfl
  refine ⟨_, some, tells_heartbeatFor? some, rfl, ?_⟩
  have inside := p.resume_le n.log
  simp only [HeartbeatRequest.lastIndex, List.length_take, List.length_drop, lastIndex]
  omega

theorem Tells.getElem? (h : n.Tells sent) {j : Nat} {e : Entry} (at_ : sent.entries[j]? = some e) :
    n.log[sent.prevIndex + j]? = some e := by
  have length : (n.log.take sent.prevIndex).length = sent.prevIndex :=
    List.length_take_of_le h.inside
  have parts : (n.log.take sent.lastIndex)[sent.prevIndex + j]? =
      (n.log.take sent.prevIndex ++ sent.entries)[sent.prevIndex + j]? := by rw [h.entries]
  rw [List.getElem?_append_right (by omega), length, Nat.add_sub_cancel_left, at_] at parts
  exact Log.getElem?_of_part (List.take_prefix _ _) parts

/-- An answer that comes in time changes nothing but what the leader knows of the peer, and what it
    commits for that. -/
theorem recordReply_current (leads : n.role = .leader) (m : Moment) (peer : Nat)
    (sent : HeartbeatRequest) {reply : HeartbeatReply} (current : reply.term ≤ n.term) :
    ∃ n', (n.recordReply m n.term peer sent reply).2 = n' ∧ n'.role = .leader ∧
      n'.term = n.term ∧ n'.log = n.log ∧
      n'.progress = n.progress.modify peer (learn sent reply) := by
  rcases recordReply_cases m n.term peer sent reply n with
    ⟨later, _⟩ | ⟨ended, _⟩ | ⟨_, _, told, rfl, r | r⟩
  · exact absurd later (Nat.not_lt_of_le current)
  · exact absurd rfl (ended leads)
  · rw [r]
    exact ⟨_, rfl, leads, rfl, rfl, rfl⟩
  · rw [r]
    exact ⟨_, rfl, (advanceCommit_role _).trans leads, advanceCommit_term _, advanceCommit_log _,
      advanceCommit_progress _⟩

end Node

/-- A leader and one of its followers, and how often the follower has refused so far. -/
structure Dialogue where
  leader : Node
  follower : Node
  refusals : Nat

namespace Dialogue

open Node

variable {me : String} {peer : Nat} {p : Progress} {d : Dialogue} {n' : Node}

/-- The leader sends a heartbeat to the follower, which is its peer of some number, and takes the
    answer in. -/
def round (me : String) (peer : Nat) (heard answered : Moment) (d : Dialogue) : Option Dialogue :=
  match d.leader.heartbeatFor? peer me with
  | none => none
  | some sent =>
    let (reply, follower) := d.follower.handleHeartbeat heard sent
    some {
      leader := (d.leader.recordReply answered sent.term peer sent reply).2
      follower
      refusals := if reply.success then d.refusals else d.refusals + 1 }

/-- So many rounds, each at moments of its own. -/
def rounds (me : String) (peer : Nat) (heard answered : Nat → Moment) (d : Dialogue) :
    Nat → Option Dialogue
  | 0 => some d
  | k + 1 =>
    match d.rounds me peer heard answered k with
    | none => none
    | some d => d.round me peer (heard k) (answered k)

/-- What a leader and a follower have in common, and what the leader knows of the follower. -/
structure Related (peer : Nat) (p : Progress) (d : Dialogue) : Prop where
  leads : d.leader.role = .leader
  tracked : d.leader.progress[peer]? = some p
  known : p.matched ≤ d.leader.lastIndex
  shared : d.leader.log.take p.matched <+: d.follower.log
  current : d.follower.term ≤ d.leader.term
  bound : d.follower.commit ≤ d.follower.lastIndex
  matching : Log.Matches d.follower.log d.leader.log
  committed : d.follower.log.take d.follower.commit <+: d.leader.log

/-- The follower has all that comes before the next heartbeat. -/
def Ready (p : Progress) (d : Dialogue) : Prop :=
  d.leader.log.take (p.resume d.leader.log) <+: d.follower.log

/-- The follower's log reaches as far as the next heartbeat goes on. -/
def Near (p : Progress) (d : Dialogue) : Prop := p.resume d.leader.log ≤ d.follower.lastIndex

theorem Ready.near (h : d.Ready p) : d.Near p := by
  have length := h.length_le
  rwa [List.length_take_of_le (p.resume_le _)] at length

theorem Ready.take_eq (h : d.Ready p) : d.follower.log.take (p.resume d.leader.log) =
    d.leader.log.take (p.resume d.leader.log) := by
  have length : (d.leader.log.take (p.resume d.leader.log)).length = p.resume d.leader.log :=
    List.length_take_of_le (p.resume_le _)
  have upTo := Log.take_of_part h (Nat.le_of_eq length.symm)
  rwa [List.take_take, Nat.min_self] at upTo

namespace Related

variable (h : d.Related peer p) {sent : HeartbeatRequest}
include h

/-- A heartbeat of the leader is accepted exactly if the follower has all that comes before it. -/
theorem accepts_iff (tells : d.leader.Tells sent)
    (resumes : sent.prevIndex = p.resume d.leader.log) :
    d.follower.Accepts sent ↔ d.Ready p := by
  have start := p.resume_le d.leader.log
  constructor
  · intro accepts
    have inside := accepts.inside
    have same := accepts.same
    rw [tells.prevTerm] at same
    rw [resumes] at inside same
    rw [Ready, ← h.matching.take_eq inside start same]
    exact List.take_prefix _ _
  · intro ready
    refine ⟨tells.term ▸ h.current, resumes ▸ ready.near, .inr ?_, ?_⟩
    · rw [tells.prevTerm, resumes, ← Log.lastTerm_take ready.near, ← Log.lastTerm_take start,
        ready.take_eq]
    · -- where both logs have an entry that is committed, it is the same
      intro j clash
      obtain ⟨⟨x, y, at_, brought, differs⟩, _⟩ := clash
      by_contra below
      have before : sent.prevIndex + j < d.follower.commit := by omega
      have inTake : (d.follower.log.take d.follower.commit)[sent.prevIndex + j]? = some x := by
        rw [List.getElem?_take_of_lt before, at_]
      have theirs := Log.getElem?_of_part h.committed inTake
      rw [tells.getElem? brought] at theirs
      exact differs (congrArg Entry.term (Option.some.inj theirs)).symm

/-- What the follower has committed, the leader has as well. -/
theorem take_of_committed {i : Nat} (le : i ≤ d.follower.commit) :
    d.leader.log.take i <+: d.follower.log := by
  have length : (d.follower.log.take d.follower.commit).length = d.follower.commit :=
    List.length_take_of_le h.bound
  rw [Log.take_of_part h.committed (by omega), List.take_take, Nat.min_eq_left le]
  exact List.take_prefix _ _

/-- What both have is not lost when the follower takes a heartbeat over. -/
theorem keeps (tells : d.leader.Tells sent) (follows : Follows sent d.follower n') {held : Log}
    (theirs : held <+: d.follower.log) (ours : held <+: d.leader.log) : held <+: n'.log := by
  have overlaid := Run.taken_log follows.toTaken tells h.matching
  exact Log.prefix_of_overlaid overlaid theirs
    (List.prefix_or_prefix_of_prefix ours (List.take_prefix _ _))

theorem matching_follows (tells : d.leader.Tells sent) (follows : Follows sent d.follower n') :
    Log.Matches n'.log d.leader.log := by
  rcases Run.taken_log follows.toTaken tells h.matching with ⟨same, _⟩ | ⟨same, _⟩
  · rw [same]
    exact h.matching
  · rw [same]
    exact Log.matches_of_part (List.take_prefix _ _)

/-- What the follower commits is part of what it had committed before or of what the heartbeat
    vouches for. -/
theorem committed_follows (tells : d.leader.Tells sent) (follows : Follows sent d.follower n') :
    n'.commit ≤ n'.lastIndex ∧ n'.log.take n'.commit <+: d.leader.log := by
  have brought := Run.part_of_taken follows.toTaken tells h.matching
  have kept := h.keeps tells follows (List.take_prefix _ _) h.committed
  have lengthKept : (d.follower.log.take d.follower.commit).length = d.follower.commit :=
    List.length_take_of_le h.bound
  have lengthBrought : (d.leader.log.take sent.lastIndex).length = sent.lastIndex :=
    List.length_take_of_le tells.lastIndex_le
  rw [follows.commit_eq]
  cases Nat.le_total (min sent.commit sent.lastIndex) d.follower.commit with
  | inl less =>
      rw [Nat.max_eq_left less, Log.take_of_part kept (Nat.le_of_eq lengthKept.symm)]
      exact ⟨lengthKept ▸ kept.length_le, (List.take_prefix _ _).trans h.committed⟩
  | inr more =>
      have upTo : min sent.commit sent.lastIndex ≤ (d.leader.log.take sent.lastIndex).length :=
        Nat.le_trans (Nat.min_le_right ..) (Nat.le_of_eq lengthBrought.symm)
      rw [Nat.max_eq_right more, Log.take_of_part brought upTo]
      exact ⟨Nat.le_trans upTo brought.length_le,
        (List.take_prefix _ _).trans (List.take_prefix _ _)⟩

/-- What a round comes to with the answer that the follower gives in it. -/
theorem round_answered (built : d.leader.heartbeatFor? peer me = some sent)
    (tells : d.leader.Tells sent) {reply : HeartbeatReply} {heard : Moment}
    (handled : d.follower.handleHeartbeat heard sent = (reply, n'))
    (current : reply.term = d.leader.term) (answered : Moment) : ∃ leader,
      d.round me peer heard answered =
        some ⟨leader, n', if reply.success then d.refusals else d.refusals + 1⟩ ∧
      leader.role = .leader ∧ leader.term = d.leader.term ∧ leader.log = d.leader.log ∧
      leader.progress[peer]? = some (learn sent reply p) := by
  obtain ⟨leader, records, leads, term, log, progress⟩ :=
    recordReply_current h.leads answered peer sent (Nat.le_of_eq current)
  refine ⟨leader, ?_, leads, term, log, ?_⟩
  · rw [round, built]
    simp only [handled, tells.term, records]
  · simp only [progress, List.getElem?_modify, h.tracked, if_true]
    rfl

/-- A heartbeat that goes on where the follower is ready is taken over, and the next one goes on
    behind it. -/
theorem advances (ready : d.Ready p) (me : String) (heard answered : Moment) :
    ∃ d' reached, d.round me peer heard answered = some d' ∧ d'.leader.log = d.leader.log ∧
      d'.refusals = d.refusals ∧
      min (p.resume d.leader.log + maxEntries) d.leader.lastIndex ≤ reached ∧
      d'.Related peer ⟨reached + 1, reached⟩ := by
  obtain ⟨sent, built, tells, resumes, covers⟩ := heartbeatFor?_tracked h.tracked me
  have accepts := (h.accepts_iff tells resumes).mpr ready
  obtain ⟨n', handled, follows⟩ := accepts.handled h.bound heard
  have term : n'.term = d.leader.term := follows.term.trans tells.term
  obtain ⟨leader, round, leads, term', log, progress⟩ :=
    h.round_answered built tells handled term answered
  have shared : d.leader.log.take (max p.matched sent.lastIndex) <+: n'.log := by
    cases Nat.le_total p.matched sent.lastIndex with
    | inl less =>
        rw [Nat.max_eq_right less]
        exact Run.part_of_taken follows.toTaken tells h.matching
    | inr more =>
        rw [Nat.max_eq_left more]
        exact h.keeps tells follows h.shared (List.take_prefix _ _)
  obtain ⟨bound, committed⟩ := h.committed_follows tells follows
  refine ⟨_, max p.matched sent.lastIndex, round, log, rfl, covers ▸ Nat.le_max_right .., ?_⟩
  refine ⟨leads, progress, ?_, by rwa [log], Nat.le_of_eq (term.trans term'.symm), bound, ?_,
    by rwa [log]⟩
  · simp only [lastIndex, log]
    exact Nat.max_le.mpr ⟨h.known, tells.lastIndex_le⟩
  · rw [log]
    exact h.matching_follows tells follows

/-- A heartbeat that goes on where the follower is not ready is refused. If it goes on within the
    follower's log, the next one goes on where both logs are the same; otherwise the next one goes
    on within the follower's log. -/
theorem retreats (unready : ¬ d.Ready p) (me : String) (heard answered : Moment) :
    ∃ d' next, d.round me peer heard answered = some d' ∧ d'.leader.log = d.leader.log ∧
      d'.refusals = d.refusals + 1 ∧ 0 < d.leader.lastIndex ∧
      d'.Related peer { p with next } ∧ d'.Near { p with next } ∧
      (d.Near p → d'.Ready { p with next }) := by
  obtain ⟨sent, built, tells, resumes, _⟩ := heartbeatFor?_tracked h.tracked me
  have refused : ¬ d.follower.Accepts sent :=
    fun accepts => unready ((h.accepts_iff tells resumes).mp accepts)
  have current : d.follower.term ≤ sent.term := tells.term ▸ h.current
  have handled := handleHeartbeat_refused h.bound current refused heard
  have term : (d.follower.follow heard sent).term = d.leader.term :=
    (follow_term heard current).trans tells.term
  obtain ⟨leader, round, leads, term', log, progress⟩ :=
    h.round_answered built tells handled term answered
  have positive : 0 < p.resume d.leader.log := by
    refine Nat.pos_of_ne_zero fun zero => unready ?_
    rw [Ready, zero, List.take_zero]
    exact List.nil_prefix
  have inside := p.resume_le d.leader.log
  let next := max 1 (min (Counter.add (d.follower.hint sent) 1) sent.prevIndex)
  have resume : ({ p with next } : Progress).resume leader.log ≤ d.follower.hint sent := by
    -- if the hint was the greatest number, the leader starts over, which is further back
    have behind := Counter.add_le (d.follower.hint sent) 1
    simp only [Progress.resume, log, next]
    omega
  refine ⟨_, next, round, log, rfl, by simp only [lastIndex]; omega, ?_, ?_, ?_⟩
  · refine ⟨leads, progress, ?_, ?_, Nat.le_of_eq (term.trans term'.symm), ?_, ?_, ?_⟩
    · simpa only [lastIndex, log] using h.known
    · simpa only [log, follow_log] using h.shared
    · simpa using h.bound
    · simpa only [log, follow_log] using h.matching
    · simpa only [log, follow_log, follow_commit] using h.committed
  · have within : d.follower.hint sent ≤ d.follower.lastIndex := hint_le_lastIndex h.bound
    rw [Near, follow_lastIndex]
    exact Nat.le_trans resume within
  · intro near
    have le : d.follower.hint sent ≤ d.follower.commit := hint_le_commit (resumes ▸ near)
    rw [Ready, follow_log, log]
    rw [log] at resume
    exact h.take_of_committed (Nat.le_trans resume le)

end Related

/-- How far a dialogue has come after some rounds. -/
inductive Phase (p : Progress) (d : Dialogue) (rounds : Nat) : Prop where
  /-- Nothing has been taken over yet; after the first refusal the follower's log is in reach. -/
  | early (refused : d.refusals = rounds) (few : rounds ≤ 1)
      (near : rounds = 0 ∨ 0 < d.leader.lastIndex ∧ d.Near p)
  /-- No heartbeat is refused any more, and some have been taken over. -/
  | ready (taken : Nat) (ready : d.Ready p) (count : rounds ≤ d.refusals + taken)
      (few : d.refusals ≤ 2) (refused : d.refusals = 0 ∨ 0 < d.leader.lastIndex)
      (reached : min (taken * maxEntries) d.leader.lastIndex ≤ p.resume d.leader.log)
      (next : 0 < taken → p.next = p.matched + 1)

theorem resume_next {reached : Nat} {log : Log} (inside : reached ≤ log.length) :
    (⟨reached + 1, reached⟩ : Progress).resume log = reached := by
  simp only [Progress.resume]
  omega

/-- One more round, in any phase. -/
theorem Phase.step {k : Nat} (phase : Phase p d k) (related : d.Related peer p) (me : String)
    (heard answered : Moment) : ∃ d' p', d.round me peer heard answered = some d' ∧
      d'.leader.log = d.leader.log ∧ d'.Related peer p' ∧ Phase p' d' (k + 1) := by
  by_cases ready : d.Ready p
  · -- one more heartbeat is taken over
    obtain ⟨d', reached, round, log, refusals, covers, related'⟩ :=
      related.advances ready me heard answered
    have inside : reached ≤ d'.leader.lastIndex := related'.known
    have resume := resume_next inside
    have ready' : d'.Ready ⟨reached + 1, reached⟩ := by
      rw [Ready, resume]
      exact related'.shared
    have last : d'.leader.lastIndex = d.leader.lastIndex := by rw [lastIndex, log, lastIndex]
    refine ⟨d', _, round, log, related', ?_⟩
    cases phase with
    | early refused few near =>
        refine .ready 1 ready' (by omega) (by omega) (by omega) ?_ (fun _ => rfl)
        rw [resume]
        omega
    | ready taken _ count few refused reaches _ =>
        refine .ready (taken + 1) ready' (by omega) (by omega) (by omega) ?_ (fun _ => rfl)
        rw [resume, Nat.add_mul]
        omega
  · obtain ⟨d', next, round, log, refusals, positive, related', near', ready'⟩ :=
      related.retreats ready me heard answered
    have last : d'.leader.lastIndex = d.leader.lastIndex := by rw [lastIndex, log, lastIndex]
    refine ⟨d', _, round, log, related', ?_⟩
    cases phase with
    | early refused few near =>
        rcases near with rfl | ⟨_, near⟩
        · exact .early (by omega) (Nat.le_refl 1) (.inr ⟨by omega, near'⟩)
        · exact .ready 0 (ready' near) (by omega) (by omega) (by omega) (by omega) (by simp)
    | ready _ ready'' => exact absurd ready'' ready

theorem exists_rounds (related : d.Related peer p) (fresh : d.refusals = 0) (me : String)
    (heard answered : Nat → Moment) (k : Nat) : ∃ d' p',
      d.rounds me peer heard answered k = some d' ∧ d'.leader.log = d.leader.log ∧
        d'.Related peer p' ∧ Phase p' d' k := by
  induction k with
  | zero => exact ⟨d, p, rfl, rfl, related, .early fresh (Nat.zero_le 1) (.inl rfl)⟩
  | succ k ih =>
      obtain ⟨d', p', rounds, log, related', phase⟩ := ih
      obtain ⟨d'', p'', round, log', related'', phase'⟩ :=
        phase.step related' me (heard k) (answered k)
      refine ⟨d'', p'', ?_, log'.trans log, related'', phase'⟩
      rw [Dialogue.rounds, rounds]
      exact round

theorem Phase.refusals_le {k : Nat} (phase : Phase p d k) : d.refusals ≤ 2 := by
  cases phase with
  | early refused few _ => omega
  | ready _ _ _ few => exact few

/-- After two refusals and as many heartbeats as the log fills, there is nothing left to send. -/
theorem Phase.complete {k : Nat} (phase : Phase p d k) (related : d.Related peer p)
    (enough : 2 + d.leader.lastIndex ⌈/⌉ maxEntries ≤ k) :
    p = ⟨d.leader.lastIndex + 1, d.leader.lastIndex⟩ := by
  have known := related.known
  cases phase with
  | early refused few _ => omega
  | ready taken _ count few refused reached next =>
      have filled : d.leader.lastIndex ≤ maxEntries * taken :=
        (ceilDiv_le_iff_le_mul (by decide)).mp (by omega)
      have some : 0 < taken := by
        rcases Nat.eq_zero_or_pos taken with rfl | some
        · omega
        · exact some
      have next := next some
      rw [Nat.mul_comm] at filled
      rw [Nat.min_eq_right filled, Progress.resume, next] at reached
      simp only [lastIndex] at known reached ⊢
      obtain ⟨_, matched⟩ := p
      simp only at known next reached ⊢
      obtain rfl : matched = d.leader.log.length := by omega
      rw [next]

/-- However far apart a leader and a follower are, the follower refuses at most twice, and after two
    rounds and as many as the leader's log fills heartbeats it has the whole log, and the leader
    knows it. -/
theorem follower_catches_up (related : d.Related peer p) (fresh : d.refusals = 0) (me : String)
    (heard answered : Nat → Moment) (k : Nat) :
    ∃ d', d.rounds me peer heard answered k = some d' ∧ d'.leader.log = d.leader.log ∧
      d'.refusals ≤ 2 ∧
      (2 + d.leader.lastIndex ⌈/⌉ maxEntries ≤ k →
        d'.leader.progress[peer]? = some ⟨d.leader.lastIndex + 1, d.leader.lastIndex⟩ ∧
          d'.follower.log.take d.leader.lastIndex = d.leader.log) := by
  obtain ⟨d', p', rounds, log, related', phase⟩ := exists_rounds related fresh me heard answered k
  have last : d'.leader.lastIndex = d.leader.lastIndex := by rw [lastIndex, log, lastIndex]
  refine ⟨d', rounds, log, phase.refusals_le, ?_⟩
  intro enough
  obtain rfl := phase.complete related' (last ▸ enough)
  have shared := related'.shared
  rw [last] at shared
  refine ⟨last ▸ related'.tracked, ?_⟩
  have whole : d'.leader.log.take d.leader.lastIndex = d.leader.log := by
    rw [log]
    exact List.take_of_length_le (Nat.le_refl _)
  rw [whole] at shared
  have upTo := Log.take_of_part shared (Nat.le_refl _)
  rwa [List.take_length] at upTo

/-- A leader that takes its follower for as far as itself, and a follower that has only two of its
    entries, and one of a term that came to nothing. -/
def diverged : Dialogue where
  leader :=
    { role := .leader
      term := 3
      votedFor := some "a"
      leader := some "a"
      log := [⟨1, .barrier⟩, ⟨1, .write "k" .tombstone 0⟩, ⟨3, .barrier⟩,
        ⟨3, .write "k" .tombstone 0⟩, ⟨3, .write "j" .tombstone 0⟩, ⟨3, .write "k" .tombstone 0⟩]
      commit := 1
      store := .empty
      progress := [⟨7, 0⟩]
      deadline := 0
      tickets := [] }
  follower :=
    { role := .candidate
      term := 2
      votedFor := some "b"
      leader := none
      log := [⟨1, .barrier⟩, ⟨1, .write "k" .tombstone 0⟩, ⟨2, .barrier⟩]
      commit := 1
      store := .empty
      progress := []
      deadline := 0
      tickets := [] }
  refusals := 0

theorem follower_catches_up_after_two_refusals :
    diverged.Related 0 ⟨7, 0⟩ ∧ diverged.refusals = 0 ∧ ∃ d',
      diverged.rounds "a" 0 (fun k => ⟨k, 10⟩) (fun k => ⟨k, 10⟩) 3 = some d' ∧ d'.refusals = 2 ∧
        d'.leader.progress[0]? = some ⟨7, 6⟩ ∧ d'.follower.log.take 6 = diverged.leader.log := by
  have matching : Log.Matches diverged.follower.log diverged.leader.log := by
    intro i x y hx hy same
    match i with
    | 0 => rfl
    | 1 => rfl
    | 2 => cases hx; cases hy; cases same
    | i + 3 => cases hx
  have related : diverged.Related 0 ⟨7, 0⟩ :=
    ⟨rfl, rfl, by decide, List.nil_prefix, by decide, by decide, matching, ⟨_, rfl⟩⟩
  obtain ⟨d', rounds, _, _, complete⟩ :=
    follower_catches_up related rfl "a" (fun k => ⟨k, 10⟩) (fun k => ⟨k, 10⟩) 3
  obtain ⟨tracked, log⟩ := complete (by decide)
  have two : (diverged.rounds "a" 0 (fun k => ⟨k, 10⟩) (fun k => ⟨k, 10⟩) 3).map
      Dialogue.refusals = some 2 := by decide
  rw [rounds] at two
  exact ⟨related, rfl, d', rounds, Option.some.inj two, tracked, log⟩

end Dialogue

end QuorumStore
