import QuorumStore.Proofs.Pace
/-! # Followers that wait

Whatever puts the election deadline off puts it off by at least the shortest election timeout. A
member that hears of a leader again before this time is over, and then again and again, has no
election due at any time. Its task may sleep until a deadline that was put off meanwhile; when it
wakes up it looks at the deadline once more, and goes on waiting.
-/

namespace QuorumStore

/-- What a member meets with while its task runs. -/
inductive Encounter where
  | vote (r : VoteRequest)
  | heartbeat (r : HeartbeatRequest)
  | put (key : String) (write : Write)
  | voteReply (e : Election) (reply : Option VoteReply)
  | heartbeatReply (term peer : Nat) (sent : HeartbeatRequest) (reply : Option HeartbeatReply)
  | wakeUp

inductive Happening where
  /-- The task takes its next step if one is due. -/
  | acts (stopping : Bool) (script : Nat → PeerScript)
  /-- The sleep of the task ends, and a wake-up that was given as well goes unheeded. -/
  | oversleeps (script : Nat → PeerScript)
  | meets (e : Encounter)

/-- The term that a message brings. -/
def Encounter.term : Encounter → Nat
  | .vote r => r.term
  | .heartbeat r => r.term
  | .voteReply _ (some reply) => reply.term
  | .heartbeatReply _ _ _ (some reply) => reply.term
  | _ => 0

def Happening.term : Happening → Nat
  | .meets e => e.term
  | _ => 0

def Member.meets (t : Moment) (m : Member) : Encounter → Member
  | .vote r => (m.decideVote t r).2
  | .heartbeat r => (m.handleHeartbeat t r).2
  | .put key write =>
    match m.put key write with
    | .ok (_, m) => m
    | .error _ => m
  | .voteReply e reply => (m.foldVote t e reply).2.2
  | .heartbeatReply term peer sent reply => (m.foldHeartbeat t term peer sent reply).2
  | .wakeUp => { m with wakeUp := true }

namespace Timer

/-- A member that is created at a moment, and its task. -/
def create (t : Moment) (address : String) (peers : List String) (timing : Timing) : Timer :=
  ⟨{ Member.start t.now address peers timing with node := .start t }, .ready⟩

/-- Makes the calls that a step asks for, and tells what was sent. -/
def sends (now : Nat) (script : Nat → PeerScript) : Timer × Sending → Timer × Sending
  | (k, sending) => (k.dispatch now script sending, sending)

def happen (t : Moment) (k : Timer) : Happening → Timer × Sending
  | .acts stopping script =>
    match k.step? t stopping with
    | some step => sends t.now script step
    | none => (k, .nothing)
  | .oversleeps script =>
    match k.sleepOver? t with
    | some step => sends t.now script step
    | none => (k, .nothing)
  | .meets e => ({ k with member := k.member.meets t e }, .nothing)

/-- What becomes of a task in the course of time. -/
def undergo : List (Moment × Happening) → Timer → Timer
  | [], k => k
  | (t, h) :: rest, k => undergo rest (k.happen t h).1

/-- When a leader was heard of last: a heartbeat counts if its term is not over, whatever comes of
    its entries. -/
def hears (heard : Nat) (t : Moment) (k : Timer) : Happening → Nat
  | .meets (.heartbeat r) => if k.member.node.term ≤ r.term then t.now else heard
  | _ => heard

/-- Time passes from one thing to the next, every election timeout is drawn from the window, and less
    than the shortest one goes by since a leader was heard of last. -/
def Fed (timing : Timing) : (heard now : Nat) → Timer → List (Moment × Happening) → Prop
  | _, _, _, [] => True
  | heard, now, k, (t, h) :: rest =>
    now ≤ t.now ∧ (timing.electionMin ≤ t.timeout ∧ t.timeout ≤ timing.electionMax) ∧
      t.now < heard + timing.electionMin ∧
      Fed timing (k.hears heard t h) t.now (k.happen t h).1 rest

end Timer

/-! ## A node that follows -/

namespace Node

variable {t : Moment} {n : Node}

/-- A node goes on following, in the later one of two terms, and its deadline is kept or drawn
    anew. -/
structure Abides (t : Moment) (term : Nat) (n n' : Node) : Prop where
  role : n'.role = .follower
  term : n'.term = max n.term term
  deadline : n'.deadline = n.deadline ∨ n'.deadline = t.now + t.timeout

theorem Abides.refl (role : n.role = .follower) {term : Nat} (le : term ≤ n.term) :
    Abides t term n n :=
  ⟨role, (Nat.max_eq_left le).symm, .inl rfl⟩

theorem abides_stepDown (t : Moment) (term : Nat) (n : Node) :
    Abides t term n (n.stepDown t term) :=
  ⟨stepDown_role t term n, stepDown_term t term n, .inr rfl⟩

theorem abides_heed (role : n.role = .follower) (term : Nat) :
    Abides t term n (n.heed t term) := by
  rw [heed]
  split
  · exact abides_stepDown t term n
  · rename_i current
    exact .refl role (Nat.le_of_not_lt current)

theorem abides_decideVote (role : n.role = .follower) (r : VoteRequest) :
    Abides t r.term n (n.decideVote t r).2 := by
  have heeds := abides_heed (t := t) role r.term
  rcases decideVote_cases t r n with ⟨stale, e⟩ | ⟨_, e⟩ | ⟨_, _, _, e⟩
  · rw [e]
    exact .refl role (Nat.le_of_lt stale)
  · rwa [e]
  · rw [e]
    exact ⟨heeds.role, heeds.term, .inr rfl⟩

theorem abides_handleHeartbeat (role : n.role = .follower) (r : HeartbeatRequest) :
    Abides t r.term n (n.handleHeartbeat t r).2 := by
  rcases handleHeartbeat_cases t r n with
    ⟨stale, e⟩ | ⟨current, _, e⟩ | ⟨current, _, _, taken, took, e⟩
  · rw [e]
    exact .refl role (Nat.le_of_lt stale)
  · rw [e]
    refine ⟨follow_role t r n, ?_, .inr rfl⟩
    rw [follow_term t current, Nat.max_eq_right current]
  · obtain ⟨role', term, deadline⟩ := takeOver_frame took
    rw [e]
    refine ⟨?_, ?_, .inr ?_⟩
    · rw [commitThrough_role, role', follow_role]
    · rw [commitThrough_term, term, follow_term t current, Nat.max_eq_right current]
    · rw [commitThrough_deadline, deadline]
      rfl

/-- A follower counts no votes. -/
theorem abides_fold (role : n.role = .follower) (name : String) (peers : Nat) (reply : VoteReply)
    (e : Election) : Abides t reply.term n (e.fold t name peers reply n).2.2 := by
  rcases Nat.lt_or_ge n.term reply.term with later | current
  · rw [Election.fold, if_pos later]
    exact abides_stepDown t reply.term n
  · rcases fold_cases t name peers reply e n with ⟨later, _⟩ | ⟨_, _, f⟩ | ⟨stands, _⟩
    · omega
    · rw [f]
      exact .refl role current
    · simp [role] at stands

theorem abides_recordReply (role : n.role = .follower) (term peer : Nat) (sent : HeartbeatRequest)
    (reply : HeartbeatReply) :
    Abides t reply.term n (n.recordReply t term peer sent reply).2 := by
  rcases Nat.lt_or_ge n.term reply.term with later | current
  · rw [recordReply, if_pos later]
    exact abides_stepDown t reply.term n
  · rcases recordReply_cases t term peer sent reply n with ⟨later, _⟩ | ⟨_, e⟩ | ⟨leads, _⟩
    · omega
    · rw [e]
      exact .refl role current
    · simp [role] at leads

end Node

/-! ## A member that waits -/

/-- A member that follows and has no election due before a given time. -/
structure Member.Waits (until_ : Nat) (m : Member) : Prop where
  follows : m.node.role = .follower
  later : until_ ≤ m.node.deadline

namespace Member

variable {t : Moment} {m : Member} {until_ : Nat}

theorem Waits.of_abides {m' : Member} {term : Nat} (waits : m.Waits until_)
    (late : until_ ≤ t.now + t.timeout) (abides : m.node.Abides t term m'.node) :
    m'.Waits until_ ∧ m'.node.term = max m.node.term term := by
  refine ⟨⟨abides.role, ?_⟩, abides.term⟩
  cases abides.deadline with
  | inl kept =>
      rw [kept]
      exact waits.later
  | inr drawn =>
      rw [drawn]
      exact late

/-- A member that waits takes no write. -/
theorem Waits.put_refused (waits : m.Waits until_) (key : String) (write : Write) :
    ∃ e, m.put key write = .error e := by
  cases staged : m.node.stageWrite key write with
  | error e => exact ⟨e, by rw [put, staged]⟩
  | ok staging =>
      obtain ⟨leads, _⟩ := Node.stageWrite_ok staged
      simp [waits.follows] at leads

/-- Whatever a member meets with that waits, it goes on waiting, and its term is later only if there
    was a later one in a message. -/
theorem Waits.meets (waits : m.Waits until_) (late : until_ ≤ t.now + t.timeout) (e : Encounter) :
    (m.meets t e).Waits until_ ∧ (m.meets t e).node.term = max m.node.term e.term := by
  have rests : m.node.Abides t 0 m.node := .refl waits.follows (Nat.zero_le _)
  cases e with
  | vote r => exact waits.of_abides late (Node.abides_decideVote waits.follows r)
  | heartbeat r => exact waits.of_abides late (Node.abides_handleHeartbeat waits.follows r)
  | put key write =>
      obtain ⟨e, refused⟩ := waits.put_refused key write
      rw [Member.meets, refused]
      exact waits.of_abides late rests
  | voteReply e reply =>
      cases reply with
      | none => exact waits.of_abides late rests
      | some reply =>
          refine waits.of_abides late ?_
          rw [Member.meets, foldVote_some_node]
          exact Node.abides_fold waits.follows m.address m.peers.length reply e
  | heartbeatReply term peer sent reply =>
      cases reply with
      | none => exact waits.of_abides late rests
      | some reply =>
          exact waits.of_abides late (Node.abides_recordReply waits.follows term peer sent reply)
  | wakeUp => exact waits.of_abides late rests

/-- No election is due before the time. -/
theorem Waits.openElection (waits : m.Waits until_) (early : t.now < until_) :
    m.openElection t = (none, m) := by
  have later := waits.later
  have due : m.node.electionDue t.now = false := by
    simp only [Node.electionDue, Bool.and_eq_false_imp, decide_eq_false_iff_not]
    omega
  rw [Member.openElection, due]
  rfl

end Member

/-! ## A task that waits -/

/-- No answers are out. -/
def Phase.Alone : Phase → Prop
  | .electing .. | .replicating .. => False
  | .ready | .watching _ | .pausing _ | .stopped => True

namespace Timer

variable {t : Moment} {k k' : Timer} {until_ : Nat} {sending : Sending}

structure Waits (until_ : Nat) (k : Timer) : Prop where
  member : k.member.Waits until_
  alone : k.phase.Alone

/-- A task that is asked to stop stops, or does what it does anyway. -/
theorem step?_stopping (due : k.step? t true = some (k', sending)) :
    (k' = ⟨k.member, .stopped⟩ ∧ sending = .nothing) ∨ k.step? t false = some (k', sending) := by
  obtain ⟨m, phase⟩ := k
  cases phase with
  | ready | watching | pausing =>
      obtain ⟨rfl, rfl⟩ := Prod.mk.inj (Option.some.inj due)
      exact .inl ⟨rfl, rfl⟩
  | electing | replicating | stopped => exact .inr due

/-- A step of a task that waits changes nothing of its member but the wake-up. -/
theorem Waits.acts (waits : k.Waits until_) (early : t.now < until_) (acts : k.Acts t k' sending) :
    sending = .nothing ∧ k'.member.node = k.member.node ∧ k'.phase.Alone := by
  cases acts with
  | replicates m term requests opens =>
      have role : m.node.role = .follower := waits.member.follows
      rw [Member.openRound, role] at opens
      simp at opens
  | watches | rouses | awakes | resumes => exact ⟨rfl, rfl, trivial⟩
  | campaigns m m' deadline request election opens =>
      rw [waits.member.openElection early] at opens
      simp at opens
  | stays m m' deadline opens =>
      rw [waits.member.openElection early] at opens
      obtain ⟨_, rfl⟩ := Prod.mk.inj opens
      exact ⟨rfl, rfl, trivial⟩
  | counts | concludes | records | pauses => exact waits.alone.elim

/-- A task whose member is left as it is goes on waiting. -/
theorem Waits.still (waits : k.Waits until_) (node : k'.member.node = k.member.node)
    (alone : k'.phase.Alone) :
    k'.Waits until_ ∧ k'.member.node.term = max k.member.node.term 0 := by
  have follows : k'.member.node.role = .follower := by
    rw [node]
    exact waits.member.follows
  have later : until_ ≤ k'.member.node.deadline := by
    rw [node]
    exact waits.member.later
  exact ⟨⟨⟨follows, later⟩, alone⟩, by rw [node, Nat.max_zero]⟩

/-- Whatever happens before the time, a task that waits sends nothing and goes on waiting, and the
    term of its member is later only if there was a later one in a message. -/
theorem Waits.happen (waits : k.Waits until_) (early : t.now < until_)
    (late : until_ ≤ t.now + t.timeout) (h : Happening) :
    (k.happen t h).2 = .nothing ∧ (k.happen t h).1.Waits until_ ∧
      (k.happen t h).1.member.node.term = max k.member.node.term h.term := by
  cases h with
  | acts stopping script =>
      rw [Timer.happen]
      cases due : k.step? t stopping with
      | none => exact ⟨rfl, waits.still rfl waits.alone⟩
      | some step =>
          obtain ⟨k', sending⟩ := step
          have quiet : sending = .nothing ∧ k'.member.node = k.member.node ∧ k'.phase.Alone := by
            cases stopping with
            | false => exact waits.acts early (acts_of_step? due)
            | true =>
                cases step?_stopping due with
                | inl stops =>
                    obtain ⟨rfl, rfl⟩ := stops
                    exact ⟨rfl, rfl, trivial⟩
                | inr acts => exact waits.acts early (acts_of_step? acts)
          obtain ⟨rfl, node, alone⟩ := quiet
          exact ⟨rfl, waits.still node alone⟩
  | oversleeps script =>
      rw [Timer.happen]
      cases due : k.sleepOver? t with
      | none => exact ⟨rfl, waits.still rfl waits.alone⟩
      | some step =>
          obtain ⟨k', sending⟩ := step
          obtain ⟨rfl, node, alone⟩ := waits.acts early (acts_of_sleepOver? due)
          exact ⟨rfl, waits.still node alone⟩
  | meets e =>
      obtain ⟨member, term⟩ := waits.member.meets late e
      exact ⟨rfl, ⟨member, waits.alone⟩, term⟩

/-- Whoever hears of a leader waits for one more election timeout. -/
theorem Waits.hears {heard shortest : Nat} (waits : k.Waits (heard + shortest))
    (early : t.now < heard + shortest) (after : heard ≤ t.now) (drawn : shortest ≤ t.timeout)
    (h : Happening) : (k.happen t h).1.Waits (k.hears heard t h + shortest) := by
  obtain ⟨_, next, _⟩ := waits.happen early (by omega) h
  cases h with
  | acts | oversleeps => exact next
  | meets e =>
      cases e with
      | vote | put | voteReply | heartbeatReply | wakeUp => exact next
      | heartbeat r =>
          rw [Timer.hears]
          split
          · rename_i current
            refine ⟨⟨next.member.follows, ?_⟩, next.alone⟩
            have deadline : (k.happen t (.meets (.heartbeat r))).1.member.node.deadline =
                t.now + t.timeout := Node.handleHeartbeat_deadline t current
            omega
          · exact next

theorem hears_le {heard : Nat} (after : heard ≤ t.now) (k : Timer) (h : Happening) :
    k.hears heard t h ≤ t.now := by
  cases h with
  | acts | oversleeps => exact after
  | meets e =>
      cases e with
      | vote | put | voteReply | heartbeatReply | wakeUp => exact after
      | heartbeat r =>
          rw [Timer.hears]
          split
          · exact Nat.le_refl _
          · exact after

/-- A task that is fed waits all the time. -/
theorem Waits.undergo {timing : Timing} {heard now : Nat} {before : List (Moment × Happening)}
    (waits : k.Waits (heard + timing.electionMin)) (after : heard ≤ now)
    {schedule : List (Moment × Happening)} (fed : k.Fed timing heard now schedule) {h : Happening}
    (part : before ++ [(t, h)] <+: schedule) :
    let k' := k.undergo before
    (k'.happen t h).2 = .nothing ∧ (k'.happen t h).1.member.node.role = .follower ∧
      (k'.happen t h).1.member.node.term = max k'.member.node.term h.term := by
  obtain ⟨rest, rfl⟩ := part
  induction before generalizing k heard now with
  | nil =>
      obtain ⟨inOrder, ⟨drawn, _⟩, early, _⟩ := fed
      obtain ⟨silent, next, term⟩ := waits.happen early (by omega) h
      exact ⟨silent, next.member.follows, term⟩
  | cons first before ih =>
      obtain ⟨t', h'⟩ := first
      obtain ⟨inOrder, ⟨drawn, _⟩, early, fed⟩ := fed
      have after : heard ≤ t'.now := Nat.le_trans after inOrder
      exact ih (waits.hears early after drawn h') (hears_le after k h') fed

theorem waits_create {created : Moment} {timing : Timing}
    (drawn : timing.electionMin ≤ created.timeout) (address : String) (peers : List String) :
    (create created address peers timing).Waits (created.now + timing.electionMin) :=
  ⟨⟨rfl, Nat.add_le_add_left drawn created.now⟩, trivial⟩

/-- A member hears of a leader before the shortest election timeout is over since it was created,
    and again and again before it is over since the last time, whatever else happens. Then it never
    becomes a candidate: it follows all the time, it sends nothing, and its term is later only if
    there was a later one in a message. -/
theorem heartbeats_suppress_elections {timing : Timing} {created : Moment}
    (window : timing.electionMin ≤ created.timeout ∧ created.timeout ≤ timing.electionMax)
    (address : String) (peers : List String) {schedule : List (Moment × Happening)}
    (fed : (create created address peers timing).Fed timing created.now created.now schedule)
    {before : List (Moment × Happening)} {t : Moment} {h : Happening}
    (part : before ++ [(t, h)] <+: schedule) :
    let k := (create created address peers timing).undergo before
    (k.happen t h).2 = .nothing ∧ (k.happen t h).1.member.node.role = .follower ∧
      (k.happen t h).1.member.node.term = max k.member.node.term h.term :=
  (waits_create window.1 address peers).undergo (Nat.le_refl _) fed part

instance Fed.decidable (timing : Timing) : ∀ (schedule : List (Moment × Happening))
    (heard now : Nat) (k : Timer), Decidable (k.Fed timing heard now schedule)
  | [], _, _, _ => .isTrue trivial
  | (t, h) :: rest, heard, _, k =>
    have := Fed.decidable timing rest (k.hears heard t h) t.now (k.happen t h).1
    inferInstanceAs (Decidable (_ ∧ _ ∧ _ ∧ _))

/-- A heartbeat is refused for what it says about the log, the task sleeps until a deadline that was
    put off, there is a vote for somebody else, and the task sleeps once more too short. -/
def restless : List (Moment × Happening) :=
  [(⟨0, 150⟩, .acts false fun _ => .absent),
    (⟨100, 150⟩, .meets (.heartbeat ⟨1, 0, "http://b", 5, 1, []⟩)),
    (⟨200, 150⟩, .acts false fun _ => .absent),
    (⟨200, 150⟩, .acts false fun _ => .absent),
    (⟨210, 300⟩, .meets (.vote ⟨3, 0, 0, 0, some "http://c"⟩)),
    (⟨240, 150⟩, .meets (.heartbeat ⟨3, 0, "http://c", 0, 0, []⟩)),
    (⟨389, 150⟩, .oversleeps fun _ => .absent)]

theorem heartbeats_suppress_elections_of_a_restless_task :
    let k := (create ⟨0, 200⟩ "http://a" ["http://b", "http://c"] ⟨150, 300, 30, 50, 1000⟩).undergo
      (restless.take 6)
    k.member.node.deadline = 390 ∧
      (k.happen ⟨389, 150⟩ (.oversleeps fun _ => .absent)).2 = .nothing ∧
      (k.happen ⟨389, 150⟩ (.oversleeps fun _ => .absent)).1.member.node.role = .follower ∧
      (k.happen ⟨389, 150⟩ (.oversleeps fun _ => .absent)).1.member.node.term = 3 := by
  have fed : (create ⟨0, 200⟩ "http://a" ["http://b", "http://c"] ⟨150, 300, 30, 50, 1000⟩).Fed
      ⟨150, 300, 30, 50, 1000⟩ 0 0 restless := by decide +kernel
  have window : (Timing.mk 150 300 30 50 1000).electionMin ≤ (Moment.mk 0 200).timeout ∧
      (Moment.mk 0 200).timeout ≤ (Timing.mk 150 300 30 50 1000).electionMax := by decide
  have part : restless.take 6 ++ [(⟨389, 150⟩, .oversleeps fun _ => .absent)] <+: restless :=
    ⟨[], rfl⟩
  exact ⟨rfl, heartbeats_suppress_elections window "http://a" ["http://b", "http://c"] fed part⟩

end Timer

end QuorumStore
