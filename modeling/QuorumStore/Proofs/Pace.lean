import QuorumStore.Config.Settings
import QuorumStore.Simulation.Bench
import QuorumStore.Proofs.Lasting
import QuorumStore.Proofs.MemberSteps
import QuorumStore.Proofs.TimerSteps
/-! # The pace of heartbeats

A leader begins a round of heartbeats, waits until all calls of the round are over, and pauses. No
call takes longer than the timing allows for one, so the next round begins after one call and one
pause at the latest, however the peers behave. Whether that is soon enough for those who follow is
decided by the two together.
-/

namespace QuorumStore

/-! ## One slot for each peer -/

namespace Node

variable {peers : Nat} {n n' : Node}

/-- A leader keeps a slot for each of its peers. -/
def Slotted (peers : Nat) (n : Node) : Prop := n.role = .leader → n.progress.length = peers

theorem Slotted.of_idle (h : n.Slotted peers) (idle : Idle n n') : n'.Slotted peers := by
  intro leads
  obtain ⟨role, _, progress⟩ := idle.leads leads
  rw [progress]
  exact h role

theorem slotted_becomeLeader (name : String) (n : Node) :
    (n.becomeLeader name peers).Slotted peers := by
  intro _
  simp

@[simp] theorem commitThrough_deadline (target : Nat) (n : Node) :
    (n.commitThrough target).deadline = n.deadline := by
  rw [commitThrough]
  split <;> rfl

theorem Slotted.handleHeartbeat (h : n.Slotted peers) (m : Moment) (r : HeartbeatRequest) :
    (n.handleHeartbeat m r).2.Slotted peers := by
  rcases handleHeartbeat_cases m r n with ⟨_, e⟩ | ⟨_, _, e⟩ | ⟨_, _, _, taken, took, e⟩
  · rwa [e]
  · rw [e]
    intro leads
    simp at leads
  · have role : taken.role = .follower := (takeOver_frame took).1.trans (follow_role m r n)
    rw [e]
    intro leads
    simp [role] at leads

theorem Slotted.count (h : n.Slotted peers) (name : String) (e : Election) :
    (e.count name peers n).2.Slotted peers := by
  rcases count_cases name peers e n with ⟨_, _, c⟩ | ⟨_, _, _, c⟩
  · rwa [c]
  · rw [c]
    exact slotted_becomeLeader name n

theorem Slotted.fold (h : n.Slotted peers) (m : Moment) (name : String) (reply : VoteReply)
    (e : Election) : (e.fold m name peers reply n).2.2.Slotted peers := by
  rcases fold_cases m name peers reply e n with ⟨_, f⟩ | ⟨_, _, f⟩ | ⟨_, _, _, f⟩
  · rw [f]
    exact h.of_idle (idle_stepDown m reply.term n)
  · rwa [f]
  · rw [f]
    exact slotted_becomeLeader name n

theorem Slotted.recordReply (h : n.Slotted peers) (m : Moment) (term peer : Nat)
    (sent : HeartbeatRequest) (reply : HeartbeatReply) :
    (n.recordReply m term peer sent reply).2.Slotted peers := by
  rcases recordReply_leads m term peer sent reply n with
    idle | ⟨role, _, n', rfl, _, _, _, progress, _⟩
  · exact h.of_idle idle
  · intro _
    rw [progress, List.length_modify]
    exact h role

theorem Slotted.stageWrite (h : n.Slotted peers) {key : String} {write : Write}
    {staged : Record × Nat} (ok : n.stageWrite key write = .ok (staged, n')) :
    n'.Slotted peers := by
  obtain ⟨role, _, _, _, progress, _⟩ := stageWrite_leads ok
  intro _
  rw [progress]
  exact h role

/-- Whoever takes a heartbeat for one of its leader counts its deadline from there. -/
theorem handleHeartbeat_deadline (m : Moment) {r : HeartbeatRequest} (current : n.term ≤ r.term) :
    (n.handleHeartbeat m r).2.deadline = m.now + m.timeout := by
  rcases handleHeartbeat_cases m r n with ⟨stale, _⟩ | ⟨_, _, e⟩ | ⟨_, _, _, taken, took, e⟩
  · omega
  · rw [e]
    rfl
  · rw [e, commitThrough_deadline, (takeOver_frame took).2.2]
    rfl

end Node

/-! ## What a member keeps -/

/-- What no step of a member changes, and what every step keeps. -/
structure Member.Lasts (m m' : Member) : Prop where
  peers : m'.peers = m.peers
  timing : m'.timing = m.timing
  slotted : m.node.Slotted m.peers.length → m'.node.Slotted m.peers.length

namespace Member

variable {m m' m'' : Member}

theorem Lasts.refl (m : Member) : m.Lasts m := ⟨rfl, rfl, id⟩

theorem Lasts.trans (h : m.Lasts m') (h' : m'.Lasts m'') : m.Lasts m'' where
  peers := h'.peers.trans h.peers
  timing := h'.timing.trans h.timing
  slotted slotted := by
    have after := h'.slotted
    rw [h.peers] at after
    exact after (h.slotted slotted)

theorem lasts_disturb (t : Moment) (d : Disturbance) (m : Member) : m.Lasts (m.disturb t d) := by
  cases d with
  | vote r => exact ⟨rfl, rfl, fun h => h.of_idle (Node.idle_decideVote t r m.node)⟩
  | heartbeat r => exact ⟨rfl, rfl, fun h => h.handleHeartbeat t r⟩
  | candidacy => exact ⟨rfl, rfl, fun h => h.of_idle (Node.idle_beginCandidacy t m.address m.node)⟩

theorem lasts_put {key : String} {write : Write} {staged : Record × Nat}
    (ok : m.put key write = .ok (staged, m')) : m.Lasts m' := by
  simp only [put] at ok
  split at ok
  · simp at ok
  · rename_i stages
    obtain ⟨rfl, rfl⟩ := Prod.mk.inj (Except.ok.inj ok)
    exact ⟨rfl, rfl, fun h => h.stageWrite stages⟩

theorem lasts_settle (tally : Tally) {n : Node}
    (slotted : m.node.Slotted m.peers.length → n.Slotted m.peers.length) :
    m.Lasts (m.settle tally n) := by
  cases tally <;> exact ⟨rfl, rfl, slotted⟩

theorem lasts_openElection (t : Moment) (m : Member) : m.Lasts (m.openElection t).2 := by
  have stands : m.Lasts ((m.become (m.node.beginCandidacy t m.address).2).count .elections []) :=
    ⟨rfl, rfl, fun h => h.of_idle (Node.idle_beginCandidacy t m.address m.node)⟩
  rw [openElection]
  split
  · simp only
    split
    · exact stands.trans (lasts_settle _ fun h => h.count m.address _)
    · exact stands
  · exact .refl m

theorem lasts_foldVote (t : Moment) (e : Election) (reply : Option VoteReply) (m : Member) :
    m.Lasts (m.foldVote t e reply).2.2 := by
  cases reply with
  | none => exact ⟨rfl, rfl, id⟩
  | some r => exact lasts_settle _ fun h => h.fold t m.address r e

theorem lasts_foldHeartbeat (t : Moment) (term peer : Nat) (sent : HeartbeatRequest)
    (reply : Option HeartbeatReply) (m : Member) :
    m.Lasts (m.foldHeartbeat t term peer sent reply).2 := by
  cases reply with
  | none => exact ⟨rfl, rfl, id⟩
  | some r => exact ⟨rfl, rfl, fun h => h.recordReply t term peer sent r⟩

/-- A round has a heartbeat for every peer. -/
theorem openRound_length {term : Nat} {requests : List HeartbeatRequest}
    (slotted : m.node.Slotted m.peers.length) (opens : m.openRound = some (term, requests)) :
    requests.length = m.peers.length := by
  rw [openRound] at opens
  split at opens
  · rename_i leads
    obtain ⟨_, rfl⟩ := Prod.mk.inj (Option.some.inj opens)
    have all : ∀ peer ∈ List.range m.peers.length,
        (m.node.heartbeatFor? peer m.address).isSome = true := by
      intro peer inside
      rw [List.mem_range, ← slotted leads] at inside
      simp [Node.heartbeatFor?, List.getElem?_eq_getElem inside]
    rw [List.filterMap_length_eq_length.mpr all, List.length_range]
  · simp at opens

end Member

/-! ## The task in time -/

/-- The heartbeat for one peer among what is sent. -/
def Sending.heartbeat? (peer : Nat) : Sending → Option HeartbeatRequest
  | .heartbeats _ requests => requests[peer]?
  | _ => none

/-- Makes the calls that a step asks for. What each peer does with its call is in its script. -/
def Timer.dispatch (now : Nat) (script : Nat → PeerScript) (sending : Sending) (k : Timer) : Timer :=
  match sending with
  | .nothing => k
  | .votes election request =>
    let calls := (List.range k.member.peers.length).map fun i =>
      (script i).call now k.member.timing.call i request (script i).vote
    ⟨k.member, .electing election (Call.sort calls)⟩
  | .heartbeats term requests =>
    let calls := requests.zipIdx.map fun (request, i) =>
      (script i).call now k.member.timing.call i request (script i).heartbeat
    ⟨k.member, .replicating term (Call.sort calls)⟩

/-- These are the calls that a drive makes. -/
theorem Drive.send_dispatch (sending : Sending) (d : Drive) :
    (⟨(d.send sending).bench.member, (d.send sending).phase⟩ : Timer) =
      Timer.dispatch d.bench.now d.script sending ⟨d.bench.member, d.phase⟩ := by
  cases sending <;> rfl

/-- The task of a member and the time. -/
structure Clock where
  now : Nat
  timer : Timer

namespace Clock

variable {timing : Timing} {x y z : Clock} {sending : Sending}

def leads (x : Clock) : Prop := x.timer.member.node.role = .leader

/-- What happens next, and what is sent. The task takes each step when it is due, and time passes
    while none is; meanwhile others ask the member, and clients write. Where a sleep is over and
    somebody has woken the task up, either may come first. Every call has a script of its own. -/
inductive Step : Clock → Sending → Clock → Prop where
  | acts (x : Clock) (timeout : Nat) (script : Nat → PeerScript) (k : Timer) (sending : Sending)
      (due : x.timer.step? ⟨x.now, timeout⟩ false = some (k, sending)) :
      Step x sending ⟨x.now, k.dispatch x.now script sending⟩
  | oversleeps (x : Clock) (timeout : Nat) (script : Nat → PeerScript) (k : Timer)
      (sending : Sending) (due : x.timer.sleepOver? ⟨x.now, timeout⟩ = some (k, sending)) :
      Step x sending ⟨x.now, k.dispatch x.now script sending⟩
  | asked (x : Clock) (t : Moment) (d : Disturbance) :
      Step x .nothing { x with timer := ⟨x.timer.member.disturb t d, x.timer.phase⟩ }
  | writes (x : Clock) (key : String) (write : Write) (staged : Record × Nat) (m : Member)
      (ok : x.timer.member.put key write = .ok (staged, m)) :
      Step x .nothing { x with timer := ⟨m, x.timer.phase⟩ }
  | counts (x : Clock) (metrics : Metrics) :
      Step x .nothing { x with timer := ⟨{ x.timer.member with metrics }, x.timer.phase⟩ }
  | passes (x : Clock) (later : Nat) (after : x.now < later)
      (rests : ∀ now timeout, x.now ≤ now → now < later →
        x.timer.step? ⟨now, timeout⟩ false = none) :
      Step x .nothing { x with now := later }

/-- The states that a member and its task get into, from their start on. -/
inductive Reachable (timing : Timing) : Clock → Prop where
  | start (now : Nat) (address : String) (peers : List String) :
      Reachable timing ⟨now, ⟨.start now address peers timing, .ready⟩⟩
  | step {x y : Clock} {sending : Sending} (before : Reachable timing x)
      (step : Step x sending y) : Reachable timing y

/-- The time in which a member leads and begins no heartbeat to a peer. -/
inductive Lull (peer : Nat) : Clock → Clock → Prop where
  | here (x : Clock) (leads : x.leads) : Lull peer x x
  | on {x y z : Clock} {sending : Sending} (lull : Lull peer x y) (step : Step y sending z)
      (silent : sending.heartbeat? peer = none) (leads : z.leads) : Lull peer x z

/-! ## What a task keeps -/

theorem lasts_takeVote (t : Moment) (e : Election) (call : Call VoteRequest VoteReply)
    (rest : List (Call VoteRequest VoteReply)) (k : Timer) :
    k.member.Lasts (k.takeVote t e call rest).member := by
  have lasts := Member.lasts_foldVote t e call.reply k.member
  rw [Timer.takeVote]
  split <;> rename_i folds <;> rwa [folds] at lasts

theorem lasts_takeHeartbeat (t : Moment) (term : Nat) (call : Call HeartbeatRequest HeartbeatReply)
    (rest : List (Call HeartbeatRequest HeartbeatReply)) (k : Timer) :
    k.member.Lasts (k.takeHeartbeat t term call rest).member := by
  have lasts := Member.lasts_foldHeartbeat t term call.peer call.sent call.reply k.member
  rw [Timer.takeHeartbeat]
  split <;> rename_i folds <;> rwa [folds] at lasts

theorem lasts_of_acts {t : Moment} {k k' : Timer} (acts : k.Acts t k' sending) :
    k.member.Lasts k'.member := by
  cases acts with
  | replicates | watches | resumes | concludes | pauses => exact .refl _
  | rouses | awakes => exact ⟨rfl, rfl, id⟩
  | campaigns m m' deadline request election opens =>
      have lasts := Member.lasts_openElection t m
      rwa [opens] at lasts
  | stays m m' deadline opens =>
      have lasts := Member.lasts_openElection t m
      rwa [opens] at lasts
  | counts m e call rest => exact lasts_takeVote t e call rest _
  | records m term call rest => exact lasts_takeHeartbeat t term call rest _

theorem dispatch_member (now : Nat) (script : Nat → PeerScript) (sending : Sending) (k : Timer) :
    (k.dispatch now script sending).member = k.member := by
  cases sending <;> rfl

theorem lasts_dispatch {t : Moment} {k k' : Timer} (acts : k.Acts t k' sending) (now : Nat)
    (script : Nat → PeerScript) : k.member.Lasts (k'.dispatch now script sending).member := by
  rw [dispatch_member]
  exact lasts_of_acts acts

theorem Step.lasts (step : Step x sending y) : x.timer.member.Lasts y.timer.member := by
  cases step with
  | acts timeout script k _ due => exact lasts_dispatch (Timer.acts_of_step? due) x.now script
  | oversleeps timeout script k _ due =>
      exact lasts_dispatch (Timer.acts_of_sleepOver? due) x.now script
  | asked t d => exact Member.lasts_disturb t d x.timer.member
  | writes key write staged m ok => exact Member.lasts_put ok
  | counts metrics => exact ⟨rfl, rfl, id⟩
  | passes later after rests => exact .refl _

/-- What is known of every member in time. -/
structure Regular (timing : Timing) (x : Clock) : Prop where
  timing : x.timer.member.timing = timing
  slotted : x.timer.member.node.Slotted x.timer.member.peers.length

theorem Regular.step (h : x.Regular timing) (step : Step x sending y) : y.Regular timing := by
  have lasts := step.lasts
  refine ⟨lasts.timing.trans h.timing, ?_⟩
  rw [lasts.peers]
  exact lasts.slotted h.slotted

theorem Reachable.regular (h : Reachable timing x) : x.Regular timing := by
  induction h with
  | start now address peers => exact ⟨rfl, fun leads => by simp [Member.start, Node.start] at leads⟩
  | step _ step ih => exact ih.step step

/-! ## From round to round -/

theorem mem_insert {σ ρ : Type} {call c : Call σ ρ} {calls : List (Call σ ρ)}
    (mem : c ∈ call.insert calls) : c = call ∨ c ∈ calls := by
  induction calls with
  | nil => exact .inl (List.mem_singleton.mp mem)
  | cons first rest ih =>
      rw [Call.insert] at mem
      split at mem
      · exact List.mem_cons.mp mem
      · cases List.mem_cons.mp mem with
        | inl same => exact .inr (same ▸ .head rest)
        | inr later => exact (ih later).imp_right (List.mem_cons_of_mem first)

theorem mem_sort {σ ρ : Type} {c : Call σ ρ} {calls : List (Call σ ρ)} (mem : c ∈ Call.sort calls) :
    c ∈ calls := by
  have all : ∀ sorted, c ∈ calls.foldl (fun sorted call => call.insert sorted) sorted →
      c ∈ sorted ∨ c ∈ calls := by
    clear mem
    induction calls with
    | nil => exact fun sorted mem => .inl mem
    | cons call rest ih =>
        intro sorted mem
        rcases ih _ mem with before | later
        · cases mem_insert before with
          | inl same => exact .inr (same ▸ .head rest)
          | inr old => exact .inl old
        · exact .inr (.tail call later)
  exact (all [] mem).resolve_left (by simp)

/-- Between two rounds: the calls of the first are over at one time, and at another the next begins,
    at the latest. -/
def Between (answered latest : Nat) (x : Clock) : Prop :=
  match x.timer.phase with
  | .replicating _ calls => x.now ≤ answered ∧ ∀ call ∈ calls, call.ends ≤ answered
  | .pausing wakes => x.now ≤ latest ∧ wakes ≤ latest
  | .ready => x.now ≤ latest
  | _ => False

variable {answered latest peer : Nat}

theorem Between.now_le (h : x.Between answered latest) (le : answered ≤ latest) :
    x.now ≤ latest := by
  rw [Between] at h
  split at h
  · exact Nat.le_trans h.1 le
  · exact h.1
  · exact h
  · exact h.elim

/-- Only a round sends heartbeats. -/
theorem openRound_of_acts {t : Moment} {k k' : Timer} {term : Nat}
    {requests : List HeartbeatRequest} (acts : k.Acts t k' (.heartbeats term requests)) :
    k.member.openRound = some (term, requests) := by
  cases acts with
  | replicates _ _ _ opens => exact opens

theorem Regular.begins_of_acts {t : Moment} {k k' : Timer} {now : Nat}
    (h : Regular timing ⟨now, k⟩) {r : HeartbeatRequest} (acts : k.Acts t k' sending)
    (sent : sending.heartbeat? peer = some r) (script : Nat → PeerScript) :
    peer < (k'.dispatch now script sending).member.peers.length ∧
      Between (now + timing.call) latest ⟨now, k'.dispatch now script sending⟩ := by
  cases sending with
  | nothing => simp [Sending.heartbeat?] at sent
  | votes election request => simp [Sending.heartbeat?] at sent
  | heartbeats term requests =>
      have lasts := lasts_of_acts acts
      have length := Member.openRound_length h.slotted (openRound_of_acts acts)
      obtain ⟨inside, _⟩ := List.getElem?_eq_some_iff.mp sent
      refine ⟨?_, Nat.le_add_right .., fun call mem => ?_⟩
      · rw [dispatch_member, lasts.peers, ← length]
        exact inside
      · obtain ⟨⟨request, i⟩, _, rfl⟩ := List.mem_map.mp (mem_sort mem)
        have limit : k'.member.timing.call = timing.call := by rw [lasts.timing, h.timing]
        simp only [PeerScript.call, limit]
        omega

/-- Where a heartbeat to a peer begins, a round begins in which no call lasts longer than one may. -/
theorem Regular.begins (h : x.Regular timing) {r : HeartbeatRequest} (step : Step x sending y)
    (sent : sending.heartbeat? peer = some r) :
    peer < y.timer.member.peers.length ∧ y.Between (x.now + timing.call) latest := by
  cases step with
  | acts timeout script k _ due => exact h.begins_of_acts (Timer.acts_of_step? due) sent script
  | oversleeps timeout script k _ due =>
      exact h.begins_of_acts (Timer.acts_of_sleepOver? due) sent script
  | asked | writes | counts | passes => simp [Sending.heartbeat?] at sent

/-- If the next round does not begin with what the task does, it is still to begin in time. -/
theorem Between.acts {now timeout : Nat} {script : Nat → PeerScript} {k k' : Timer}
    (h : Between answered latest ⟨now, k⟩) (regular : Regular timing ⟨now, k⟩)
    (pause : answered + timing.heartbeat ≤ latest) (leads : k.member.node.role = .leader)
    (inside : peer < k.member.peers.length) (acts : k.Acts ⟨now, timeout⟩ k' sending)
    (silent : sending.heartbeat? peer = none) :
    Between answered latest ⟨now, k'.dispatch now script sending⟩ := by
  cases acts with
  | replicates m term requests opens =>
      -- the round begins, and the peer cannot be missing in it
      simp only [Sending.heartbeat?, List.getElem?_eq_none_iff] at silent
      rw [Member.openRound_length regular.slotted opens] at silent
      exact absurd inside (Nat.not_lt_of_le silent)
  | watches m follows =>
      rw [Member.openRound, if_pos leads] at follows
      simp at follows
  | awakes | resumes => exact h.1
  | records m term call rest =>
      obtain ⟨before, ends⟩ := h
      simp only [Timer.takeHeartbeat, Timer.dispatch]
      split
      · exact ⟨before, fun c mem => ends c (.tail call mem)⟩
      · exact ⟨before, by simp⟩
  | pauses m term =>
      have before : now ≤ answered := h.1
      have timing : m.timing = timing := regular.timing
      simp only [Between, Timer.dispatch, timing]
      omega
  | rouses | campaigns | stays | counts | concludes => exact h.elim

/-- Time that passes while the task rests does not pass the time at which it acts again. -/
theorem Between.passes (h : x.Between answered latest) {later : Nat} (after : x.now < later)
    (rests : ∀ now timeout, x.now ≤ now → now < later →
      x.timer.step? ⟨now, timeout⟩ false = none) :
    Between answered latest { x with now := later } := by
  obtain ⟨now, m, phase⟩ := x
  have notYet : ∀ due, (⟨m, phase⟩ : Timer).due? = some due → later ≤ due := by
    intro due next
    have still := rests (later - 1) 0 (Nat.le_sub_one_of_lt after) (by omega)
    have before : later - 1 < due := Timer.lt_due? still next
    omega
  cases phase with
  | ready =>
      have now : later ≤ 0 := notYet 0 rfl
      omega
  | pausing wakes =>
      have wakesBy : wakes ≤ latest := h.2
      have until_ := notYet _ rfl
      refine ⟨?_, wakesBy⟩
      simp only
      split at until_ <;> omega
  | replicating term calls =>
      have until_ := notYet _ rfl
      cases calls with
      | nil =>
          have now : later ≤ 0 := until_
          omega
      | cons call rest =>
          have endsBy := h.2 call (.head rest)
          exact ⟨Nat.le_trans until_ endsBy, h.2⟩
  | watching | electing | stopped => exact h.elim

/-- While the next round has not begun, it is still to begin in time. -/
theorem Between.step (h : x.Between answered latest) (regular : x.Regular timing)
    (pause : answered + timing.heartbeat ≤ latest) (leads : x.leads)
    (inside : peer < x.timer.member.peers.length) (step : Step x sending y)
    (silent : sending.heartbeat? peer = none) : y.Between answered latest := by
  cases step with
  | asked | writes | counts => exact h
  | acts timeout script k _ due =>
      exact h.acts regular pause leads inside (Timer.acts_of_step? due) silent
  | oversleeps timeout script k _ due =>
      exact h.acts regular pause leads inside (Timer.acts_of_sleepOver? due) silent
  | passes later after rests => exact h.passes after rests

/-- Throughout a lull the next round is still to begin in time. -/
theorem Lull.between (lull : Lull peer x y) (regular : x.Regular timing)
    (inside : peer < x.timer.member.peers.length) (start : x.Between answered latest)
    (pause : answered + timing.heartbeat ≤ latest) :
    y.Regular timing ∧ y.leads ∧ peer < y.timer.member.peers.length ∧
      y.Between answered latest := by
  induction lull with
  | here leads => exact ⟨regular, leads, inside, start⟩
  | on _ step silent leads ih =>
      obtain ⟨regular, led, inside, between⟩ := ih
      refine ⟨regular.step step, leads, ?_, between.step regular pause led inside step silent⟩
      rw [step.lasts.peers]
      exact inside

/-- Until the next heartbeat to a peer begins, there passes no more than the time of one call and
    one pause. If that is less than the shortest election timeout, then nobody's deadline comes who
    has taken the heartbeat at once. -/
theorem heartbeats_keep_pace {timing : Timing} {x y z : Clock} {sending : Sending} {peer : Nat}
    {r : HeartbeatRequest} (reached : Reachable timing x) (begins : Step x sending y)
    (sent : sending.heartbeat? peer = some r) (lull : Lull peer y z) :
    z.now ≤ x.now + timing.call + timing.heartbeat ∧
      (timing.call + timing.heartbeat < timing.electionMin →
        z.now < x.now + timing.electionMin ∧
          ∀ (n : Node) (t : Moment), n.term ≤ r.term → t.now = x.now →
            timing.electionMin ≤ t.timeout →
              (n.handleHeartbeat t r).2.electionDue z.now = false) := by
  have regular := reached.regular
  obtain ⟨inside, start⟩ := regular.begins begins sent
  obtain ⟨_, _, _, between⟩ := lull.between (regular.step begins) inside start (Nat.le_refl _)
  have bound := between.now_le (Nat.le_add_right _ timing.heartbeat)
  refine ⟨bound, fun short => ⟨by omega, fun n t current now timeout => ?_⟩⟩
  have deadline := n.handleHeartbeat_deadline t current
  simp only [Node.electionDue, deadline, Bool.and_eq_false_imp, decide_eq_false_iff_not]
  omega

/-- The first of two peers votes and answers at once, the second never does. -/
def halfDead (peer : Nat) : PeerScript :=
  if peer = 0 then ⟨some ⟨true, 1⟩, some ⟨1, 0, true, 1⟩, 0⟩ else ⟨none, none, 10000⟩

/-- Under the default timing a leader of three waits for a dead peer, and is in time for the other
    one. -/
theorem heartbeats_keep_pace_by_default :
    ∃ (x y z : Clock) (sending : Sending) (r : HeartbeatRequest),
      Reachable ClusterSettings.default.timing x ∧ Step x sending y ∧
        sending.heartbeat? 0 = some r ∧ Lull 0 y z ∧ x.now = 500 ∧ z.now = 700 ∧
        z.now < x.now + 500 ∧ ∀ (n : Node) (t : Moment), n.term ≤ r.term → t.now = x.now →
          500 ≤ t.timeout → (n.handleHeartbeat t r).2.electionDue z.now = false := by
  have started : Reachable ClusterSettings.default.timing _ := .start 0 "a" ["b", "c"]
  have watching := started.step (.acts _ 500 halfDead _ _ rfl)
  have due := watching.step (.passes _ 500 (by decide) fun _ _ _ before =>
    if_neg (Nat.not_le_of_lt before))
  have voting := due.step (.acts _ 500 halfDead _ _ rfl)
  have leading := voting.step (.acts _ 500 halfDead _ _ rfl)
  have run : ∃ (x y z : Clock) (sending : Sending) (r : HeartbeatRequest),
      Reachable ClusterSettings.default.timing x ∧ Step x sending y ∧
        sending.heartbeat? 0 = some r ∧ Lull 0 y z ∧ x.now = 500 ∧ z.now = 700 :=
    ⟨_, _, _, _, _, leading, .acts _ 500 halfDead _ _ rfl, rfl,
      .on (.on (.here _ rfl) (.acts _ 500 halfDead _ _ rfl) rfl rfl)
        (.passes _ 700 (by decide) fun _ _ _ before => if_neg (Nat.not_le_of_lt before)) rfl rfl,
      rfl, rfl⟩
  obtain ⟨x, y, z, sending, r, reached, begins, sent, lull, now, later⟩ := run
  have inTime := (heartbeats_keep_pace reached begins sent lull).2 (by decide)
  exact ⟨x, y, z, sending, r, reached, begins, sent, lull, now, later, inTime⟩

/-- Settings that are accepted although a call may take longer than the shortest election timeout. -/
def hasty : ClusterSettings :=
  ⟨⟨["http://a", "http://b", "http://c"], none, 0⟩, ⟨150, 150, 100, 200, 1000⟩⟩

/-- A leader of three waits so long for a dead peer that the other one, who has answered at once,
    calls for an election. -/
theorem accepted_settings_lose_pace : hasty.fault? = none ∧
    ∃ (x y z w : Clock) (sending again : Sending) (r : HeartbeatRequest),
      Reachable hasty.timing x ∧ Step x sending y ∧ sending.heartbeat? 0 = some r ∧ Lull 0 y z ∧
        Step z again w ∧ (again.heartbeat? 0).isSome = true ∧
        x.now + hasty.timing.electionMin ≤ z.now ∧
        ((Node.start ⟨0, 150⟩).handleHeartbeat ⟨x.now, 150⟩ r).2.electionDue z.now = true := by
  have started : Reachable hasty.timing _ := .start 0 "http://a" ["http://b", "http://c"]
  have watching := started.step (.acts _ 150 halfDead _ _ rfl)
  have due := watching.step (.passes _ 150 (by decide) fun _ _ _ before =>
    if_neg (Nat.not_le_of_lt before))
  have voting := due.step (.acts _ 150 halfDead _ _ rfl)
  have leading := voting.step (.acts _ 150 halfDead _ _ rfl)
  -- the first answer, the time until the second call is given up, the pause that a wake-up ends
  exact ⟨rfl, _, _, _, _, _, _, _, leading, .acts _ 150 halfDead _ _ rfl, rfl,
    .on (.on (.on (.on (.on (.here _ rfl) (.acts _ 150 halfDead _ _ rfl) rfl rfl)
      (.passes _ 350 (by decide) fun _ _ _ before => if_neg (Nat.not_le_of_lt before)) rfl rfl)
      (.acts _ 150 halfDead _ _ rfl) rfl rfl) (.acts _ 150 halfDead _ _ rfl) rfl rfl)
      (.acts _ 150 halfDead _ _ rfl) rfl rfl,
    .acts _ 150 halfDead _ _ rfl, rfl, by decide, rfl⟩

end Clock

end QuorumStore
