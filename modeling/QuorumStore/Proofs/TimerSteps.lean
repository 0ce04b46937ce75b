import QuorumStore.Timer
/-! # What the task of a member does

Every step of the task is one of a few acts, each made in one phase and leading to another. A step
is due at the time that the task names for it and not before.
-/

namespace QuorumStore

namespace Timer

variable {t : Moment} {k k' : Timer} {sending : Sending}

/-- All that a task does which is not asked to stop. -/
inductive Acts (t : Moment) : Timer → Timer → Sending → Prop where
  | replicates (m : Member) (term : Nat) (requests : List HeartbeatRequest)
      (opens : m.openRound = some (term, requests)) :
      Acts t ⟨m, .ready⟩ ⟨m, .replicating term []⟩ (.heartbeats term requests)
  | watches (m : Member) (follows : m.openRound = none) :
      Acts t ⟨m, .ready⟩ ⟨m, .watching m.node.deadline⟩ .nothing
  /-- A wake-up ends the watch as well as the pause. -/
  | rouses (m : Member) (deadline : Nat) :
      Acts t ⟨m, .watching deadline⟩ ⟨{ m with wakeUp := false }, .ready⟩ .nothing
  | awakes (m : Member) (wakes : Nat) :
      Acts t ⟨m, .pausing wakes⟩ ⟨{ m with wakeUp := false }, .ready⟩ .nothing
  | campaigns (m m' : Member) (deadline : Nat) (request : VoteRequest) (election : Election)
      (opens : m.openElection t = (some (request, election), m')) :
      Acts t ⟨m, .watching deadline⟩ ⟨m', .electing election []⟩ (.votes election request)
  /-- The deadline was put off, or nobody else is there to vote. -/
  | stays (m m' : Member) (deadline : Nat) (opens : m.openElection t = (none, m')) :
      Acts t ⟨m, .watching deadline⟩ ⟨m', .ready⟩ .nothing
  | resumes (m : Member) (wakes : Nat) : Acts t ⟨m, .pausing wakes⟩ ⟨m, .ready⟩ .nothing
  | counts (m : Member) (e : Election) (call : Call VoteRequest VoteReply)
      (rest : List (Call VoteRequest VoteReply)) :
      Acts t ⟨m, .electing e (call :: rest)⟩
        (takeVote t e call rest ⟨m, .electing e (call :: rest)⟩) .nothing
  | concludes (m : Member) (e : Election) : Acts t ⟨m, .electing e []⟩ ⟨m, .ready⟩ .nothing
  | records (m : Member) (term : Nat) (call : Call HeartbeatRequest HeartbeatReply)
      (rest : List (Call HeartbeatRequest HeartbeatReply)) :
      Acts t ⟨m, .replicating term (call :: rest)⟩
        (takeHeartbeat t term call rest ⟨m, .replicating term (call :: rest)⟩) .nothing
  | pauses (m : Member) (term : Nat) :
      Acts t ⟨m, .replicating term []⟩ ⟨m, .pausing (t.now + m.timing.heartbeat)⟩ .nothing

/-- A step that the task makes by itself and that sends nothing out. -/
def Proceeds (k k' : Timer) : Prop := ∃ t, k.step? t false = some (k', .nothing)

theorem eq_of_awaken? (wakes : k.awaken? = some k') :
    k' = ⟨{ k.member with wakeUp := false }, .ready⟩ := by
  rw [awaken?] at wakes
  split at wakes
  · exact (Option.some.inj wakes).symm
  · simp at wakes

theorem acts_look (m : Member) : Acts t ⟨m, .ready⟩ (look ⟨m, .ready⟩).1 (look ⟨m, .ready⟩).2 := by
  rw [look]
  split
  · rename_i opens
    exact .replicates m _ _ opens
  · rename_i follows
    exact .watches m follows

theorem acts_elect (m : Member) (deadline : Nat) : Acts t ⟨m, .watching deadline⟩
    (elect t ⟨m, .watching deadline⟩).1 (elect t ⟨m, .watching deadline⟩).2 := by
  rw [elect]
  split
  · rename_i opens
    exact .campaigns m _ deadline _ _ opens
  · rename_i opens
    exact .stays m _ deadline opens

theorem acts_of_sleepOver? (due : k.sleepOver? t = some (k', sending)) : Acts t k k' sending := by
  obtain ⟨m, phase⟩ := k
  cases phase with
  | watching deadline =>
      simp only [sleepOver?] at due
      split at due
      · have acts := acts_elect (t := t) m deadline
        rwa [Option.some.inj due] at acts
      · simp at due
  | pausing wakes =>
      simp only [sleepOver?] at due
      split at due
      · obtain ⟨rfl, rfl⟩ := Prod.mk.inj (Option.some.inj due)
        exact .resumes m wakes
      · simp at due
  | ready | electing | replicating | stopped => simp [sleepOver?] at due

theorem acts_of_step? (due : k.step? t false = some (k', sending)) : Acts t k k' sending := by
  obtain ⟨m, phase⟩ := k
  cases phase with
  | ready =>
      have looks : look ⟨m, .ready⟩ = (k', sending) := Option.some.inj due
      have acts := acts_look (t := t) m
      rwa [looks] at acts
  | watching deadline =>
      simp only [step?, Bool.false_eq_true, if_false] at due
      split at due
      · rename_i wakes
        obtain ⟨rfl, rfl⟩ := Prod.mk.inj (Option.some.inj due)
        rw [eq_of_awaken? wakes]
        exact .rouses m deadline
      · exact acts_of_sleepOver? due
  | pausing wakes =>
      simp only [step?, Bool.false_eq_true, if_false] at due
      split at due
      · rename_i woken
        obtain ⟨rfl, rfl⟩ := Prod.mk.inj (Option.some.inj due)
        rw [eq_of_awaken? woken]
        exact .awakes m wakes
      · exact acts_of_sleepOver? due
  | electing e calls =>
      cases calls with
      | nil =>
          obtain ⟨rfl, rfl⟩ := Prod.mk.inj (Option.some.inj due)
          exact .concludes m e
      | cons call rest =>
          simp only [step?] at due
          split at due
          · obtain ⟨rfl, rfl⟩ := Prod.mk.inj (Option.some.inj due)
            exact .counts m e call rest
          · simp at due
  | replicating term calls =>
      cases calls with
      | nil =>
          obtain ⟨rfl, rfl⟩ := Prod.mk.inj (Option.some.inj due)
          exact .pauses m term
      | cons call rest =>
          simp only [step?] at due
          split at due
          · obtain ⟨rfl, rfl⟩ := Prod.mk.inj (Option.some.inj due)
            exact .records m term call rest
          · simp at due
  | stopped => simp [step?] at due

/-- A task that does nothing yet waits for the time at which its next step is due. -/
theorem lt_due? (rests : k.step? t false = none) {due : Nat} (next : k.due? = some due) :
    t.now < due := by
  obtain ⟨m, phase⟩ := k
  cases phase with
  | ready => simp [step?] at rests
  | watching deadline =>
      simp only [step?, awaken?, sleepOver?, due?, Option.some.injEq] at rests next
      cases wakes : m.wakeUp with
      | true => simp [wakes] at rests
      | false => simpa [wakes, ← next] using rests
  | pausing until_ =>
      simp only [step?, awaken?, sleepOver?, due?, Option.some.injEq] at rests next
      cases wakes : m.wakeUp with
      | true => simp [wakes] at rests
      | false => simpa [wakes, ← next] using rests
  | electing e calls =>
      cases calls with
      | nil => simp [step?] at rests
      | cons call rest => simpa [step?, ← Option.some.inj next] using rests
  | replicating term calls =>
      cases calls with
      | nil => simp [step?] at rests
      | cons call rest => simpa [step?, ← Option.some.inj next] using rests
  | stopped => simp [due?] at next

end Timer

end QuorumStore
