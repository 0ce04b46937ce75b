import QuorumStore.Member
/-! # The timer

Every member runs one task of its own. It opens an election when no leader has been heard of in
time, and while the member leads it sends out heartbeats, one round after the other. The task is a
machine whose steps are due at known times, so that the same machine serves real and simulated
time.
-/

namespace QuorumStore

/-- A call to a peer: what was sent, when the call ends, and the reply if there is one. -/
structure Call (σ ρ : Type) where
  peer : Nat
  sent : σ
  ends : Nat
  reply : Option ρ
  deriving Repr

/-- Puts a call in its place: calls that end at the same time keep their order. -/
def Call.insert {σ ρ : Type} (call : Call σ ρ) : List (Call σ ρ) → List (Call σ ρ)
  | [] => [call]
  | c :: rest => if call.ends < c.ends then call :: c :: rest else c :: Call.insert call rest

/-- Calls in the order in which they end. -/
def Call.sort {σ ρ : Type} (calls : List (Call σ ρ)) : List (Call σ ρ) :=
  calls.foldl (fun sorted call => call.insert sorted) []

/-- What the task is waiting for. -/
inductive Phase where
  /-- Nothing; it looks at its role next. -/
  | ready
  /-- An election deadline. It may have been put off by the time it passes. -/
  | watching (deadline : Nat)
  /-- The next round of heartbeats. -/
  | pausing (wakes : Nat)
  /-- The votes that are still out. -/
  | electing (election : Election) (calls : List (Call VoteRequest VoteReply))
  /-- The heartbeats that are still out. -/
  | replicating (term : Nat) (calls : List (Call HeartbeatRequest HeartbeatReply))
  | stopped
  deriving Repr

/-- What a step sends out. -/
inductive Sending where
  | nothing
  /-- The same request to every peer. -/
  | votes (election : Election) (request : VoteRequest)
  /-- A request of its own to each peer. -/
  | heartbeats (term : Nat) (requests : List HeartbeatRequest)
  deriving Repr

/-- A member and what its task is waiting for. -/
structure Timer where
  member : Member
  phase : Phase

namespace Timer

/-- Looks at the role: a leader starts a round, anyone else watches the election deadline. -/
def look (k : Timer) : Timer × Sending :=
  match k.member.openRound with
  | some (term, requests) =>
    (⟨k.member, .replicating term []⟩, .heartbeats term requests)
  | none => (⟨k.member, .watching k.member.node.deadline⟩, .nothing)

/-- Opens an election unless the deadline was put off. -/
def elect (t : Moment) (k : Timer) : Timer × Sending :=
  match k.member.openElection t with
  | (some (request, election), m) => (⟨m, .electing election []⟩, .votes election request)
  | (none, m) => (⟨m, .ready⟩, .nothing)

/-- Takes in a vote that has arrived. An election that is decided waits for no further votes. -/
def takeVote (t : Moment) (e : Election) (call : Call VoteRequest VoteReply)
    (rest : List (Call VoteRequest VoteReply)) (k : Timer) : Timer :=
  match k.member.foldVote t e call.reply with
  | (.goesOn, e, m) => ⟨m, .electing e rest⟩
  | (_, _, m) => ⟨m, .ready⟩

/-- Takes in the answer to a heartbeat. A leader that was deposed waits for no further answers. -/
def takeHeartbeat (t : Moment) (term : Nat) (call : Call HeartbeatRequest HeartbeatReply)
    (rest : List (Call HeartbeatRequest HeartbeatReply)) (k : Timer) : Timer :=
  match k.member.foldHeartbeat t term call.peer call.sent call.reply with
  | (true, m) => ⟨m, .replicating term rest⟩
  | (false, m) => ⟨m, .replicating term []⟩

def awaken? (k : Timer) : Option Timer :=
  if k.member.wakeUp then some ⟨{ k.member with wakeUp := false }, .ready⟩ else none

/-- What the task does when it has slept long enough, whether or not somebody has woken it up. -/
def sleepOver? (t : Moment) (k : Timer) : Option (Timer × Sending) :=
  match k.phase with
  | .watching deadline => if deadline ≤ t.now then some (k.elect t) else none
  | .pausing wakes => if wakes ≤ t.now then some (⟨k.member, .ready⟩, .nothing) else none
  | _ => none

/-- The next step of the task, if one is due. A task that is asked to stop does so as soon as it
    waits for nobody's answer. Of a wake-up and the end of a sleep that come together the wake-up
    comes first here; the other way round the step is the one of `sleepOver?`, and the wake-up is
    kept. -/
def step? (t : Moment) (stopping : Bool) (k : Timer) : Option (Timer × Sending) :=
  match k.phase with
  | .stopped => none
  | .ready => some (if stopping then (⟨k.member, .stopped⟩, .nothing) else k.look)
  | .watching _ | .pausing _ =>
    if stopping then some (⟨k.member, .stopped⟩, .nothing)
    else
      match k.awaken? with
      | some k => some (k, .nothing)
      | none => k.sleepOver? t
  | .electing e calls =>
    match calls with
    | [] => some (⟨k.member, .ready⟩, .nothing)
    | call :: rest =>
      if call.ends ≤ t.now then some (k.takeVote t e call rest, .nothing) else none
  | .replicating term calls =>
    match calls with
    | [] => some (⟨k.member, .pausing (t.now + k.member.timing.heartbeat)⟩, .nothing)
    | call :: rest =>
      if call.ends ≤ t.now then some (k.takeHeartbeat t term call rest, .nothing) else none

/-- When the next step is due, as far as that is known. -/
def due? (k : Timer) : Option Nat :=
  match k.phase with
  | .ready => some 0
  | .watching deadline => some (if k.member.wakeUp then 0 else deadline)
  | .pausing wakes => some (if k.member.wakeUp then 0 else wakes)
  | .electing _ calls => some ((calls.head?.map Call.ends).getD 0)
  | .replicating _ calls => some ((calls.head?.map Call.ends).getD 0)
  | .stopped => none

end Timer

end QuorumStore
