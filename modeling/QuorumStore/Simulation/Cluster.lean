import QuorumStore.Simulation.Session
/-! # A cluster in virtual time

Every member runs its task, and calls between members take no time. Members can be cut off from all
others, and single directions between two members can be cut.
-/

namespace QuorumStore

/-- The members of a cluster with their tasks, clients and connections. -/
structure Cluster where
  now : Nat
  timers : List Timer
  /-- The sessions with the members they belong to. -/
  sessions : List (Nat × Session)
  isolated : List Nat
  /-- Directions in which no call gets through. -/
  cuts : List (Nat × Nat)

namespace Cluster

def address (i : Nat) : String := "http://node-" ++ Decimal.text i

/-- A cluster at time zero, its members given by their election timeouts. -/
def start (timeouts : List Nat) (heartbeat call replication : Nat) : Cluster where
  now := 0
  timers := timeouts.zipIdx.map fun (timeout, i) =>
    let peers := (List.range timeouts.length).filter (· != i)
    ⟨.start 0 (address i) (peers.map address) ⟨timeout, timeout, heartbeat, call, replication⟩,
      .ready⟩
  sessions := []
  isolated := []
  cuts := []

def connected (c : Cluster) (source target : Nat) : Bool :=
  !c.isolated.contains source && !c.isolated.contains target && !c.cuts.contains (source, target)

/-- The number of a member's peer. -/
def peer (member i : Nat) : Nat := if i < member then i else i + 1

def member? (c : Cluster) (i : Nat) : Option Member := c.timers[i]?.map Timer.member

/-- Ends the sessions whose outcomes are there. -/
def settle (c : Cluster) : Cluster :=
  c.sessions.zipIdx.foldl
    (fun c ((i, s), k) =>
      match c.timers[i]? with
      | none => c
      | some timer =>
        let (s, m) := s.settle c.now timer.member
        { c with
          sessions := c.sessions.set k (i, s)
          timers := c.timers.set i { timer with member := m } })
    c

/-- Puts a call through to a member, if the connection is there. -/
def call {σ ρ : Type} (handle : Moment → σ → Member → ρ × Member) (source i : Nat) (sent : σ)
    (c : Cluster) : Call σ ρ × Cluster :=
  let target := peer source i
  match c.connected source target, c.timers[target]? with
  | true, some timer =>
    let (reply, m) := handle (timer.member.timing.earliest c.now) sent timer.member
    (⟨i, sent, c.now, some reply⟩,
      { c with timers := c.timers.set target { timer with member := m } })
  | _, _ => (⟨i, sent, c.now, none⟩, c)

def callAll {σ ρ : Type} (handle : Moment → σ → Member → ρ × Member) (source : Nat)
    (sent : List σ) (c : Cluster) : List (Call σ ρ) × Cluster :=
  sent.zipIdx.foldl
    (fun (calls, c) (s, i) =>
      let (call, c) := c.call handle source i s
      (calls ++ [call], c))
    ([], c)

def setPhase (i : Nat) (phase : Phase) (c : Cluster) : Cluster :=
  { c with timers := c.timers.modify i fun timer => { timer with phase } }

/-- Puts the result of a step in place, sends out what it wants to send, and hands it the
    answers. -/
def install (i : Nat) (timer : Timer) (sending : Sending) (c : Cluster) : Cluster :=
  let c := { c with timers := c.timers.set i timer }
  match sending with
  | .nothing => c.settle
  | .votes election request =>
    let (calls, c) := c.callAll Member.decideVote i (timer.member.peers.map fun _ => request)
    (c.setPhase i (.electing election calls)).settle
  | .heartbeats term requests =>
    let (calls, c) := c.callAll Member.handleHeartbeat i requests
    (c.setPhase i (.replicating term calls)).settle

/-- Takes the step of the first member for which one is due. -/
def step? (c : Cluster) : Option Cluster :=
  c.timers.zipIdx.findSome? fun (timer, i) =>
    (timer.step? (timer.member.timing.earliest c.now) false).map fun (timer, sending) =>
      c.install i timer sending

/-- The deadlines of the sessions that go on. -/
def deadlines (c : Cluster) : List Nat :=
  c.sessions.filterMap fun (i, s) =>
    match s.ended, c.member? i with
    | none, some m => some (s.deadline m.timing)
    | _, _ => none

/-- The next time at which something is due. -/
def next? (c : Cluster) : Option Nat := (c.timers.filterMap Timer.due? ++ c.deadlines).min?

/-- Takes the steps that are due now, until none is. -/
def rest : Nat → Cluster → Cluster
  | 0, c => c
  | fuel + 1, c =>
    match c.step? with
    | some c => rest fuel c
    | none => c

/-- Enough steps for one instant: each member may turn around a few times and hear of all its
    peers. -/
def turns (c : Cluster) : Nat := (c.timers.length + 1) * (c.timers.length + 8) * 4

/-- Lets the cluster go on until a time, or until it is in a state to halt in. Whoever waits for
    that time goes first when it comes: what the members do at that very instant comes later. -/
def go (halt : Cluster → Bool) (time : Nat) : Nat → Cluster → Cluster
  | 0, c => c
  | fuel + 1, c =>
    let c := c.rest c.turns
    if halt c then c
    else
      match c.next? with
      | some next =>
        if next < time then go halt time fuel (settle { c with now := max c.now next })
        else settle { c with now := max c.now time }
      | none => settle { c with now := max c.now time }

/-- Goes on until a time at the latest. Something is due in at most every millisecond. -/
def goTo (halt : Cluster → Bool) (time : Nat) (c : Cluster) : Cluster :=
  if time ≤ c.now then c else c.go halt time (time - c.now + 1)

def wait (ms : Nat) (c : Cluster) : Cluster := c.goTo (fun _ => false) (c.now + ms)

def ended (session : Nat) (c : Cluster) : Bool := c.sessions[session]?.any (·.2.ended.isSome)

/-- Waits until a session has ended; it does so at its deadline if not before. -/
def await (session : Nat) (c : Cluster) : Cluster :=
  match c.sessions[session]? with
  | none => c
  | some (i, s) =>
    match c.member? i with
    | none => c
    | some m =>
      if c.ended session then c else c.goTo (ended session) (s.deadline m.timing)

/-- Stages a write at a member; the session has the number of those before it. -/
def put (i : Nat) (key : String) (write : Write) (c : Cluster) :
    Option (Except NodeError (Nat × Cluster)) :=
  c.timers[i]?.map fun timer =>
    match timer.member.put key write with
    | .error e => .error e
    | .ok ((record, ticket), m) =>
      let session : Session := ⟨c.now, ⟨key, record, ticket⟩, .direct, none⟩
      .ok (c.sessions.length, settle { c with
        timers := c.timers.set i { timer with member := m }
        sessions := c.sessions ++ [(i, session)] })

/-- Cuts a member off, or tells that it is cut off already. -/
def isolate (i : Nat) (c : Cluster) : Bool × Cluster :=
  if c.isolated.contains i then (false, c) else (true, { c with isolated := i :: c.isolated })

/-- Connects a member again, or tells that it is connected already. -/
def heal (i : Nat) (c : Cluster) : Bool × Cluster :=
  if c.isolated.contains i then (true, { c with isolated := c.isolated.erase i }) else (false, c)

/-- Cuts one direction, or tells that it is cut already. -/
def cut (source target : Nat) (c : Cluster) : Bool × Cluster :=
  if c.cuts.contains (source, target) then (false, c)
  else (true, { c with cuts := (source, target) :: c.cuts })

/-- Joins one direction again, or tells that it is not cut. -/
def join (source target : Nat) (c : Cluster) : Bool × Cluster :=
  if c.cuts.contains (source, target) then
    (true, { c with cuts := c.cuts.erase (source, target) })
  else (false, c)

end Cluster

end QuorumStore
