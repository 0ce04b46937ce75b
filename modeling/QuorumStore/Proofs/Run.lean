import QuorumStore.Member
import Mathlib.Logic.Function.Basic
/-! # Runs of a cluster

A run is what becomes of the members of a cluster under a schedule of acts. The schedule decides
whatever time, chance, the network and the clients decide: when deadlines pass, which requests
arrive, how often and in what order, which answers come back, and what is written where. A theorem
about every run therefore holds however the cluster fares.
-/

namespace QuorumStore

/-- Who belongs to a cluster. Everyone has all the others as peers, in an order of its own. -/
structure Roster (n : Nat) where
  address : Fin n → String
  peers : Fin n → List (Fin n)
  timing : Fin n → Timing
  /-- When a member is started. -/
  started : Fin n → Nat
  address_injective : Function.Injective address
  peers_nodup : ∀ i, (peers i).Nodup
  mem_peers : ∀ i j, j ∈ peers i ↔ j ≠ i

/-- Calls that a member makes together, one to each peer. A request stays under way for good: it
    arrives never, late, or more than once. -/
structure Exchange (n : Nat) (τ σ ρ : Type) where
  caller : Fin n
  /-- What the caller keeps in mind while it waits. -/
  task : τ
  /-- The requests, by the numbers of the peers. -/
  sent : List σ
  /-- The peers whose calls are not over. -/
  waiting : List Nat
  /-- Every answer given so far, with the number of the peer that gave it. -/
  answers : List (Nat × ρ)

/-- The vote requests of one election. -/
abbrev Ballot (n : Nat) := Exchange n Election VoteRequest VoteReply

/-- The heartbeats of one round; the task is the term they were sent in. -/
abbrev Round (n : Nat) := Exchange n Nat HeartbeatRequest HeartbeatReply

namespace Exchange

variable {n : Nat} {τ σ ρ : Type}

/-- Calls that have just been made. -/
def start (caller : Fin n) (task : τ) (sent : List σ) : Exchange n τ σ ρ :=
  ⟨caller, task, sent, List.range sent.length, []⟩

/-- Notes the answer of a peer. -/
def answer (peer : Nat) (reply : ρ) (x : Exchange n τ σ ρ) : Exchange n τ σ ρ :=
  { x with answers := x.answers ++ [(peer, reply)] }

/-- What the caller learns when a call ends: one of the answers of the peer, or that none came. A
    call ends once only. -/
def outcome? (peer : Nat) (choice : Option Nat) (x : Exchange n τ σ ρ) : Option (Option ρ) :=
  if peer ∈ x.waiting then
    match choice with
    | none => some none
    | some number =>
      match x.answers[number]? with
      | some (p, reply) => if p = peer then some (some reply) else none
      | none => none
  else none

/-- Ends the call to a peer, and the other calls too if the task is over. -/
def close (peer : Nat) (goesOn : Bool) (task : τ) (x : Exchange n τ σ ρ) : Exchange n τ σ ρ :=
  { x with task, waiting := if goesOn then x.waiting.filter (· != peer) else [] }

/-- Lets a request reach its peer, which handles it and answers. -/
def arrive (r : Roster n) (handle : Moment → σ → Member → ρ × Member) (t : Moment) (peer : Nat)
    (x : Exchange n τ σ ρ) (member : Fin n → Member) :
    Exchange n τ σ ρ × (Fin n → Member) :=
  match (r.peers x.caller)[peer]?, x.sent[peer]? with
  | some j, some request =>
    let (reply, m) := handle t request (member j)
    (x.answer peer reply, Function.update member j m)
  | _, _ => (x, member)

end Exchange

/-- The members of a cluster and all the calls they ever made. -/
structure System (n : Nat) where
  member : Fin n → Member
  ballots : List (Ballot n)
  rounds : List (Round n)

/-- What happens next in a cluster. Ballots and rounds are meant by their numbers; an act that is
    not possible changes nothing. A member that has no next term does not look at its deadline any
    more: what becomes of a cluster that has used up all terms of 64 bits is left out of its runs.
    It takes as many acts as there are terms to get there. -/
inductive Act (n : Nat) where
  /-- A member looks at its election deadline. -/
  | wake (i : Fin n) (t : Moment)
  /-- A vote request arrives. -/
  | askVote (ballot peer : Nat) (t : Moment)
  /-- A call for a vote ends, with the answer of some number or without one. -/
  | hearVote (ballot peer : Nat) (choice : Option Nat) (t : Moment)
  /-- A member sends out heartbeats if it leads. -/
  | openRound (i : Fin n)
  /-- A heartbeat arrives. -/
  | beat (round peer : Nat) (t : Moment)
  /-- The call that carried a heartbeat ends. -/
  | hearBeat (round peer : Nat) (choice : Option Nat) (t : Moment)
  /-- A client writes. -/
  | write (i : Fin n) (key : String) (write : Write)

namespace System

variable {n : Nat}

/-- A cluster whose members have just been started. -/
def start (r : Roster n) : System n where
  member i := .start (r.started i) (r.address i) ((r.peers i).map r.address) (r.timing i)
  ballots := []
  rounds := []

/-- Puts a new state of a member in place. -/
def put (i : Fin n) (m : Member) (s : System n) : System n :=
  { s with member := Function.update s.member i m }

/-- The cluster after an act. -/
def act (r : Roster n) (s : System n) : Act n → System n
  | .wake i t =>
    if (s.member i).node.HasNextTerm then
      match (s.member i).openElection t with
      | (some (request, election), m) =>
        { s.put i m with
          ballots := s.ballots ++ [.start i election ((r.peers i).map fun _ => request)] }
      | (none, m) => s.put i m
    else s
  | .askVote ballot peer t =>
    match s.ballots[ballot]? with
    | none => s
    | some x =>
      let (x, member) := x.arrive r Member.decideVote t peer s.member
      { s with member, ballots := s.ballots.set ballot x }
  | .hearVote ballot peer choice t =>
    match s.ballots[ballot]? with
    | none => s
    | some x =>
      match x.outcome? peer choice with
      | none => s
      | some reply =>
        let (tally, election, m) := (s.member x.caller).foldVote t x.task reply
        { s.put x.caller m with
          ballots := s.ballots.set ballot (x.close peer (tally == .goesOn) election) }
  | .openRound i =>
    match (s.member i).openRound with
    | none => s
    | some (term, requests) => { s with rounds := s.rounds ++ [.start i term requests] }
  | .beat round peer t =>
    match s.rounds[round]? with
    | none => s
    | some x =>
      let (x, member) := x.arrive r Member.handleHeartbeat t peer s.member
      { s with member, rounds := s.rounds.set round x }
  | .hearBeat round peer choice t =>
    match s.rounds[round]? with
    | none => s
    | some x =>
      match x.outcome? peer choice, x.sent[peer]? with
      | some reply, some sent =>
        let (goesOn, m) := (s.member x.caller).foldHeartbeat t x.task peer sent reply
        { s.put x.caller m with rounds := s.rounds.set round (x.close peer goesOn x.task) }
      | _, _ => s
  | .write i key write =>
    match (s.member i).put key write with
    | .error _ => s
    | .ok (_, m) => s.put i m

end System

/-- A cluster and the acts that happen to it. -/
structure Run (n : Nat) where
  roster : Roster n
  acts : Nat → Act n

namespace Run

variable {n : Nat}

/-- The cluster at a moment, that is after so many acts. -/
def state (R : Run n) : Nat → System n
  | 0 => .start R.roster
  | k + 1 => (R.state k).act R.roster (R.acts k)

variable (R : Run n)

/-- A member at a moment. -/
def member (k : Nat) (i : Fin n) : Member := (R.state k).member i

/-- The node of a member at a moment. -/
def node (k : Nat) (i : Fin n) : Node := (R.member k i).node

/-- Three members. The first is elected, takes a write and has it committed; later the second is
    elected. -/
def sample : Run 3 where
  roster :=
    { address i := ["a", "b", "c"][i]
      peers i := [[1, 2], [0, 2], [0, 1]][i]
      timing _ := ⟨150, 300, 30, 50, 1000⟩
      started _ := 0
      address_injective := by unfold Function.Injective; decide +kernel
      peers_nodup := by decide
      mem_peers := by decide }
  acts k :=
    let t : Moment := ⟨1000, 200⟩
    let u : Moment := ⟨2000, 200⟩
    [.wake 0 t, .askVote 0 0 t, .askVote 0 0 t, .hearVote 0 0 (some 1) t,
      .write 0 "k" .delete, .openRound 0, .beat 0 0 t, .hearBeat 0 0 (some 0) t, .openRound 0,
      .beat 1 0 t, .wake 1 u, .askVote 1 1 u, .hearVote 1 1 (some 0) u].getD k (.openRound 1)

/-- The first member is elected, takes a write and has it committed by the second, which is elected
    in the next term, takes another write and has it committed by the third. The first hears of none
    of this and leads its term on. -/
def succession : Run 3 where
  roster := sample.roster
  acts k :=
    let t : Moment := ⟨1000, 200⟩
    let u : Moment := ⟨2000, 200⟩
    [.wake 0 t, .askVote 0 0 t, .hearVote 0 0 (some 0) t, .write 0 "k" (.upsert 0 ⟨[]⟩),
      .openRound 0, .beat 0 0 t, .hearBeat 0 0 (some 0) t, .wake 1 u, .askVote 1 1 u,
      .hearVote 1 1 (some 0) u, .write 1 "j" (.upsert 0 ⟨[]⟩), .openRound 1, .beat 1 1 u,
      .hearBeat 1 1 (some 0) u, .openRound 1, .beat 2 1 u, .hearBeat 2 1 (some 0) u].getD k
        (.openRound 1)

end Run

end QuorumStore
