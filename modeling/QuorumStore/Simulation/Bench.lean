import QuorumStore.Simulation.Session
/-! # One member among scripted peers

The peers of the member are scripts that say what they answer and when, and at given times the
member is disturbed by requests that come from nowhere. Everything else is the member's own doing.
-/

namespace QuorumStore

/-- What a peer answers, and after how long; nothing means that the call fails. -/
structure PeerScript where
  vote : Option VoteReply
  heartbeat : Option HeartbeatReply
  delay : Nat
  deriving Repr

/-- A peer that cannot be reached. -/
def PeerScript.absent : PeerScript := ⟨none, none, 0⟩

/-- A call to a scripted peer. An answer that comes later than a call may take does not count. -/
def PeerScript.call {σ ρ : Type} (now limit peer : Nat) (sent : σ) (reply : Option ρ)
    (script : PeerScript) : Call σ ρ where
  peer := peer
  sent := sent
  ends := now + min script.delay limit
  reply := if script.delay ≤ limit then reply else none

/-- What a member sent. -/
inductive Sent where
  | vote (r : VoteRequest)
  | heartbeat (r : HeartbeatRequest)
  deriving Repr

structure CallRecord where
  time : Nat
  peer : String
  sent : Sent
  deriving Repr

/-- What happens to a member out of the blue. -/
inductive Disturbance where
  | vote (r : VoteRequest)
  | heartbeat (r : HeartbeatRequest)
  /-- It becomes a candidate before its time. -/
  | candidacy
  deriving Repr

def Member.disturb (t : Moment) (d : Disturbance) (m : Member) : Member :=
  match d with
  | .vote r => (m.decideVote t r).2
  | .heartbeat r => (m.handleHeartbeat t r).2
  | .candidacy => m.become (m.node.beginCandidacy t m.address).2

/-- A member, the time, and the clients that wait. -/
structure Bench where
  now : Nat
  member : Member
  sessions : List Session

namespace Bench

def start (address : String) (peers : List String) (timing : Timing) : Bench :=
  ⟨0, .start 0 address peers timing, []⟩

def moment (b : Bench) : Moment := b.member.timing.earliest b.now

/-- Ends the sessions whose outcomes are there. -/
def settle (b : Bench) : Bench :=
  let (sessions, member) := settleSessions b.now b.sessions b.member
  { b with sessions, member }

/-- Changes the member and lets its clients notice. -/
def change (f : Member → Member) (b : Bench) : Bench := settle { b with member := f b.member }

/-- Sets the clock forward in one leap. -/
def leap (ms : Nat) (b : Bench) : Bench := settle { b with now := b.now + ms }

/-- Lets time pass up to a point, with every client giving up in its own time. -/
def passTo (time : Nat) (b : Bench) : Bench :=
  let stops := b.sessions.filterMap fun s =>
    let d := s.deadline b.member.timing
    if s.ended.isNone ∧ d ≤ time then some d else none
  let b := stops.foldl (fun b d => settle { b with now := max b.now d }) b
  settle { b with now := max b.now time }

/-- Adds a session; its number is how many there were before. -/
def enter (staged : Staged) (channel : Channel) (b : Bench) : Nat × Bench :=
  (b.sessions.length, settle { b with sessions := b.sessions ++ [⟨b.now, staged, channel, none⟩] })

/-- Waits until a session has ended; it does so at its deadline if not before. -/
def await (session : Nat) (b : Bench) : Bench :=
  match b.sessions[session]? with
  | none => b
  | some s => if s.ended.isSome then b else b.passTo (s.deadline b.member.timing)

/-- Stages a write of a client who talks to the member itself. -/
def put (key : String) (write : Write) (b : Bench) : Except NodeError (Nat × Bench) :=
  match b.member.put key write with
  | .error e => .error e
  | .ok ((record, ticket), m) =>
    .ok ({ b with member := m }.enter ⟨key, record, ticket⟩ .direct)

/-- Takes in a request over HTTP: a response, or the number of a session. -/
def receive (s : Server) (r : HttpRequest) (b : Bench) : (HttpResponse ⊕ Nat) × Bench :=
  match s.receive b.moment r b.member with
  | (.answered response, m) => (.inl response, settle { b with member := m })
  | (.waits staged operation, m) =>
    let (session, b) := { b with member := m }.enter staged (.http operation)
    (.inr session, b)

end Bench

/-- A bench while the task of its member runs. -/
structure Drive where
  bench : Bench
  phase : Phase
  /-- The peers' scripts, in the order of the peers. -/
  scripts : List PeerScript
  /-- What is still to happen, with its times, in order. -/
  disturbances : List (Nat × Disturbance)
  /-- When the task is asked to stop, if it is. -/
  stop : Option Nat
  /-- The calls so far, the latest first. -/
  calls : List CallRecord

namespace Drive

def script (d : Drive) (peer : Nat) : PeerScript := d.scripts[peer]?.getD .absent

/-- Notes calls to the peers, in order. -/
def note (sent : List Sent) (d : Drive) : Drive :=
  let records := (d.bench.member.peers.zip sent).map fun (peer, s) => ⟨d.bench.now, peer, s⟩
  { d with calls := records.reverse ++ d.calls }

/-- Sends out what a step of the task wants to send. -/
def send (sending : Sending) (d : Drive) : Drive :=
  let m := d.bench.member
  let now := d.bench.now
  match sending with
  | .nothing => d
  | .votes election request =>
    let calls := (List.range m.peers.length).map fun i =>
      (d.script i).call now m.timing.call i request (d.script i).vote
    { d with phase := .electing election (Call.sort calls) }.note
      (m.peers.map fun _ => .vote request)
  | .heartbeats term requests =>
    let calls := requests.zipIdx.map fun (request, i) =>
      (d.script i).call now m.timing.call i request (d.script i).heartbeat
    { d with phase := .replicating term (Call.sort calls) }.note (requests.map .heartbeat)

/-- Puts the result of a step in place. -/
def install (k : Timer) (sending : Sending) (d : Drive) : Drive :=
  { d with bench := d.bench.change fun _ => k.member, phase := k.phase }.send sending

def stopping (d : Drive) : Bool := d.stop.any (· ≤ d.bench.now)

/-- Takes a step of the task, if one is due. -/
def step? (d : Drive) : Option Drive :=
  (Timer.step? d.bench.moment d.stopping ⟨d.bench.member, d.phase⟩).map fun (k, sending) =>
    d.install k sending

/-- Lets the next disturbance happen, if it is due. -/
def disturb? (d : Drive) : Option Drive :=
  match d.disturbances with
  | [] => none
  | (time, event) :: rest =>
    if time ≤ d.bench.now then
      some { d with
        bench := d.bench.change (·.disturb d.bench.moment event)
        disturbances := rest }
    else none

/-- The next time at which something is due. -/
def next? (d : Drive) : Option Nat :=
  let resting := match d.phase with
    | .watching _ | .pausing _ => d.stop.toList
    | _ => []
  let times := (Timer.due? ⟨d.bench.member, d.phase⟩).toList ++ resting ++
    (d.disturbances.head?.map (·.1)).toList
  times.min?

/-- Goes on until the phase is one to end in. A disturbance comes before an answer that arrives at
    the same time. -/
def go (ends : Phase → Bool) : Nat → Drive → Drive
  | 0, d => d
  | fuel + 1, d =>
    if ends d.phase then d
    else
      match d.phase, d.disturb? with
      | .ready, _ | _, none =>
        match d.step? with
        | some d => go ends fuel d
        | none =>
          match d.next? with
          | some time => go ends fuel { d with bench := d.bench.passTo time }
          | none => d
      | _, some d => go ends fuel d

/-- Enough steps for a run of some length: in every millisecond each peer may answer, the task may
    turn around a few times, and every disturbance happens once. -/
def fuel (ms : Nat) (d : Drive) : Nat :=
  (ms + d.bench.member.timing.call + 2) * (d.bench.member.peers.length + 8) * 4 +
    d.disturbances.length * 4

end Drive

namespace Bench

/-- Sets a drive up; the times of the disturbances count from now. -/
def drive (scripts : List PeerScript) (disturbances : List (Nat × Disturbance)) (b : Bench) :
    Drive where
  bench := b
  phase := .ready
  scripts := scripts
  disturbances := (disturbances.map fun (time, d) => (b.now + time, d)).mergeSort
    fun x y => x.1 ≤ y.1
  stop := none
  calls := []

/-- Runs an election, if one is due, until it is over. -/
def runElection (scripts : List PeerScript) (disturbances : List (Nat × Disturbance))
    (b : Bench) : Drive :=
  let d := b.drive scripts disturbances
  let (k, sending) := Timer.elect b.moment ⟨b.member, .ready⟩
  let d := d.install k sending
  d.go (fun phase => match phase with | .electing .. => false | _ => true) (d.fuel 0)

/-- Runs one round of heartbeats, if the member leads, until it is over. -/
def runRound (scripts : List PeerScript) (disturbances : List (Nat × Disturbance))
    (b : Bench) : Drive :=
  let d := b.drive scripts disturbances
  let (k, sending) := Timer.look ⟨b.member, .ready⟩
  let d := d.install k sending
  d.go (fun phase => match phase with | .replicating .. => false | _ => true) (d.fuel 0)

/-- Runs the task of the member for some time and then asks it to stop. -/
def run (ms : Nat) (scripts : List PeerScript) (disturbances : List (Nat × Disturbance))
    (b : Bench) : Drive :=
  let d := { b.drive scripts disturbances with stop := some (b.now + ms) }
  d.go (fun phase => match phase with | .stopped => true | _ => false) (d.fuel ms)

end Bench

end QuorumStore
