import QuorumStore.Server.Routes
import QuorumStore.Timer
/-! # Clients in virtual time

In a simulation time stands still while anybody has something to do, and then moves straight to the
next thing that is due. A session is a client who waits for the verdict on one write, for as long as
the timing of the member allows.
-/

namespace QuorumStore

/-- How a client sent its write. -/
inductive Channel where
  /-- Straight to the member. -/
  | direct
  /-- Over HTTP, where the operation is counted. -/
  | http (operation : Operation)
  deriving Repr, DecidableEq

/-- A client and its write. -/
structure Session where
  began : Nat
  staged : Staged
  channel : Channel
  /-- When the outcome came, and which. -/
  ended : Option (Nat × Except NodeError Record)

namespace Session

/-- When the client gives up. -/
def deadline (timing : Timing) (s : Session) : Nat := s.began + timing.replication

/-- Ends the session if its outcome is there. -/
def settle (now : Nat) (m : Member) (s : Session) : Session × Member :=
  match s.ended, s.staged.outcome? m.node (s.deadline m.timing ≤ now) with
  | none, some outcome =>
    let m := match s.channel with
      | .direct => m
      | .http operation => (m.finishWrite s.staged operation outcome).2
    ({ s with ended := some (now, outcome) }, m)
  | _, _ => (s, m)

def waited (s : Session) : Option Nat := s.ended.map fun (time, _) => time - s.began

/-- The record that was committed, or why there is none. -/
def outcome? (s : Session) : Option (Except NodeError Record) := s.ended.map (·.2)

/-- The response to a session over HTTP. -/
def response? (s : Session) : Option HttpResponse :=
  s.outcome?.map fun outcome => .ofOutcome (outcome.map fun _ => s.staged.payload)

end Session

/-- Ends the sessions of a member whose outcomes are there. -/
def settleSessions (now : Nat) (sessions : List Session) (m : Member) : List Session × Member :=
  sessions.foldl
    (fun (done, m) s =>
      let (s, m) := s.settle now m
      (done ++ [s], m))
    ([], m)

end QuorumStore
