import QuorumStore.Node.Election
import QuorumStore.Store.Document
/-! # Staging writes

A leader checks a write against the record its key will have once everything in the log is
committed, and then puts it into the log. So two writers who start from the same version cannot
both succeed.
-/

namespace QuorumStore.Node

/-- The record a key will have once every entry of the log is committed. -/
def projected (n : Node) (key : String) : Option Record :=
  match Log.lastWrite? n.staged key with
  | some r => some r
  | none => n.store.get? key

/-- Claims a ticket for the last entry. An older claim to the same position is given up. -/
def claimTicket (n : Node) : Node :=
  { n with tickets :=
      n.tickets.map (fun t => if t.index = n.lastIndex then t.drop else t) ++
        [⟨n.lastIndex, n.term, .pending⟩] }

/-- Puts a write into the log. The number of its ticket is how many there were before. -/
def stageWrite (key : String) (write : Write) (n : Node) :
    Except NodeError ((Record × Nat) × Node) :=
  match n.ensureLeader with
  | .error e => .error e
  | .ok () =>
    match write.resolve (n.projected key) with
    | .error current => .error (.versionMismatch current (write.supplied current))
    | .ok version =>
      let content := write.content version
      let staged := (n.append ⟨n.term, .write key content version⟩).claimTicket
      .ok ((content.record version, n.tickets.length), staged.advanceCommit)

/-- Reads a committed record. Only a leader answers. -/
def read (n : Node) (key : String) : Except NodeError (Option Record) :=
  match n.ensureLeader with
  | .error e => .error e
  | .ok () => .ok (n.store.get? key)

def verdict (n : Node) (ticket : Nat) : Verdict :=
  ((n.tickets[ticket]?).map Ticket.verdict).getD .dropped

end QuorumStore.Node
