import QuorumStore.Store.Record
import QuorumStore.Text.Decimal
/-! # Documents

A document is the JSON object a client stores. Its version is kept inside the stored text, so that
whoever reads a value also learns on which version an update has to be based.
-/

namespace QuorumStore

/-- The members of a client's object besides its version and its token. -/
structure Document where
  fields : Json.Fields

/-- The member that holds the version of a stored value. -/
def versionField : String := "version_number"

/-- The member in which a client may send its token along. -/
def tokenField : String := "token"

/-- The text stored at a version. The version is written as a string of digits. -/
def Document.render (d : Document) (version : Nat) : String :=
  (Json.object (d.fields.insert versionField (.string (Decimal.text version)))).compact

/-- What a client asks for. -/
inductive Write where
  /-- Removes the value whatever its version is. -/
  | delete
  /-- Stores a document in the place of the version it is based on; zero creates. -/
  | upsert (expected : Nat) (document : Document)

/-- The version that a write takes over a record, or the version that stands against it. A version
    counts the writes of a key, so the next one is assumed to be a number of 64 bits as well. -/
def Write.resolve (current : Option Record) : Write → Except Nat Nat
  | .delete => .ok ((current.bind Record.version?).getD 0)
  | .upsert expected _ =>
    match current.bind Record.version? with
    | none => if expected = 0 then .ok 1 else .error 0
    | some v => if v = expected then .ok (v + 1) else .error v

/-- What a write stores at the version it was given. -/
def Write.content : Write → Nat → Content
  | .delete, _ => .tombstone
  | .upsert _ document, version => .live (document.render version)

/-- The version a write says it is based on; a delete is based on whatever there is. -/
def Write.supplied : Write → Nat → Nat
  | .delete, current => current
  | .upsert expected _, _ => expected

end QuorumStore
