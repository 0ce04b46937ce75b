import QuorumStore.Json.Printer
/-! # Records

A record is what a key holds. A deleted key keeps a tombstone, so it stays different from a key
that was never written.
-/

namespace QuorumStore

/-- What stands for a deleted value wherever a text is expected. -/
def tombstoneText : String := "__DELETE__"

/-- What a key holds. -/
inductive Record where
  /-- A value and the version of the write that stored it. -/
  | live (value : String) (version : Nat)
  /-- The key was deleted; its versions start over. -/
  | tombstone
  deriving Repr, DecidableEq

/-- The version of a live record. -/
def Record.version? : Record → Option Nat
  | .live _ v => some v
  | .tombstone => none

def Record.isTombstone : Record → Bool
  | .live .. => false
  | .tombstone => true

/-- The text a client is given. -/
def Record.text : Record → String
  | .live value _ => value
  | .tombstone => tombstoneText

/-- What a write puts in the place of a record, before it has a version. -/
inductive Content where
  | live (value : String)
  | tombstone
  deriving Repr, DecidableEq

/-- The record that content becomes at a version; a tombstone does not keep its version. -/
def Content.record : Content → Nat → Record
  | .live value, version => .live value version
  | .tombstone, _ => .tombstone

end QuorumStore
