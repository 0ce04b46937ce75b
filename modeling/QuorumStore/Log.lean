import QuorumStore.Store.Basic
/-! # The log

The log is what the nodes agree on. Positions count from one; position zero is before the first
entry. A store is nothing but the replay of the committed part of a log.
-/

namespace QuorumStore

/-- What an entry does when it is committed. -/
inductive Command where
  /-- Writes a key. The version is the one the write takes, or for a tombstone the one it ends. -/
  | write (key : String) (content : Content) (version : Nat)
  /-- Nothing. A new leader puts it into the log, since entries of earlier terms commit only along
      with one of its own. -/
  | barrier
  deriving Repr, DecidableEq

/-- A command and the term of the leader that put it into the log. -/
structure Entry where
  term : Nat
  command : Command
  deriving Repr, DecidableEq

/-- Entries, oldest first. -/
abbrev Log := List Entry

/-- The store after a command. -/
def Store.apply (s : Store) : Command → Store
  | .write key content version => s.put key (content.record version)
  | .barrier => s

/-- The store after some entries. -/
def Store.applyAll (s : Store) (entries : Log) : Store :=
  entries.foldl (fun s e => s.apply e.command) s

namespace Log

/-- The store that a log makes of an empty one. -/
def replay (log : Log) : Store := Store.empty.applyAll log

/-- The term of the entry at a position; zero where there is no entry. -/
def termAt (log : Log) (index : Nat) : Nat :=
  if index = 0 then 0 else ((log[index - 1]?).map Entry.term).getD 0

/-- The term of the last entry; zero for the empty log. -/
def lastTerm (log : Log) : Nat := (log.getLast?.map Entry.term).getD 0

/-- The record that an entry gives a key, if it writes the key. -/
def recordBy (key : String) (e : Entry) : Option Record :=
  match e.command with
  | .write k content version => if k = key then some (content.record version) else none
  | .barrier => none

/-- The record that the last write of a key in these entries gives it. -/
def lastWrite? (entries : Log) (key : String) : Option Record :=
  entries.reverse.findSome? (recordBy key)

end Log

end QuorumStore
