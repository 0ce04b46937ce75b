/-! # Majorities

Two majorities of one cluster always share a member. Whatever a majority has agreed to is therefore
known to someone in every later majority.
-/

namespace QuorumStore

/-- The least number of members that is more than half of them. -/
def quorum (members : Nat) : Nat := members / 2 + 1

/-- Puts a number in its place in a list that falls. -/
def insertFalling (n : Nat) : List Nat → List Nat
  | [] => [n]
  | m :: rest => if m ≤ n then n :: m :: rest else m :: insertFalling n rest

/-- The numbers from the greatest to the least. -/
def sortFalling (ns : List Nat) : List Nat := ns.foldr insertFalling []

/-- The greatest number that a majority of the members has reached. -/
def reachedByQuorum (ns : List Nat) : Nat :=
  ((sortFalling ns)[quorum ns.length - 1]?).getD 0

end QuorumStore
