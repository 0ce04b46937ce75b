import QuorumStore.Text.Decimal
/-! # Sums of 64 bits

Terms, positions and versions are numbers of 64 bits. What a node counts itself, the entries of its
log and the writes of a key, is assumed to stay in this range. A message, though, may tell any
number of it, and a sum with such a number starts again at zero once it leaves the range.
-/

namespace QuorumStore.Counter

variable {a b : Nat}

/-- The sum of two numbers of 64 bits, as a number of 64 bits. -/
def add (a b : Nat) : Nat := (a + b) % Decimal.limit64

theorem add_of_lt (fits : a + b < Decimal.limit64) : add a b = a + b := Nat.mod_eq_of_lt fits

theorem add_le (a b : Nat) : add a b ≤ a + b := Nat.mod_le ..

end QuorumStore.Counter
