/-! # Decimal numerals

Natural numbers as they stand in keys, versions, ports and configuration files.
-/

namespace QuorumStore.Decimal

/-- The number that a non-empty run of ASCII digits denotes; leading zeros are allowed. -/
def natural? (cs : List Char) : Option Nat :=
  if !cs.isEmpty && cs.all Char.isDigit then some (Nat.ofDigitChars 10 cs 0) else none

/-- A numeral may carry a plus sign. -/
def unsigned (cs : List Char) : List Char :=
  match cs with
  | '+' :: rest => rest
  | _ => cs

/-- The number of an optional plus sign and digits, if it is below `limit`. -/
def below? (limit : Nat) (cs : List Char) : Option Nat :=
  match natural? (unsigned cs) with
  | some n => if n < limit then some n else none
  | none => none

/-- One more than the largest number of 64 bits. -/
def limit64 : Nat := 18446744073709551616

/-- One more than the largest number of 16 bits. -/
def limit16 : Nat := 65536

def digits (n : Nat) : List Char := Nat.toDigits 10 n

def text (n : Nat) : String := String.ofList (digits n)

end QuorumStore.Decimal
