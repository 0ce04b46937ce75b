import QuorumStore.Json.Basic
import QuorumStore.Text.Utf8
import QuorumStore.Text.Decimal
/-! # JSON as it is written

Between the text and the value stands what was written: strings with their escapes, numbers with
their digits, objects with every member in its place. A reader of a message that skips an unknown
member checks its form only; what such a member would be worth is never asked. So the form of a
text and its worth are two steps, and only the second one can fail over a lone surrogate, a number
that is too large, or nesting that is too deep.
-/

namespace QuorumStore

/-- A part of a string as it is written. -/
inductive Piece where
  /-- A character, written plainly or with a short escape. -/
  | char (c : Char)
  /-- An escape with four hexadecimal digits. -/
  | unit (code : Nat)
  /-- A byte that belongs to no character. -/
  | stray
  deriving Repr, DecidableEq

structure Numeral where
  negative : Bool
  whole : List Char
  /-- The digits after the point; none without a point. -/
  fraction : List Char
  /-- Whether the exponent is negative, and its digits. -/
  exponent : Option (Bool × List Char)
  deriving Repr, DecidableEq

/-- A value as it is written. -/
inductive Written where
  | null
  | bool (b : Bool)
  | number (n : Numeral)
  | string (s : List Piece)
  | array (items : List Written)
  | object (members : List (List Piece × Written))
  deriving Repr

/-- The text of a string. Escapes of a high and a low surrogate make one character, to which each
    gives its lower ten bits; a surrogate without its partner makes none. -/
def Piece.text? : List Piece → Option (List Char)
  | [] => some []
  | .char c :: rest => (text? rest).map (c :: ·)
  | .stray :: _ => none
  | .unit n :: rest =>
    if 0xD800 ≤ n ∧ n < 0xDC00 then
      match rest with
      | .unit m :: rest₂ =>
        if 0xDC00 ≤ m ∧ m < 0xE000 then
          match Utf8.ofCode? (0x10000 + n % 0x400 * 0x400 + m % 0x400), text? rest₂ with
          | some c, some cs => some (c :: cs)
          | _, _ => none
        else none
      | _ => none
    else
      match Utf8.ofCode? n, text? rest with
      | some c, some cs => some (c :: cs)
      | _, _ => none

def Piece.string? (s : List Piece) : Option String := (Piece.text? s).map String.ofList

namespace Numeral

def digit (c : Char) : Nat := c.toNat - '0'.toNat

/-- Takes in the digits before the point as long as the number fits 64 bits, and counts those that
    are left. -/
def significand : List Char → Nat → Nat × Nat
  | [], n => (n, 0)
  | c :: rest, n =>
    if 10 * n + digit c < Decimal.limit64 then significand rest (10 * n + digit c)
    else (n, rest.length + 1)

/-- Takes in the digits after the point as long as the number fits 64 bits, and counts those taken
    in. The others do not matter any more. -/
def extend : List Char → Nat → Nat × Nat
  | [], n => (n, 0)
  | c :: rest, n =>
    if 10 * n + digit c < Decimal.limit64 then
      let (m, taken) := extend rest (10 * n + digit c)
      (m, taken + 1)
    else (n, 0)

/-- An exponent that counts no further than 31 bits; `none` beyond. -/
def exponent? : List Char → Nat → Option Nat
  | [], n => some n
  | c :: rest, n =>
    if 10 * n + digit c ≤ 2147483647 then exponent? rest (10 * n + digit c) else none

/-- An exponent stays within 32 bits, signed. -/
def clamp (e : Int) : Int := max (-2147483648) (min e 2147483647)

/-- The double of a numeral with a point, an exponent or too many digits. -/
def double? (n : Numeral) : Option Binary64 :=
  let (start, dropped) := significand n.whole 0
  let (m, taken) := extend n.fraction start
  let e : Int := dropped - taken
  let magnitude? : Option Nat := match n.exponent with
    | none => Binary64.ofDecimal? m e
    | some (below, ds) =>
      match exponent? ds 0 with
      | some k => Binary64.ofDecimal? m (clamp (if below then e - k else e + k))
      | none => if m ≠ 0 ∧ !below then none else some 0
  magnitude?.map (Binary64.ofMagnitude n.negative)

/-- The number of a numeral. Zero with a minus sign is no integer, as an integer has no sign to
    keep. -/
def number? (n : Numeral) : Option Number :=
  let (m, dropped) := significand n.whole 0
  if n.fraction = [] ∧ n.exponent = none ∧ dropped = 0 then
    if !n.negative then some (.integer m)
    else if m = 0 ∨ 9223372036854775808 < m then (double? n).map .double
    else some (.integer (-m))
  else (double? n).map .double

end Numeral

namespace Written

mutual

/-- The value of what is written, when arrays and objects nest at most `depth` deep. -/
def json? : Nat → Written → Option Json
  | _, .null => some .null
  | _, .bool b => some (.bool b)
  | _, .number n => n.number?.map .number
  | _, .string s => (Piece.string? s).map .string
  | 0, .array _ => none
  | depth + 1, .array items => (jsonItems? depth items).map .array
  | 0, .object _ => none
  | depth + 1, .object members => (jsonMembers? depth members).map Json.ofFields

def jsonItems? : Nat → List Written → Option (List Json)
  | _, [] => some []
  | depth, item :: rest =>
    match json? depth item, jsonItems? depth rest with
    | some j, some js => some (j :: js)
    | _, _ => none

/-- The keys and values of the members of an object, in the order they are written. -/
def jsonMembers? : Nat → List (List Piece × Written) → Option (List (String × Json))
  | _, [] => some []
  | depth, (key, value) :: rest =>
    match Piece.string? key, json? depth value, jsonMembers? depth rest with
    | some k, some j, some js => some ((k, j) :: js)
    | _, _, _ => none

end

/-- How deep arrays and objects may nest. -/
def maxDepth : Nat := 127

end Written

end QuorumStore
