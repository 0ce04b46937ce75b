import QuorumStore.Json.Basic
import QuorumStore.Text.Utf8
/-! # Printing JSON

The text of a value has no blanks between its tokens, and the members of an object come in the order
in which they stand, so a value has exactly one text.
-/

namespace QuorumStore.Json

/-- A lower-case hexadecimal digit. -/
def hexDigit (n : Nat) : Char := Nat.digitChar n

/-- A character inside a string. Quotes, backslashes and control characters are escaped. -/
def escape (c : Char) : List Char :=
  if c = '"' then ['\\', '"']
  else if c = '\\' then ['\\', '\\']
  else if c = '\x08' then ['\\', 'b']
  else if c = '\x0c' then ['\\', 'f']
  else if c = '\n' then ['\\', 'n']
  else if c = '\r' then ['\\', 'r']
  else if c = '\t' then ['\\', 't']
  else if c.toNat < 0x20 then
    ['\\', 'u', '0', '0', hexDigit (c.toNat / 16), hexDigit (c.toNat % 16)]
  else [c]

def quote (s : String) : List Char := '"' :: s.toList.flatMap escape ++ ['"']

/-- Doubles are written out up to sixteen places before the point and five after it, always with a
    fraction, so that they are told from integers. -/
def doubleLayout : Binary64.Layout := ⟨-5, 16, ['+'], ['.', '0']⟩

end Json

def Number.print : Number → List Char
  | .integer (.ofNat n) => Nat.toDigits 10 n
  | .integer (.negSucc n) => '-' :: Nat.toDigits 10 (n + 1)
  | .double x => Json.doubleLayout.text x

namespace Json

mutual

def print : Json → List Char
  | .null => ['n', 'u', 'l', 'l']
  | .bool true => ['t', 'r', 'u', 'e']
  | .bool false => ['f', 'a', 'l', 's', 'e']
  | .number n => n.print
  | .string s => quote s
  | .array items => '[' :: printItems items ++ [']']
  | .object fields => '\x7b' :: printFields fields ++ ['\x7d']

/-- The items of an array, with commas between them. -/
def printItems : List Json → List Char
  | [] => []
  | [item] => print item
  | item :: rest => print item ++ ',' :: printItems rest

/-- The members of an object, with commas between them. -/
def printFields : List (String × Json) → List Char
  | [] => []
  | [(key, value)] => quote key ++ ':' :: print value
  | (key, value) :: rest => quote key ++ ':' :: print value ++ ',' :: printFields rest

end

def compact (j : Json) : String := String.ofList (print j)

/-- The text of a value as it is sent. -/
def bytes (j : Json) : List UInt8 := Utf8.encode (print j)

end Json

end QuorumStore
