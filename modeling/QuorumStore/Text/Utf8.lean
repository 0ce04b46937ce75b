/-! # UTF-8

Bytes that arrive over the network are not always text. `scan` therefore keeps a place for every
byte that belongs to no character, so that a reader which skips over a part of a message need not
care whether that part is text, while `decode?` accepts text only.
-/

namespace QuorumStore.Utf8

/-- The character with a given code point; surrogates and numbers above the last plane have none. -/
def ofCode? (n : Nat) : Option Char :=
  if n.isValidChar then some (Char.ofNat n) else none

/-- The six payload bits of a continuation byte. -/
def continuation? (b : UInt8) : Option Nat :=
  if b.toNat / 64 = 2 then some (b.toNat % 64) else none

/-- The character written with two bytes. A code point that fits one byte is refused, since every
    character has exactly one encoding. -/
def two? (a b : UInt8) : Option Char :=
  match continuation? b with
  | some y =>
    let n := a.toNat % 32 * 64 + y
    if a.toNat / 32 = 6 ∧ 0x80 ≤ n then ofCode? n else none
  | none => none

def three? (a b c : UInt8) : Option Char :=
  match continuation? b, continuation? c with
  | some y, some z =>
    let n := a.toNat % 16 * 4096 + y * 64 + z
    if a.toNat / 16 = 14 ∧ 0x800 ≤ n then ofCode? n else none
  | _, _ => none

def four? (a b c d : UInt8) : Option Char :=
  match continuation? b, continuation? c, continuation? d with
  | some x, some y, some z =>
    let n := a.toNat % 8 * 262144 + x * 4096 + y * 64 + z
    if a.toNat / 8 = 30 ∧ 0x10000 ≤ n then ofCode? n else none
  | _, _, _ => none

/-- The characters that the bytes hold, in order, with `none` for each byte that is part of no
    character. -/
def scan : List UInt8 → List (Option Char)
  | [] => []
  | a :: rest =>
    if a.toNat < 0x80 then some (Char.ofNat a.toNat) :: scan rest
    else match rest with
      | [] => [none]
      | b :: rest₂ =>
        match two? a b with
        | some ch => some ch :: scan rest₂
        | none =>
          match rest₂ with
          | [] => none :: scan [b]
          | c :: rest₃ =>
            match three? a b c with
            | some ch => some ch :: scan rest₃
            | none =>
              match rest₃ with
              | [] => none :: scan [b, c]
              | d :: rest₄ =>
                match four? a b c d with
                | some ch => some ch :: scan rest₄
                | none => none :: scan (b :: c :: d :: rest₄)

def encode (cs : List Char) : List UInt8 := cs.flatMap String.utf8EncodeChar

/-- The text that the bytes hold, if they hold nothing else. -/
def decode? (bytes : List UInt8) : Option (List Char) := (scan bytes).mapM id

def ofString (s : String) : List UInt8 := encode s.toList

/-- The string that the bytes hold, if they are text. -/
def toString? (bytes : List UInt8) : Option String := (decode? bytes).map String.ofList

end QuorumStore.Utf8
