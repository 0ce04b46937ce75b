/-! # Base 64

Six bits are written as one character. The reader is strict: the bits that are left over at the end
have to be zero, so that every sequence of bytes has one text.
-/

namespace QuorumStore.Base64

/-- An alphabet by the two characters in which the common ones differ. -/
structure Alphabet where
  c62 : Char
  c63 : Char

/-- The alphabet that needs no escapes in an address. -/
def url : Alphabet := ⟨'-', '_'⟩

/-- The alphabet of mail. -/
def standard : Alphabet := ⟨'+', '/'⟩

/-- The six bits of a character. -/
def Alphabet.value? (a : Alphabet) (c : Char) : Option Nat :=
  if 'A' ≤ c ∧ c ≤ 'Z' then some (c.toNat - 'A'.toNat)
  else if 'a' ≤ c ∧ c ≤ 'z' then some (c.toNat - 'a'.toNat + 26)
  else if '0' ≤ c ∧ c ≤ '9' then some (c.toNat - '0'.toNat + 52)
  else if c = a.c62 then some 62
  else if c = a.c63 then some 63
  else none

/-- The bytes of some groups of six bits. A group alone at the end is no byte. -/
def bytes? : List Nat → Option (List UInt8)
  | [] => some []
  | [_] => none
  | [a, b] => if b % 16 = 0 then some [UInt8.ofNat (a * 4 + b / 16)] else none
  | [a, b, c] =>
    if c % 4 = 0 then some [UInt8.ofNat (a * 4 + b / 16), UInt8.ofNat (b % 16 * 16 + c / 4)]
    else none
  | a :: b :: c :: d :: rest =>
    (bytes? rest).map fun more =>
      UInt8.ofNat (a * 4 + b / 16) :: UInt8.ofNat (b % 16 * 16 + c / 4) ::
        UInt8.ofNat (c % 4 * 64 + d) :: more

/-- The bytes of a text without padding. -/
def decode? (a : Alphabet) (cs : List Char) : Option (List UInt8) :=
  (cs.mapM a.value?).bind bytes?

/-- The bytes of a text that is padded to groups of four characters. -/
def decodePadded? (a : Alphabet) (cs : List Char) : Option (List UInt8) :=
  let body := cs.takeWhile (· != '=')
  let padding := cs.length - body.length
  if cs.length % 4 = 0 ∧ padding ≤ 2 ∧ (cs.drop body.length).all (· == '=') then decode? a body
  else none

end QuorumStore.Base64
