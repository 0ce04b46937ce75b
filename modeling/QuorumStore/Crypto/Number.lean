/-! # Numbers and their bytes

Signatures are arithmetic on large natural numbers, which travel as bytes.
-/

namespace QuorumStore.Crypto

/-- The number whose bytes these are, the most significant first. -/
def ofBigEndian (bytes : List UInt8) : Nat := bytes.foldl (fun n b => n * 256 + b.toNat) 0

/-- The number whose bytes these are, the least significant first. -/
def ofLittleEndian (bytes : List UInt8) : Nat := ofBigEndian bytes.reverse

/-- The last `length` bytes of a number, the least significant first. -/
def littleEndian : Nat → Nat → List UInt8
  | 0, _ => []
  | length + 1, n => UInt8.ofNat (n % 256) :: littleEndian length (n / 256)

/-- The last `length` bytes of a number, the most significant first. -/
def bigEndian (length n : Nat) : List UInt8 := (littleEndian length n).reverse

/-- A power modulo `m`, by squaring. -/
def powMod (m b e : Nat) : Nat :=
  if e = 0 then 1 % m
  else
    let half := powMod m (b * b % m) (e / 2)
    if e % 2 = 1 then half * b % m else half
termination_by e
decreasing_by omega

/-- The inverse modulo a prime, by the little theorem of Fermat. -/
def invMod (p a : Nat) : Nat := powMod p a (p - 2)

def subMod (m a b : Nat) : Nat := (a + (m - b % m)) % m

def bitLength (n : Nat) : Nat := if n = 0 then 0 else Nat.log2 n + 1

/-- The bytes that are in one list or in the other but not in both, bit by bit. -/
def xorBytes (a b : List UInt8) : List UInt8 := List.zipWith (· ^^^ ·) a b

end QuorumStore.Crypto
