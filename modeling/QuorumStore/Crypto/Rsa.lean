import QuorumStore.Crypto.Hash
/-! # RSA signatures

Whoever knows the factors of the modulus can take roots modulo it, and everybody else can check a
root by taking its power. What has to come out is the digest of the message in one of two
paddings.
-/

namespace QuorumStore.Crypto

structure RsaKey where
  modulus : Nat
  exponent : Nat
  deriving Repr

namespace RsaKey

/-- The bytes of the modulus. -/
def size (k : RsaKey) : Nat := (bitLength k.modulus + 7) / 8

/-- Whether the key is of a strength that is accepted. -/
def acceptable (k : RsaKey) : Bool :=
  2041 ≤ bitLength k.modulus && bitLength k.modulus ≤ 8192 && k.modulus % 2 == 1 &&
    3 ≤ k.exponent && k.exponent % 2 == 1 && k.exponent < Nat.pow 2 33

/-- The padded digest that a signature stands for. -/
def open? (k : RsaKey) (signature : List UInt8) : Option (List UInt8) :=
  let s := ofBigEndian signature
  if k.acceptable ∧ signature.length = k.size ∧ s < k.modulus then
    some (bigEndian k.size (powMod k.modulus s k.exponent))
  else none

/-- What stands before a digest and names its hash function. -/
def digestInfo (h : Hash) : List UInt8 :=
  let last : UInt8 := if h.size = 32 then 1 else if h.size = 48 then 2 else 3
  let n := UInt8.ofNat h.size
  [0x30, 0x11 + n, 0x30, 0x0d, 0x06, 0x09, 0x60, 0x86, 0x48, 0x01, 0x65, 0x03, 0x04, 0x02, last,
    0x05, 0x00, 0x04, n]

/-- The padding in which everything but the digest is fixed. -/
def fixedPadding (h : Hash) (size : Nat) (message : List UInt8) : List UInt8 :=
  let tail := digestInfo h ++ h.digest message
  [0x00, 0x01] ++ List.replicate (size - 3 - tail.length) 0xff ++ 0x00 :: tail

/-- Whether a signature with the fixed padding is good. -/
def verify (k : RsaKey) (h : Hash) (message signature : List UInt8) : Bool :=
  k.open? signature == some (fixedPadding h k.size message)

/-- As many bytes as wanted, made from a seed. -/
def stretch (h : Hash) (seed : List UInt8) (length : Nat) : List UInt8 :=
  ((List.range (length / h.size + 1)).flatMap fun i =>
    h.digest (seed ++ bigEndian 4 i)).take length

/-- Whether a padded digest with a salt is that of a message. The salt is as long as a digest. -/
def saltedPadding (h : Hash) (bits : Nat) (message padded : List UInt8) : Bool :=
  let size := (bits + 7) / 8
  let dbSize := size - h.size - 1
  let masked := padded.take dbSize
  let digest := (padded.drop dbSize).take h.size
  let mask : UInt8 := UInt8.ofNat (255 >>> (8 * size - bits))
  let db := match xorBytes masked (stretch h digest dbSize) with
    | first :: rest => (first &&& mask) :: rest
    | [] => []
  let zeros := dbSize - h.size - 1
  let salt := db.drop (zeros + 1)
  2 * h.size + 2 ≤ size && padded.length == size && padded.getLast? == some 0xbc &&
    (masked.head?.all fun first => first &&& mask == first) &&
    db.take (zeros + 1) == List.replicate zeros 0 ++ [1] &&
    h.digest (List.replicate 8 0 ++ h.digest message ++ salt) == digest

/-- Whether a signature with the salted padding is good. -/
def verifySalted (k : RsaKey) (h : Hash) (message signature : List UInt8) : Bool :=
  let bits := bitLength k.modulus - 1
  match k.open? signature with
  | none => false
  | some padded =>
    let front := k.size - (bits + 7) / 8
    (padded.take front).all (· == 0) && saltedPadding h bits message (padded.drop front)

end RsaKey

end QuorumStore.Crypto
