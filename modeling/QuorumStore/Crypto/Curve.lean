import QuorumStore.Crypto.Hash
/-! # Signatures on elliptic curves

Points of a curve can be added, so they can be multiplied by numbers. The two kinds of curves here
differ in how points are added and in what a signature says about them.
-/

namespace QuorumStore.Crypto

/-! ## Curves in short form -/

/-- A curve `y ^ 2 = x ^ 3 - 3 x + b` over a prime field, with a point of prime order. -/
structure Curve where
  prime : Nat
  b : Nat
  base : Nat × Nat
  order : Nat
  /-- The bytes of a coordinate. -/
  size : Nat
  hash : Hash

/-- A point; `none` is the point at infinity. -/
abbrev Point := Option (Nat × Nat)

namespace Curve

def holds (c : Curve) (x y : Nat) : Bool :=
  x < c.prime && y < c.prime &&
    y * y % c.prime == subMod c.prime (x * x * x + c.b) (3 * x)

/-- The point where a line of some slope through two points meets the curve again, mirrored. -/
def chord (c : Curve) (slope x₁ y₁ x₂ : Nat) : Point :=
  let x := subMod c.prime (slope * slope) (x₁ + x₂)
  some (x, subMod c.prime (slope * subMod c.prime x₁ x) y₁)

/-- The sum of two points. -/
def add (c : Curve) : Point → Point → Point
  | none, q => q
  | p, none => p
  | some (x₁, y₁), some (x₂, y₂) =>
    let p := c.prime
    if x₁ = x₂ then
      if (y₁ + y₂) % p = 0 then none
      else c.chord (subMod p (3 * x₁ * x₁) 3 * invMod p (2 * y₁) % p) x₁ y₁ x₂
    else c.chord (subMod p y₂ y₁ * invMod p (subMod p x₂ x₁) % p) x₁ y₁ x₂

/-- A multiple of a point, by doubling. -/
def multiple (c : Curve) (n : Nat) (p : Point) : Point :=
  if n = 0 then none
  else
    let half := c.multiple (n / 2) (c.add p p)
    if n % 2 = 1 then c.add half p else half
termination_by n
decreasing_by omega

/-- The point of an uncompressed encoding. -/
def point? (c : Curve) (bytes : List UInt8) : Option (Nat × Nat) :=
  let x := ofBigEndian ((bytes.drop 1).take c.size)
  let y := ofBigEndian (bytes.drop (1 + c.size))
  if bytes.length = 1 + 2 * c.size ∧ bytes.head? = some 4 ∧ c.holds x y then some (x, y) else none

/-- Whether a signature of two numbers of fixed length is good. -/
def verify (c : Curve) (key message signature : List UInt8) : Bool :=
  let r := ofBigEndian (signature.take c.size)
  let s := ofBigEndian (signature.drop c.size)
  match c.point? key with
  | none => false
  | some q =>
    if signature.length = 2 * c.size ∧ 0 < r ∧ r < c.order ∧ 0 < s ∧ s < c.order then
      let e := ofBigEndian ((c.hash.digest message).take c.size)
      let w := invMod c.order s
      let sum := c.add (c.multiple (e * w % c.order) (some c.base))
        (c.multiple (r * w % c.order) (some q))
      match sum with
      | some (x, _) => x % c.order == r
      | none => false
    else false

end Curve

def p256 : Curve where
  prime := Nat.pow 2 256 - Nat.pow 2 224 + Nat.pow 2 192 + Nat.pow 2 96 - 1
  b := 0x5ac635d8aa3a93e7b3ebbd55769886bc651d06b0cc53b0f63bce3c3e27d2604b
  base := (0x6b17d1f2e12c4247f8bce6e563a440f277037d812deb33a0f4a13945d898c296,
    0x4fe342e2fe1a7f9b8ee7eb4a7c0f9e162bce33576b315ececbb6406837bf51f5)
  order := 0xffffffff00000000ffffffffffffffffbce6faada7179e84f3b9cac2fc632551
  size := 32
  hash := sha256

def p384 : Curve where
  prime := Nat.pow 2 384 - Nat.pow 2 128 - Nat.pow 2 96 + Nat.pow 2 32 - 1
  b := 0xb3312fa7e23ee7e4988e056be3f82d19181d9c6efe8141120314088f5013875ac656398d8a2ed19d2a85c8edd3ec2aef
  base := (
    0xaa87ca22be8b05378eb1c71ef320ad746e1d3b628ba79b9859f741e082542a385502f25dbf55296c3a545e3872760ab7,
    0x3617de4a96262c6f5d9e98bf9292dc29f8f41dbd289a147ce9da3113b5f0b8c00a60b1ce1d7e819d7a431d7c90ea0e5f)
  order := 0xffffffffffffffffffffffffffffffffffffffffffffffffc7634d81f4372ddf581a0db248b0a77aecec196accc52973
  size := 48
  hash := sha384

/-! ## The twisted curve -/

namespace Edwards

def prime : Nat := Nat.pow 2 255 - 19

def order : Nat := Nat.pow 2 252 + 27742317777372353535851937790883648493

/-- The coefficient of the curve `y ^ 2 - x ^ 2 = 1 + d x ^ 2 y ^ 2`. -/
def d : Nat := subMod prime 0 (121665 * invMod prime 121666)

/-- The sum of two points; no case is special on this curve. -/
def add (p q : Nat × Nat) : Nat × Nat :=
  let (x₁, y₁) := p
  let (x₂, y₂) := q
  let t := d * (x₁ * x₂ % prime) % prime * (y₁ * y₂ % prime) % prime
  ((x₁ * y₂ + x₂ * y₁) * invMod prime (1 + t) % prime,
    (y₁ * y₂ + x₁ * x₂) * invMod prime (subMod prime 1 t) % prime)

def multiple (n : Nat) (p : Nat × Nat) : Nat × Nat :=
  if n = 0 then (0, 1)
  else
    let half := multiple (n / 2) (add p p)
    if n % 2 = 1 then add half p else half
termination_by n
decreasing_by omega

/-- A square root modulo the prime, if there is one. -/
def sqrt? (a : Nat) : Option Nat :=
  let r := powMod prime a ((prime + 3) / 8)
  let s := r * powMod prime 2 ((prime - 1) / 4) % prime
  if r * r % prime = a % prime then some r
  else if s * s % prime = a % prime then some s
  else none

/-- The point of an encoding: its second coordinate and the parity of the first one. -/
def point? (bytes : List UInt8) : Option (Nat × Nat) :=
  let n := ofLittleEndian bytes
  let y := n % Nat.pow 2 255
  let odd := n / Nat.pow 2 255
  if bytes.length ≠ 32 then none
  else
    let u := subMod prime (y * y) 1
    let v := (d * (y * y % prime) + 1) % prime
    match sqrt? (u * invMod prime v % prime) with
    | none => none
    | some x => some (if x % 2 = odd then x else (prime - x) % prime, y % prime)

def encode (p : Nat × Nat) : List UInt8 := littleEndian 32 (p.2 + p.1 % 2 * Nat.pow 2 255)

/-- The base point has the second coordinate four fifths. -/
def base : Nat × Nat :=
  (point? (littleEndian 32 (4 * invMod prime 5 % prime))).getD (0, 1)

/-- Whether a signature of a point and a number is good. -/
def verify (key message signature : List UInt8) : Bool :=
  let r := signature.take 32
  let s := ofLittleEndian (signature.drop 32)
  match point? key with
  | none => false
  | some (x, y) =>
    if signature.length = 64 ∧ s < order then
      let k := ofLittleEndian (sha512.digest (r ++ key ++ message)) % order
      let negated := ((prime - x) % prime, y)
      encode (add (multiple s base) (multiple k negated)) == r
    else false

end Edwards

end QuorumStore.Crypto
