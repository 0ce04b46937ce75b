/-! # Binary floating point of 64 bits

A number is kept as its bits. Rounding, multiplication and division go through exact natural
numbers, so that what is stored for a decimal does not depend on the machine.
-/

namespace QuorumStore

/-- A number of 64 bits: sign, eleven exponent bits, 52 fraction bits. -/
structure Binary64 where
  bits : UInt64
  deriving Repr, DecidableEq

namespace Binary64

/-- A positive fraction; the denominator is never zero where one is built. -/
structure Ratio where
  num : Nat
  den : Nat

/-- The fraction `n · 2 ^ q`. -/
def Ratio.scaled (n : Nat) (q : Int) : Ratio :=
  if 0 ≤ q then ⟨n * Nat.pow 2 q.toNat, 1⟩ else ⟨n, Nat.pow 2 (-q).toNat⟩

/-- The fraction `n · 10 ^ e`. -/
def Ratio.decimal (n : Nat) (e : Int) : Ratio :=
  if 0 ≤ e then ⟨n * Nat.pow 10 e.toNat, 1⟩ else ⟨n, Nat.pow 10 (-e).toNat⟩

def Ratio.le (a b : Ratio) : Bool := a.num * b.den ≤ b.num * a.den

def Ratio.lt (a b : Ratio) : Bool := a.num * b.den < b.num * a.den

/-- The quotient to the nearest natural number, where a half goes to the even neighbour. -/
def divideToEven (num den : Nat) : Nat :=
  let floor := num / den
  let twice := 2 * (num % den)
  if twice < den then floor
  else if den < twice then floor + 1
  else floor + floor % 2

/-- How many magnitudes have the same exponent. A mantissa of full length is at least this. -/
def binade : Nat := Nat.pow 2 52

def signBit : Nat := Nat.pow 2 63

/-- A magnitude is the bits of a number without its sign. The infinite ones start here. -/
def infinite : Nat := 2047 * binade

/-- The integer `m` of a magnitude `m · 2 ^ q`. -/
def mantissa (code : Nat) : Nat :=
  if code / binade = 0 then code else binade + code % binade

/-- The exponent `q` of a magnitude `m · 2 ^ q`. -/
def exponent (code : Nat) : Int :=
  if code / binade = 0 then -1074 else (code / binade : Nat) - 1075

/-- The exponent with which a positive fraction has a mantissa of 53 bits, or the least exponent
    if it would need a smaller one. -/
def fitExponent (r : Ratio) : Int :=
  let guess : Int := (Nat.log2 r.num : Int) - (Nat.log2 r.den : Int) - 52
  let fits := Ratio.le (Ratio.scaled (binade) guess) r
  max (if fits then guess else guess - 1) (-1074)

/-- The magnitude nearest to a fraction. It may be infinite. -/
def nearest (r : Ratio) : Nat :=
  if r.num = 0 then 0
  else
    let q := fitExponent r
    let unit := Ratio.scaled 1 q
    (q + 1074).toNat * binade + divideToEven (r.num * unit.den) (r.den * unit.num)

/-- The exact value of a finite magnitude. -/
def value (code : Nat) : Ratio := Ratio.scaled (mantissa code) (exponent code)

/-- The rounded product of two magnitudes. -/
def multiply (a b : Nat) : Nat :=
  let x := value a
  let y := value b
  nearest ⟨x.num * y.num, x.den * y.den⟩

/-- The rounded quotient of two magnitudes, the second one positive. -/
def divide (a b : Nat) : Nat :=
  let x := value a
  let y := value b
  nearest ⟨x.num * y.den, x.den * y.num⟩

def powerOfTen (e : Nat) : Nat := nearest ⟨Nat.pow 10 e, 1⟩

def largestPower : Nat := 308

/-- Divides by a power of ten. A power beyond the finite ones is taken off in portions. -/
def shrink (code e : Nat) : Nat :=
  if e ≤ largestPower then divide code (powerOfTen e)
  else if code = 0 then 0
  else shrink (divide code (powerOfTen largestPower)) (e - largestPower)
termination_by e
decreasing_by simp only [largestPower] at *; omega

/-- The magnitude of `n · 10 ^ e`, rounded once for the integer and once for the power; `none`
    where the number is too large. -/
def ofDecimal? (n : Nat) (e : Int) : Option Nat :=
  let start := nearest ⟨n, 1⟩
  if e < 0 then some (shrink start (-e).toNat)
  else if largestPower < e.toNat then (if start = 0 then some 0 else none)
  else
    let product := multiply start (powerOfTen e.toNat)
    if product < infinite then some product else none

/-- The number of a sign and a magnitude. -/
def ofMagnitude (negative : Bool) (code : Nat) : Binary64 :=
  ⟨UInt64.ofNat (if negative then signBit + code else code)⟩

def isNegative (x : Binary64) : Bool := signBit ≤ x.bits.toNat

def magnitude (x : Binary64) : Nat := x.bits.toNat % signBit

def ofNat (n : Nat) : Binary64 := ofMagnitude false (nearest ⟨n, 1⟩)

end Binary64

end QuorumStore
