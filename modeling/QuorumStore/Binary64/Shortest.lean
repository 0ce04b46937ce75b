import QuorumStore.Binary64.Basic
/-! # Shortest decimals

The text of a number has the fewest digits that read back as the same number, and of those the
digits nearest to it.
-/

namespace QuorumStore.Binary64

/-- A decimal `digits · 10 ^ exponent`. -/
structure Decimal where
  digits : Nat
  exponent : Int

/-- The decimals that round to a magnitude: between the middles towards its neighbours, the ends
    included when its mantissa is even. -/
structure Basin where
  low : Ratio
  high : Ratio
  closed : Bool

/-- The neighbour below a power of two is only half as far away as the one above. -/
def basin (code : Nat) : Basin :=
  let m := mantissa code
  let q := exponent code - 2
  let below := if code % binade = 0 ∧ 1 < code / binade then 1 else 2
  ⟨Ratio.scaled (4 * m - below) q, Ratio.scaled (4 * m + 2) q, m % 2 == 0⟩

/-- Whether a fraction rounds to the number of the basin. -/
def Basin.holds (b : Basin) (r : Ratio) : Bool :=
  if b.closed then b.low.le r && r.le b.high else b.low.lt r && r.lt b.high

/-- The position of the decimal point: the least `p` with the fraction below `10 ^ p`. -/
def pointPosition (r : Ratio) : Int :=
  if r.den ≤ r.num then (Nat.toDigits 10 (r.num / r.den)).length
  else
    let short := (r.den + r.num - 1) / r.num
    1 - (if short ≤ 1 then 0 else (Nat.toDigits 10 (short - 1)).length : Nat)

/-- The distance of two fractions, over the product of their denominators. -/
def gap (a b : Ratio) : Nat :=
  let x := a.num * b.den
  let y := b.num * a.den
  if x ≤ y then y - x else x - y

/-- The nearer of two neighbours on a decimal grid; of two equally near the even one. -/
def nearer (r : Ratio) (floor : Nat) (e : Int) : Decimal :=
  let below := Ratio.decimal floor e
  let above := Ratio.decimal (floor + 1) e
  let down := gap r below * above.den
  let up := gap r above * below.den
  if down < up then ⟨floor, e⟩
  else if up < down then ⟨floor + 1, e⟩
  else ⟨floor + floor % 2, e⟩

/-- The decimals with `count` digits, at most two, that lie next to the fraction; of them the one
    that reads back. -/
def onGrid? (r : Ratio) (b : Basin) (point : Int) (count : Nat) : Option Decimal :=
  let e := point - count
  let unit := Ratio.decimal 1 e
  let floor := (r.num * unit.den) / (r.den * unit.num)
  match b.holds (Ratio.decimal floor e), b.holds (Ratio.decimal (floor + 1) e) with
  | true, true => some (nearer r floor e)
  | true, false => some ⟨floor, e⟩
  | false, true => some ⟨floor + 1, e⟩
  | false, false => none

/-- Seventeen digits always read back, so the last grid is not searched in vain. -/
def shortestFrom (r : Ratio) (b : Basin) (point : Int) : Nat → Nat → Decimal
  | 0, count => nearer r ((r.num * (Ratio.decimal 1 (point - count)).den) /
      (r.den * (Ratio.decimal 1 (point - count)).num)) (point - count)
  | more + 1, count =>
    match onGrid? r b point count with
    | some d => d
    | none => shortestFrom r b point more (count + 1)

/-- The shortest decimal of a positive finite magnitude. -/
def shortest (code : Nat) : Decimal :=
  let r := value code
  shortestFrom r (basin code) (pointPosition r) 16 1

/-- Moves zeros from the end of the digits into the exponent. -/
def Decimal.strip (d : Decimal) : Nat → Decimal
  | 0 => d
  | fuel + 1 =>
    if d.digits ≠ 0 ∧ d.digits % 10 = 0 then
      Decimal.strip ⟨d.digits / 10, d.exponent + 1⟩ fuel
    else d

/-- How a format writes a decimal. -/
structure Layout where
  /-- The least decimal exponent that is written without an exponent part. -/
  lowest : Int
  /-- The first decimal exponent that is written with an exponent part again. -/
  highest : Int
  /-- What stands before a positive exponent. -/
  plus : List Char
  /-- What follows a number without a fraction. -/
  whole : List Char

/-- The text of a positive decimal whose digits do not end in zero. -/
def Layout.write (l : Layout) (d : Decimal) : List Char :=
  let ds := Nat.toDigits 10 d.digits
  let point : Int := ds.length + d.exponent
  if l.lowest ≤ point - 1 ∧ point - 1 < l.highest then
    if 0 ≤ d.exponent then ds ++ List.replicate d.exponent.toNat '0' ++ l.whole
    else if 0 < point then ds.take point.toNat ++ '.' :: ds.drop point.toNat
    else '0' :: '.' :: (List.replicate (-point).toNat '0' ++ ds)
  else
    let e := point - 1
    let power := (if e < 0 then ['-'] else l.plus) ++ Nat.toDigits 10 e.natAbs
    ds.take 1 ++ (if ds.length = 1 then [] else '.' :: ds.drop 1) ++ 'e' :: power

/-- The text of a finite number, zeros included. -/
def Layout.text (l : Layout) (x : Binary64) : List Char :=
  let sign := if x.isNegative then ['-'] else []
  if x.magnitude = 0 then sign ++ '0' :: l.whole
  else sign ++ l.write ((shortest x.magnitude).strip 400)

end QuorumStore.Binary64
