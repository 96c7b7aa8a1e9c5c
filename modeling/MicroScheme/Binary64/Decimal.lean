import MicroScheme.Binary64.Basic

set_option autoImplicit false

namespace MicroScheme

open scoped Binary64

/-- The decimal number `digits * 10^exponent`. -/
structure Decimal where
  digits : Nat
  exponent : Int
deriving DecidableEq, Inhabited

namespace Decimal

def length (n : Nat) : Nat := (Nat.toDigits 10 n).length

def point (d : Decimal) : Int := length d.digits + d.exponent

def cutZeros : Nat → Decimal → Decimal
  | 0, d => d
  | count + 1, d =>
    if d.digits % 10 = 0 then cutZeros count ⟨d.digits / 10, d.exponent + 1⟩ else d

def trimmed (d : Decimal) : Decimal := cutZeros (length d.digits) d

end Decimal

namespace Binary64

/-- The double nearest to a decimal. A decimal whose point lies beyond every double is settled without
computing it. -/
def ofDecimal (negative : Bool) (d : Decimal) : Binary64 :=
  if d.digits = 0 then zero negative
  else if 310 < d.point then .infinite negative
  else if d.point < -330 then zero negative
  else ofRatio negative (d.digits * 10 ^ d.exponent.toNat) (10 ^ (-d.exponent).toNat)

def decimalPoint (units : Nat) : Int :=
  (Decimal.length (units * 10 ^ (400 : Nat) / unitsInOne) : Int) - 400

/-- The two neighbours of a magnitude on the grid of decimals with that exponent, the nearer one first; of
two equally near, the even one. -/
def neighbours (units : Nat) (exponent : Int) : List Decimal :=
  let num := units * 10 ^ (-exponent).toNat
  let den := unitsInOne * 10 ^ exponent.toNat
  let lower := num / den
  let nearest := roundQuotient num den
  [⟨nearest, exponent⟩, ⟨if nearest = lower then lower + 1 else lower, exponent⟩]

def exactDecimal (units : Nat) : Decimal :=
  ⟨units * 5 ^ unitExponent, -(unitExponent : Int)⟩

/-- The decimal with the fewest digits that reads back as the magnitude. Seventeen digits always do. -/
def shortest (mantissa exponent : Nat) : Decimal :=
  let units := mantissa * 2 ^ exponent
  let point := decimalPoint units
  let readsBack (d : Decimal) : Bool := ofDecimal false d = ofParts false mantissa exponent
  let found := (List.range 17).findSome? fun n =>
    (neighbours units (point - (n + 1 : Nat))).find? readsBack
  (found.getD (exactDecimal units)).trimmed

/-- How a decimal is laid out: which positions of the point are written without an exponent, and the least
width of an exponent. -/
structure Layout where
  lowestPoint : Int
  highestPoint : Int
  exponentWidth : Nat

/-- Positional from 0.0001 to below 10^16; exponents have a sign and at least two digits. -/
def layout : Layout := ⟨-3, 16, 2⟩

def exponentText (format : Layout) (exponent : Int) : List Char :=
  let digits := Nat.toDigits 10 exponent.natAbs
  'e' :: (if exponent < 0 then '-' else '+') ::
    (List.replicate (format.exponentWidth - digits.length) '0' ++ digits)

def decimalText (format : Layout) (d : Decimal) : List Char :=
  let digits := Nat.toDigits 10 d.digits
  let point := d.point
  if point < format.lowestPoint || format.highestPoint < point then
    digits.take 1 ++ (if digits.length = 1 then [] else '.' :: digits.drop 1) ++
      exponentText format (point - 1)
  else if point ≤ 0 then
    '0' :: '.' :: (List.replicate (-point).toNat '0' ++ digits)
  else if digits.length ≤ point.toNat then
    digits ++ List.replicate (point.toNat - digits.length) '0' ++ ['.', '0']
  else
    digits.take point.toNat ++ '.' :: digits.drop point.toNat

/-- The shortest text that reads back as the same double; `nan`, `inf` and `-inf` for the others. -/
def toText : Binary64 → String
  | .nan => "nan"
  | .infinite negative => if negative then "-inf" else "inf"
  | .finite negative mantissa exponent _ =>
    let digits := if mantissa = 0 then ['0', '.', '0']
      else decimalText layout (shortest mantissa exponent)
    String.ofList (if negative then '-' :: digits else digits)

end Binary64

end MicroScheme
