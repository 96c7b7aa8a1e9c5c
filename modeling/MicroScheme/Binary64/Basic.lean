set_option autoImplicit false

/-!
Double-precision floating point, exactly. Every finite double is a whole number of units of 2^-1074, so a
magnitude is stored as a mantissa and the power of two by which it counts units. There is one rounding
function: to the nearest double, a tie to the even mantissa, and past the largest double to infinity.
-/

namespace MicroScheme

namespace Binary64

-- Powers are those of the core library, also where an algebraic hierarchy offers its own.
attribute [scoped instance (20000)] instPowNat

/-- The number of bits after the point: the smallest positive double is 2^-1074. -/
def unitExponent : Nat := 1074

def unitsInOne : Nat := 2 ^ unitExponent

/-- The parts of a finite magnitude: at most 53 bits, the leading one set unless the exponent is least. -/
def Canonical (mantissa exponent : Nat) : Prop :=
  mantissa < 2 ^ (53 : Nat) ∧ exponent ≤ 2045 ∧ (exponent ≠ 0 → 2 ^ (52 : Nat) ≤ mantissa)

instance (mantissa exponent : Nat) : Decidable (Canonical mantissa exponent) := by
  unfold Canonical; infer_instance

end Binary64

/-- A double: `finite negative mantissa exponent` is `mantissa * 2^exponent` units of 2^-1074. -/
inductive Binary64 where
  | nan
  | infinite (negative : Bool)
  | finite (negative : Bool) (mantissa exponent : Nat)
      (canonical : Binary64.Canonical mantissa exponent)
deriving DecidableEq

namespace Binary64

def zero (negative : Bool) : Binary64 :=
  .finite negative 0 0 (by simp [Canonical])

instance : Inhabited Binary64 := ⟨zero false⟩

def ofParts (negative : Bool) (mantissa exponent : Nat) : Binary64 :=
  if h : Canonical mantissa exponent then .finite negative mantissa exponent h else .infinite negative

/-- The whole number nearest to a quotient; a half goes to the even neighbour. -/
def roundQuotient (num den : Nat) : Nat :=
  if 2 * (num % den) < den then num / den
  else if den < 2 * (num % den) then num / den + 1
  else num / den + num / den % 2

def binade (units : Nat) : Nat := units.log2 - 52

/-- The double nearest to `num / den` units. -/
def round (negative : Bool) (num den : Nat) : Binary64 :=
  let exponent := binade (num / den)
  let mantissa := roundQuotient num (den * 2 ^ exponent)
  if mantissa = 2 ^ (53 : Nat) then ofParts negative (2 ^ (52 : Nat)) (exponent + 1)
  else ofParts negative mantissa exponent

def ofRatio (negative : Bool) (num den : Nat) : Binary64 :=
  round negative (num * unitsInOne) den

def ofInt (n : Int) : Binary64 :=
  ofRatio (n < 0) n.natAbs 1

def isFinite : Binary64 → Bool
  | .finite .. => true
  | _ => false

def isZero : Binary64 → Bool
  | .finite _ mantissa _ _ => mantissa = 0
  | _ => false

def signed (negative : Bool) (units : Nat) : Int :=
  if negative then -(units : Int) else units

def neg : Binary64 → Binary64
  | .nan => .nan
  | .infinite s => .infinite !s
  | .finite s m k h => .finite (!s) m k h

/-- The rounded sum. An exact sum of zero is negative only if both terms are. -/
def add : Binary64 → Binary64 → Binary64
  | .nan, _ => .nan
  | _, .nan => .nan
  | .infinite s, .infinite t => if s = t then .infinite s else .nan
  | .infinite s, .finite .. => .infinite s
  | .finite .., .infinite t => .infinite t
  | .finite s m j _, .finite t n k _ =>
    let sum := signed s (m * 2 ^ j) + signed t (n * 2 ^ k)
    if sum = 0 then zero (s && t) else round (sum < 0) sum.natAbs 1

def sub (x y : Binary64) : Binary64 := x.add y.neg

def mul : Binary64 → Binary64 → Binary64
  | .nan, _ => .nan
  | _, .nan => .nan
  | .infinite s, .infinite t => .infinite (s ^^ t)
  | .infinite s, .finite t n _ _ => if n = 0 then .nan else .infinite (s ^^ t)
  | .finite s m _ _, .infinite t => if m = 0 then .nan else .infinite (s ^^ t)
  | .finite s m j _, .finite t n k _ =>
    round (s ^^ t) (m * 2 ^ j * (n * 2 ^ k)) unitsInOne

def div : Binary64 → Binary64 → Binary64
  | .nan, _ => .nan
  | _, .nan => .nan
  | .infinite _, .infinite _ => .nan
  | .infinite s, .finite t _ _ _ => .infinite (s ^^ t)
  | .finite s _ _ _, .infinite t => zero (s ^^ t)
  | .finite s m j _, .finite t n k _ =>
    round (s ^^ t) (m * 2 ^ j * unitsInOne) (n * 2 ^ k)

end Binary64

end MicroScheme
