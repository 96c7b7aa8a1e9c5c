import MicroScheme.Binary64.Basic

set_option autoImplicit false

namespace MicroScheme

open scoped Binary64

inductive Number where
  | int (n : Int)
  | float (x : Binary64)
deriving DecidableEq, Inhabited

inductive ArithmeticFault where
  | integerTooLarge
  | integerDivisionByZero
  | floatDivisionByZero
  | quotientTooLarge
deriving DecidableEq

def ArithmeticFault.message : ArithmeticFault → String
  | .integerTooLarge => "int too large to convert to float"
  | .integerDivisionByZero => "division by zero"
  | .floatDivisionByZero => "float division by zero"
  | .quotientTooLarge => "integer division result too large for a float"

/-- A place on the line of numbers: beyond both ends, or a number of units of 2^-1074. -/
inductive Position where
  | below
  | units (n : Int)
  | above
deriving DecidableEq

namespace Position

def less : Position → Position → Bool
  | .below, .below => false
  | .below, _ => true
  | .units _, .below => false
  | .units m, .units n => m < n
  | .units _, .above => true
  | .above, _ => false

end Position

def Binary64.position? : Binary64 → Option Position
  | .nan => none
  | .infinite negative => some (if negative then .below else .above)
  | .finite negative mantissa exponent _ => some (.units (signed negative (mantissa * 2 ^ exponent)))

namespace Number

def position? : Number → Option Position
  | .int n => some (.units (n * (Binary64.unitsInOne : Int)))
  | .float x => x.position?

def equal (a b : Number) : Bool :=
  match a.position?, b.position? with
  | some p, some q => p = q
  | _, _ => false

def less (a b : Number) : Bool :=
  match a.position?, b.position? with
  | some p, some q => p.less q
  | _, _ => false

/-- A number as a double. An integer beyond the doubles has none. -/
def toFloat : Number → Except ArithmeticFault Binary64
  | .int n =>
    let x := Binary64.ofInt n
    if x.isFinite then .ok x else .error .integerTooLarge
  | .float x => .ok x

/-- Applies an operation on doubles to two numbers, the left one converted first. -/
def viaFloat (op : Binary64 → Binary64 → Binary64) (a b : Number) : Except ArithmeticFault Number := do
  let x ← a.toFloat
  let y ← b.toFloat
  return .float (op x y)

def add : Number → Number → Except ArithmeticFault Number
  | .int m, .int n => .ok (.int (m + n))
  | a, b => viaFloat Binary64.add a b

def sub : Number → Number → Except ArithmeticFault Number
  | .int m, .int n => .ok (.int (m - n))
  | a, b => viaFloat Binary64.sub a b

def mul : Number → Number → Except ArithmeticFault Number
  | .int m, .int n => .ok (.int (m * n))
  | a, b => viaFloat Binary64.mul a b

def neg : Number → Number
  | .int n => .int (-n)
  | .float x => .float x.neg

def divInt (m n : Int) : Except ArithmeticFault Number :=
  if n = 0 then .error .integerDivisionByZero
  else
    let x := Binary64.ofRatio ((m < 0) ^^ (n < 0)) m.natAbs n.natAbs
    if x.isFinite then .ok (.float x) else .error .quotientTooLarge

def divFloat (x y : Binary64) : Except ArithmeticFault Number :=
  if y.isZero then .error .floatDivisionByZero else .ok (.float (x.div y))

def div : Number → Number → Except ArithmeticFault Number
  | .int m, .int n => divInt m n
  | a, b => do
    let x ← a.toFloat
    let y ← b.toFloat
    divFloat x y

end Number

end MicroScheme
