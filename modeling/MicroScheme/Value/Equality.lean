import MicroScheme.Value.Basic

set_option autoImplicit false

namespace MicroScheme.Value

def truthNumber (b : Bool) : Number := .int (if b then 1 else 0)

mutual

/-- Equality inside lists, where a boolean counts as a number. NaN equals nothing, for it has no identity by which it could
be equal to itself. -/
def equalInside : Value → Value → Bool
  | .number m, .number n => m.equal n
  | .number m, .bool b => m.equal (truthNumber b)
  | .bool a, .number n => (truthNumber a).equal n
  | .bool a, .bool b => a = b
  | .text s, .text t => s = t
  | .symbol s, .symbol t => s = t
  | .list xs, .list ys => equalLists xs ys
  | .unspecified, .unspecified => true
  | .closure i _ _ _, .closure j _ _ _ => i = j
  | .native p, .native q => p = q
  | _, _ => false

def equalLists : List Value → List Value → Bool
  | [], [] => true
  | x :: xs, y :: ys => equalInside x y && equalLists xs ys
  | _, _ => false

end

def equal : Value → Value → Bool
  | .bool a, .bool b => a = b
  | .bool _, _ => false
  | _, .bool _ => false
  | a, b => equalInside a b

end MicroScheme.Value
