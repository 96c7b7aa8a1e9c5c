import MicroScheme.Number

set_option autoImplicit false

namespace MicroScheme

/-- A name that is looked up when it is evaluated. Symbols of one name are the same symbol. -/
structure Symbol where
  name : String
deriving DecidableEq, Inhabited

inductive Primitive where
  | add
  | subtract
  | multiply
  | divide
  | equal
  | less
  | greater
  | not
  | length
  | car
  | cdr
  | cons
  | list
deriving DecidableEq

namespace Primitive

def all : List Primitive :=
  [.add, .subtract, .multiply, .divide, .equal, .less, .greater, .not, .length, .car, .cdr, .cons, .list]

def operator : Primitive → String
  | .add => "+"
  | .subtract => "-"
  | .multiply => "*"
  | .divide => "/"
  | .equal => "="
  | .less => "<"
  | .greater => ">"
  | .not => "not"
  | .length => "length"
  | .car => "car"
  | .cdr => "cdr"
  | .cons => "cons"
  | .list => "list"

def label : Primitive → String
  | .add => "add"
  | .subtract => "sub"
  | .multiply => "mul"
  | .divide => "div"
  | .equal => "equals"
  | .less => "lt"
  | .greater => "gt"
  | .not => "logical_not"
  | .length => "length"
  | .car => "car"
  | .cdr => "cdr"
  | .cons => "cons"
  | .list => "list_builtin"

end Primitive

/-- A procedure that is not written in the language: a primitive, or one that the host of the session
supplies. Host procedures are told apart by number, for two may share a label. -/
inductive Native where
  | primitive (p : Primitive)
  | host (id : Nat) (label : String)
deriving DecidableEq

def Native.label : Native → String
  | .primitive p => p.label
  | .host _ label => label

abbrev ScopeId := Nat

/-- A value, or an expression. A closure is told apart by the number it was given when it was made. -/
inductive Value where
  | number (n : Number)
  | bool (b : Bool)
  | text (s : String)
  | symbol (s : Symbol)
  | list (items : List Value)
  | unspecified
  | closure (id : Nat) (formals : List Symbol) (body : Value) (scope : ScopeId)
  | native (procedure : Native)
deriving Inhabited

namespace Value

abbrev int (n : Int) : Value := .number (.int n)

abbrev float (x : Binary64) : Value := .number (.float x)

abbrev named (name : String) : Value := .symbol ⟨name⟩

def isFalse : Value → Bool
  | .bool false => true
  | _ => false

def number? : Value → Option Number
  | .number n => some n
  | _ => none

def symbol? : Value → Option Symbol
  | .symbol s => some s
  | _ => none

end Value

end MicroScheme
