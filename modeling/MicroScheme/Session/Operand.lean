import MicroScheme.Evaluation.Basic

set_option autoImplicit false

namespace MicroScheme

/-- A value as a step gives it: parts of it may be references to variables of the scope of the step. -/
inductive Operand where
  | value (v : Value)
  | reference (n : Symbol)
  | list (items : List Operand)
deriving Inhabited

inductive NameOperand where
  | plain (text : String)
  | operand (x : Operand)

inductive Name where
  | plain (text : String)
  | value (v : Value)

namespace Operand

mutual

def resolve (e : ScopeId) : Operand → Eval Value
  | .value v => pure v
  | .reference n => Eval.lookup n e
  | .list items => do
    let vs ← resolveAll e items
    pure (.list vs)

def resolveAll (e : ScopeId) : List Operand → Eval (List Value)
  | [] => pure []
  | x :: xs => do
    let v ← resolve e x
    let vs ← resolveAll e xs
    pure (v :: vs)

end

end Operand

def NameOperand.resolve (e : ScopeId) : NameOperand → Eval Name
  | .plain text => pure (.plain text)
  | .operand x => do
    let v ← x.resolve e
    pure (.value v)

namespace Name

def symbol? : Name → Option Symbol
  | .plain _ => none
  | .value v => v.symbol?

/-- The symbol that a name is or, if it is a plain text, that it is turned into. -/
def asSymbol? : Name → Option Symbol
  | .plain text => some ⟨text⟩
  | .value v => v.symbol?

def isList : Name → Bool
  | .value (.list _) => true
  | _ => false

def describe? : Name → Option String
  | .plain text => some (Text.quoted text)
  | .value v => v.describe?

def text? : Name → Option String
  | .plain text => some text
  | .value v => v.nameText?

/-- Whether two names are one key of a mapping. A plain text and a symbol of the same characters are two. -/
def same : Name → Name → Bool
  | .plain s, .plain t => s = t
  | .value v, .value w => v.equalInside w
  | _, _ => false

def put (name : Name) (v : Value) : List (Name × Value) → List (Name × Value)
  | [] => [(name, v)]
  | (other, w) :: rest =>
    if other.same name then (other, v) :: rest else (other, w) :: put name v rest

end Name

end MicroScheme
