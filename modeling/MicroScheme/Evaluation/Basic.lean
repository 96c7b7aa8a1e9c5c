import MicroScheme.Native
import MicroScheme.Keyword

set_option autoImplicit false

/-!
Evaluation as a computation: it reads and changes a store, and ends in a value or a failure. A failure does
not undo what was done to the store before it.
-/

namespace MicroScheme

/-- A computation on a store that may fail. The store it leaves is kept in either case. -/
abbrev Eval := ExceptT Failure (StateM Store)

abbrev Evaluator := Value → ScopeId → Eval Value

/-- What an evaluation takes from outside: whether closures insist on their number of arguments, and the host
procedures by number. -/
structure World where
  strictArity : Bool
  host : Nat → HostProcedure

namespace Eval

def written : Option String → Eval String
  | some text => pure text
  | none => throw .digitLimit

def malformedAt {α : Type} (fault : String → FormFault) (part : Value) : Eval α := do
  let got ← written part.describe?
  throw (.malformed (fault got))

def lookup (n : Symbol) (e : ScopeId) : Eval Value := do
  match (← get).lookup? e n with
  | some v => pure v
  | none => throw (.unbound n.name)

def define (n : Symbol) (v : Value) (e : ScopeId) : Eval Unit :=
  modify fun s => s.define e n v

def assign (n : Symbol) (v : Value) (e : ScopeId) : Eval Unit := do
  match (← get).owner? e n with
  | some d => define n v d
  | none => throw (.unbound n.name)

def newScope (f : Frame) : Eval ScopeId :=
  modifyGet fun s => (s.nextScope, s.addFrame f)

def newClosure (formals : List Symbol) (body : Value) (e : ScopeId) : Eval Value :=
  modifyGet fun s =>
    (.closure s.closures formals body e, { s with closures := s.closures + 1 })

end Eval

def evaluateAll (eval : Evaluator) (e : ScopeId) : List Value → Eval (List Value)
  | [] => pure []
  | x :: xs => do
    let v ← eval x e
    let vs ← evaluateAll eval e xs
    pure (v :: vs)

/-- Evaluates expressions from left to right for the value of the last one. Without any, it is `last`. -/
def evaluateBody (eval : Evaluator) (e : ScopeId) (last : Value) : List Value → Eval Value
  | [] => pure last
  | x :: xs => do
    let v ← eval x e
    evaluateBody eval e v xs

end MicroScheme
