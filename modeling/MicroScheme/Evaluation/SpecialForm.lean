import MicroScheme.Evaluation.Basic

set_option autoImplicit false

/-!
Special forms. Each takes its operands unevaluated and says itself which of them are evaluated, in which
order and in which scope.
-/

namespace MicroScheme.SpecialForm

/-- Gives a list as it is, and anything else as its text. -/
def quote : List Value → Eval Value
  | [.list items] => pure (.list items)
  | [leaf] => do
    let text ← Eval.written (leaf.print? false)
    pure (.text text)
  | _ => throw (.malformed .quoteCount)

def conditional (eval : Evaluator) (e : ScopeId) : List Value → Eval Value
  | [test, consequent, alternative] => do
    let v ← eval test e
    if v.isFalse then eval alternative e else eval consequent e
  | _ => throw (.malformed .conditionalCount)

structure Clause where
  test : Value
  body : List Value

def Clause.ofValue? : Value → Option Clause
  | .list (test :: x :: xs) => some ⟨test, x :: xs⟩
  | _ => none

def Clause.isElse (c : Clause) : Bool :=
  match c.test with
  | .symbol n => n.name = "else"
  | _ => false

def clauses : List Value → Eval (List Clause)
  | [] => pure []
  | v :: vs =>
    match Clause.ofValue? v with
    | none => Eval.malformedAt .condClause v
    | some c =>
      if c.isElse && !vs.isEmpty then throw (.malformed .elseNotLast)
      else do
        let cs ← clauses vs
        pure (c :: cs)

def firstClause (eval : Evaluator) (e : ScopeId) : List Clause → Eval Value
  | [] => pure .unspecified
  | c :: cs =>
    if c.isElse then evaluateBody eval e .unspecified c.body
    else do
      let v ← eval c.test e
      if v.isFalse then firstClause eval e cs else evaluateBody eval e .unspecified c.body

def cond (eval : Evaluator) (e : ScopeId) (operands : List Value) : Eval Value := do
  let cs ← clauses operands
  firstClause eval e cs

/-- Changes a symbol that is bound. Its name is checked before the value is evaluated. -/
def assign (eval : Evaluator) (e : ScopeId) : List Value → Eval Value
  | [.symbol n, x] => do
    let v ← eval x e
    Eval.assign n v e
    pure .unspecified
  | [target, _] => Eval.malformedAt .assignTarget target
  | _ => throw (.malformed .assignCount)

/-- Binds a symbol in the scope itself. The value is evaluated before the name is checked. -/
def define (eval : Evaluator) (e : ScopeId) : List Value → Eval Value
  | [target, x] => do
    let v ← eval x e
    match target with
    | .symbol n => do
      Eval.define n v e
      pure .unspecified
    | _ => Eval.malformedAt .defineTarget target
  | _ => throw (.malformed .defineCount)

def symbols? : List Value → Option (List Symbol)
  | [] => some []
  | .symbol n :: vs => (symbols? vs).map (n :: ·)
  | _ :: _ => none

def formals? : Value → Option (List Symbol)
  | .list items => symbols? items
  | _ => none

def sequence : List Value → Value
  | [x] => x
  | xs => .list (.named Keyword.begin.name :: xs)

def lambda (e : ScopeId) : List Value → Eval Value
  | params :: x :: xs =>
    match formals? params with
    | some formals => Eval.newClosure formals (sequence (x :: xs)) e
    | none => Eval.malformedAt .lambdaParameters params
  | _ => throw (.malformed .lambdaCount)

/-- Evaluates the bindings of a let from left to right, all in the outer scope. Each is checked just before
it is evaluated; of two for one name the last counts, in the place of the first. -/
def letBindings (eval : Evaluator) (e : ScopeId) (bound : Bindings) : List Value → Eval Bindings
  | [] => pure bound
  | .list [.symbol n, x] :: rest => do
    let v ← eval x e
    letBindings eval e (bound.put n v) rest
  | other :: _ => Eval.malformedAt .letBinding other

def letIn (eval : Evaluator) (e : ScopeId) : List Value → Eval Value
  | .list bindings :: body => do
    let bound ← letBindings eval e [] bindings
    let scope ← Eval.newScope ⟨bound, some e⟩
    evaluateBody eval scope .unspecified body
  | _ => throw (.malformed .letBindings)

def and (eval : Evaluator) (e : ScopeId) (last : Value) : List Value → Eval Value
  | [] => pure last
  | x :: xs => do
    let v ← eval x e
    if v.isFalse then pure (.bool false) else and eval e v xs

def or (eval : Evaluator) (e : ScopeId) : List Value → Eval Value
  | [] => pure (.bool false)
  | x :: xs => do
    let v ← eval x e
    if v.isFalse then or eval e xs else pure v

def run (eval : Evaluator) (e : ScopeId) (operands : List Value) : Keyword → Eval Value
  | .quote => quote operands
  | .conditional => conditional eval e operands
  | .cond => cond eval e operands
  | .assign => assign eval e operands
  | .define => define eval e operands
  | .lambda => lambda e operands
  | .begin => evaluateBody eval e .unspecified operands
  | .letIn => letIn eval e operands
  | .and => and eval e (.bool true) operands
  | .or => or eval e operands

end MicroScheme.SpecialForm
