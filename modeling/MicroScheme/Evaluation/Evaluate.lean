import MicroScheme.Evaluation.Apply
import MicroScheme.Evaluation.SpecialForm

set_option autoImplicit false

namespace MicroScheme

def keyword? : Value → Option Keyword
  | .symbol s => Keyword.ofSymbol? s
  | _ => none

def evaluateStep (world : World) (eval : Evaluator) : Evaluator
  | .symbol n, e => Eval.lookup n e
  | .list (head :: operands), e =>
    match keyword? head with
    | some k => SpecialForm.run eval e operands k
    | none => do
      let procedure ← eval head e
      let args ← evaluateAll eval e operands
      apply world eval procedure args e
  | x, _ => pure x

/-- Evaluates an expression in a scope, with at most that many evaluations inside each other. -/
def evaluate (world : World) : (depth : Nat) → Evaluator
  | 0 => fun _ _ => throw .tooDeep
  | depth + 1 => evaluateStep world (evaluate world depth)

end MicroScheme
