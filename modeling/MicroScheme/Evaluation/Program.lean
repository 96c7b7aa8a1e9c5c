import MicroScheme.Evaluation.Evaluate

set_option autoImplicit false

namespace MicroScheme

def evaluateText (world : World) (depth : Nat) (text : String) (e : ScopeId) : Eval Value :=
  match Form.ofText text with
  | .ok x => evaluate world depth x e
  | .error fault => throw (.unreadable fault)

/-- Evaluates all forms of a text in order. The forms before one that cannot be read are evaluated. -/
def loadText (world : World) (depth : Nat) (text : String) (e : ScopeId) : Eval Unit := do
  let (forms, fault) := Form.allOfText text
  let _ ← evaluateBody (evaluate world depth) e .unspecified forms
  match fault with
  | some fault => throw (.unreadable fault)
  | none => pure ()

end MicroScheme
