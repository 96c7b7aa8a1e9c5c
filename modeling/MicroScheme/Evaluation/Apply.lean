import MicroScheme.Evaluation.Basic

set_option autoImplicit false

namespace MicroScheme

/-- The formals with their arguments. A formal without an argument is unspecified, and arguments without a
formal are dropped. -/
def parameters : List Symbol → List Value → List (Symbol × Value)
  | [], _ => []
  | n :: ns, [] => (n, .unspecified) :: parameters ns []
  | n :: ns, v :: vs => (n, v) :: parameters ns vs

def bindParameters (world : World) (formals : List Symbol) (args : List Value) (captured : ScopeId) :
    Eval ScopeId :=
  if args.length ≠ formals.length && world.strictArity then
    throw (.wrongCount (.closure formals args.length))
  else
    Eval.newScope ⟨Bindings.putAll [] (parameters formals args), some captured⟩

/-- What a native procedure gives when it is called from a scope, and the store that it leaves. -/
def Native.call (world : World) (e : ScopeId) (args : List Value) (s : Store) : Native → Except Signal Value × Store
  | .primitive p => (p.call args, s)
  | .host id _ =>
    let (result, t) := world.host id e args s
    (result.mapError .host, t)

def Native.run (world : World) (e : ScopeId) (args : List Value) (p : Native) : Eval Value := fun s =>
  let (result, t) := p.call world e args s
  (result.mapError (Signal.failure p.label), t)

def apply (world : World) (eval : Evaluator) (procedure : Value) (args : List Value) (e : ScopeId) :
    Eval Value :=
  match procedure with
  | .closure _ formals body captured => do
    let scope ← bindParameters world formals args captured
    eval body scope
  | .native p => p.run world e args
  | v => do
    let got ← Eval.written (v.print? true)
    throw (.wrongKind (.notProcedure got))

end MicroScheme
