import MicroScheme.Proofs.Evaluation.Call
import MicroScheme.Proofs.Evaluation.Parameters
import MicroScheme.Proofs.Store.Scoping
import MicroScheme.Proofs.Value.Equality

set_option autoImplicit false

namespace MicroScheme

namespace Store

variable {s : Store} {e d : ScopeId} {n : Symbol} {v : Value}

end Store

section

variable {world : World} {depth : Nat} {x v : Value} {xs : List Value} {e : ScopeId} {s t : Store} {n : Symbol}

end

end MicroScheme
