import MicroScheme.Store
import MicroScheme.Value.Printer

set_option autoImplicit false

namespace MicroScheme.Store

def frameText? (s : Store) (e : ScopeId) : Option String := do
  let parts ← (s.frame e).bindings.mapM fun (n, v) => v.describe?.map fun text => n.name ++ ": " ++ text
  some ("\x7b" ++ ", ".intercalate parts ++ "\x7d")

/-- The listing of a scope alone, with a mark if it has an outer one. -/
def listing? (s : Store) (e : ScopeId) : Option String := do
  let text ← s.frameText? e
  some (if (s.frame e).outer.isSome then text ++ " -> ..." else text)

def chainListing? (s : Store) (e : ScopeId) : Option String := do
  let parts ← (s.chain e).mapM s.frameText?
  some ("<Environment chain: " ++ " -> ".intercalate parts ++ ">")

end MicroScheme.Store

