import MicroScheme.Evaluation.Program
import MicroScheme.Library

set_option autoImplicit false

namespace MicroScheme

inductive SessionFault where
  | failure (cause : Failure)
  | listAsName
  | unknownScope (name : String)
  | noLibrary
deriving DecidableEq

def SessionFault.message? : SessionFault → Option String
  | .failure cause => cause.message?
  | .listAsName => some "unhashable type: 'list'"
  | .unknownScope name => some (Text.quoted name)
  | .noLibrary => none

/-- The state of a session. The newest scope of a name is the one meant by it. -/
structure Session where
  strictArity : Bool
  hosts : List (String × HostProcedure)
  store : Store
  scopes : List (String × ScopeId)

inductive Prelude where
  | library
  | none
  | text (code : String)

structure SessionOptions where
  prelude : Prelude
  libraryPath : Option String
  directory : Library.Directory
  strictArity : Option String
  hosts : List (String × HostProcedure)

namespace Session

def rootName : String := "root"

def world (s : Session) : World where
  strictArity := s.strictArity
  host id :=
    match s.hosts[id]? with
    | some (_, procedure) => procedure
    | none => HostProcedure.constant .unspecified

def primitiveStore : Store :=
  Primitive.all.foldl (fun s p => s.define Store.root ⟨p.operator⟩ (.native (.primitive p))) .initial

def bindHosts (first : Nat) (s : Store) : List (String × HostProcedure) → Store
  | [] => s
  | (label, _) :: rest =>
    bindHosts (first + 1) (s.define Store.root ⟨label⟩ (.native (.host first label))) rest

def preludeText (o : SessionOptions) : Except SessionFault String :=
  match o.prelude with
  | .none => .ok ""
  | .text code => .ok code
  | .library =>
    match Library.source? o.libraryPath o.directory with
    | some code => .ok code
    | none => .error .noLibrary

def exec {α : Type} (s : Session) (m : World → Eval α) : Except SessionFault α × Session :=
  let (result, store) := (m s.world).run s.store
  (result.mapError .failure, { s with store })

/-- Starts a session, in which evaluations may nest to that depth: primitives, then the prelude, then the host
procedures. -/
def start (depth : Nat) (o : SessionOptions) : Except SessionFault Session := do
  let code ← preludeText o
  let s : Session :=
    { strictArity := Setting.strictArity o.strictArity
      hosts := o.hosts
      store := primitiveStore
      scopes := [(rootName, Store.root)] }
  let (result, s) := s.exec fun w => loadText w depth code Store.root
  let _ ← result
  return { s with store := bindHosts 0 s.store o.hosts }

def scope? (s : Session) (name : String) : Option ScopeId := s.scopes.lookup name

def nameOf? (s : Session) (e : ScopeId) : Option String :=
  (s.scopes.find? fun pair => pair.2 = e).map Prod.fst

end Session

end MicroScheme
