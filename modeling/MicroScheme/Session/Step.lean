import MicroScheme.Session.Basic
import MicroScheme.Session.Operand
import MicroScheme.Store.Listing

set_option autoImplicit false

/-!
The steps of a session. Each step has an answer or a fault, and the next step goes on from the state that it
leaves, whichever it was.
-/

namespace MicroScheme

inductive Step where
  | eval (code : String)
  | load (code : String)
  | run (code : String) (scope : String)
  | evaluate (x : Operand) (scope : String)
  | apply (procedure : Operand) (args : List Operand) (scope : String)
  | strict (setting : Option String)
  | scope (name : String) (outer : Option String)
  | define (name : NameOperand) (x : Operand) (scope : String)
  | assign (name : NameOperand) (x : Operand) (scope : String)
  | lookup (name : NameOperand) (scope : String)
  | find (name : NameOperand) (scope : String)
  | has (name : NameOperand) (scope : String)
  | insert (pairs : List (NameOperand × Operand)) (scope : String)
  | listing (scope : String)

inductive Answer where
  | done
  | value (v : Value)
  | owner (scope : String)
  | has (b : Bool)
  | listing (inner chain : String)

namespace Session

/-- A step as it is carried out: its faults do not undo what it did. -/
abbrev Action := ExceptT SessionFault (StateM Session)

namespace Action

def fail {α : Type} (cause : Failure) : Action α := throw (.failure cause)

def onStore {α : Type} (m : World → Eval α) : Action α := fun s => s.exec m

def written {α : Type} : Option α → Action α
  | some text => pure text
  | none => fail .digitLimit

def scopeOf (name : String) : Action ScopeId := do
  match (← get).scope? name with
  | some e => pure e
  | none => throw (.unknownScope name)

def defineName (e : ScopeId) (name : Name) (symbol : Option Symbol) (v : Value) : Action Unit := do
  match symbol with
  | some n => onStore fun _ => Eval.define n v e
  | none => do
    let got ← written name.describe?
    fail (.malformed (.defineTarget got))

/-- The symbol by which a name is looked up. A name that is none is not bound anywhere. -/
def variableOf (name : Name) : Action Symbol := do
  if name.isList then throw .listAsName
  match name.symbol? with
  | some n => pure n
  | none => do
    let text ← written name.text?
    fail (.unbound text)

/-- Binds the names of a mapping in order, up to the first that cannot be bound. -/
def insertAll (e : ScopeId) : List (Name × Value) → Action Unit
  | [] => pure ()
  | (name, v) :: rest => do
    defineName e name name.asSymbol? v
    insertAll e rest

/-- The mapping that pairs of names and operands form, added to the entries there are. A list cannot be a name
in a mapping. -/
def mappingOf (e : ScopeId) (entries : List (Name × Value)) :
    List (NameOperand × Operand) → Action (List (Name × Value))
  | [] => pure entries
  | (name, x) :: rest => do
    let n ← onStore fun _ => name.resolve e
    let v ← onStore fun _ => x.resolve e
    if n.isList then throw .listAsName
    mappingOf e (n.put v entries) rest

def addScope (name : String) (outer : Option ScopeId) : Action Unit := do
  let e ← onStore fun _ => Eval.newScope ⟨[], outer⟩
  modify fun s => { s with scopes := (name, e) :: s.scopes }

end Action

open MicroScheme.Session.Action

def action (depth : Nat) : Step → Action Answer
  | .eval code => do
    let v ← onStore fun w => evaluateText w depth code Store.root
    pure (.value v)
  | .load code => do
    onStore fun w => loadText w depth code Store.root
    pure .done
  | .run code scope => do
    let e ← scopeOf scope
    let v ← onStore fun w => evaluateText w depth code e
    pure (.value v)
  | .evaluate x scope => do
    let e ← scopeOf scope
    let x ← onStore fun _ => x.resolve e
    let v ← onStore fun w => evaluate w depth x e
    pure (.value v)
  | .apply procedure args scope => do
    let e ← scopeOf scope
    let p ← onStore fun _ => procedure.resolve e
    let vs ← onStore fun _ => Operand.resolveAll e args
    let v ← onStore fun w => apply w (evaluate w depth) p vs e
    pure (.value v)
  | .strict setting => do
    modify fun s => { s with strictArity := Setting.strictArity setting }
    pure .done
  | .scope name outer => do
    match outer with
    | none => addScope name none
    | some outer => do
      let e ← scopeOf outer
      addScope name (some e)
    pure .done
  | .define name x scope => do
    let e ← scopeOf scope
    let n ← onStore fun _ => name.resolve e
    let v ← onStore fun _ => x.resolve e
    defineName e n n.symbol? v
    pure .done
  | .assign name x scope => do
    let e ← scopeOf scope
    let n ← onStore fun _ => name.resolve e
    let v ← onStore fun _ => x.resolve e
    let symbol ← variableOf n
    onStore fun _ => Eval.assign symbol v e
    pure .done
  | .lookup name scope => do
    let e ← scopeOf scope
    let n ← onStore fun _ => name.resolve e
    let symbol ← variableOf n
    let v ← onStore fun _ => Eval.lookup symbol e
    pure (.value v)
  | .find name scope => do
    let e ← scopeOf scope
    let n ← onStore fun _ => name.resolve e
    let symbol ← variableOf n
    let s ← get
    match s.store.owner? e symbol with
    | none => fail (.unbound symbol.name)
    | some d =>
      match s.nameOf? d with
      | some name => pure (.owner name)
      | none => throw (.unknownScope symbol.name)
  | .has name scope => do
    let e ← scopeOf scope
    let n ← onStore fun _ => name.resolve e
    if n.isList then throw .listAsName
    let s ← get
    pure (.has (n.asSymbol?.any fun symbol => (s.store.frame e).bindings.binds symbol))
  | .insert pairs scope => do
    let e ← scopeOf scope
    let entries ← mappingOf e [] pairs
    insertAll e entries
    pure .done
  | .listing scope => do
    let e ← scopeOf scope
    let s ← get
    let inner ← written (s.store.listing? e)
    let chain ← written (s.store.chainListing? e)
    pure (.listing inner chain)

def perform (depth : Nat) (s : Session) (step : Step) : Except SessionFault Answer × Session :=
  (action depth step).run s

def performAll (depth : Nat) (s : Session) : List Step → List (Except SessionFault Answer)
  | [] => []
  | step :: rest =>
    let (answer, s) := s.perform depth step
    answer :: performAll depth s rest

end Session

end MicroScheme
