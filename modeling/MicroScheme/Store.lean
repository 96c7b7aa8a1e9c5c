import MicroScheme.Value.Identity

set_option autoImplicit false

namespace MicroScheme

abbrev Bindings := List (Symbol × Value)

namespace Bindings

def names (b : Bindings) : List Symbol := b.map Prod.fst

def get? (n : Symbol) : Bindings → Option Value
  | [] => none
  | (m, v) :: b => if m = n then some v else get? n b

def binds (n : Symbol) (b : Bindings) : Bool := (get? n b).isSome

/-- Gives a symbol a value. A symbol that is bound keeps its place; a new one comes last. -/
def put (n : Symbol) (v : Value) : Bindings → Bindings
  | [] => [(n, v)]
  | (m, w) :: b => if m = n then (m, v) :: b else (m, w) :: put n v b

def putAll (b : Bindings) (pairs : List (Symbol × Value)) : Bindings :=
  pairs.foldl (fun b pair => put pair.1 pair.2 b) b

theorem get?_put_self (n : Symbol) (v : Value) (b : Bindings) : get? n (put n v b) = some v := by
  induction b with
  | nil => simp [put, get?]
  | cons p b ih =>
    by_cases h : p.1 = n <;> simp [put, get?, h, ih]

theorem get?_put_of_ne {m n : Symbol} (v : Value) (b : Bindings) (h : m ≠ n) :
    get? m (put n v b) = get? m b := by
  induction b with
  | nil => simp [put, get?, Ne.symm h]
  | cons p b ih =>
    by_cases hp : p.1 = n
    · simp [put, get?, hp, Ne.symm h]
    · simp [put, get?, hp, ih]

theorem names_put (n : Symbol) (v : Value) (b : Bindings) :
    names (put n v b) = if n ∈ names b then names b else names b ++ [n] := by
  induction b with
  | nil => simp [put, names]
  | cons p b ih =>
    by_cases h : p.1 = n
    · simp [put, names, h]
    · simp only [names] at ih
      by_cases hb : n ∈ b.map Prod.fst <;> simp [put, names, h, Ne.symm h, hb, ih]

end Bindings

structure Frame where
  bindings : Bindings
  outer : Option ScopeId
deriving DecidableEq, Inhabited

structure Store where
  frames : Array Frame
  closures : Nat
deriving DecidableEq, Inhabited

namespace Store

/-- The frame of a scope; a scope that does not exist binds nothing. -/
def frame (s : Store) (e : ScopeId) : Frame :=
  (s.frames[e]?).getD ⟨[], none⟩

def chainFrom (s : Store) : (fuel : Nat) → ScopeId → List ScopeId
  | 0, _ => []
  | fuel + 1, e =>
    match (s.frame e).outer with
    | none => [e]
    | some outer => e :: chainFrom s fuel outer

def chain (s : Store) (e : ScopeId) : List ScopeId := s.chainFrom s.frames.size e

def owner? (s : Store) (e : ScopeId) (n : Symbol) : Option ScopeId :=
  (s.chain e).find? fun d => (s.frame d).bindings.binds n

def lookup? (s : Store) (e : ScopeId) (n : Symbol) : Option Value := do
  let d ← s.owner? e n
  (s.frame d).bindings.get? n

def define (s : Store) (e : ScopeId) (n : Symbol) (v : Value) : Store :=
  { s with frames := s.frames.modify e fun f => { f with bindings := f.bindings.put n v } }

def nextScope (s : Store) : ScopeId := s.frames.size

def addFrame (s : Store) (f : Frame) : Store := { s with frames := s.frames.push f }

def initial : Store := ⟨#[⟨[], none⟩], 0⟩

def root : ScopeId := 0

end Store

end MicroScheme
