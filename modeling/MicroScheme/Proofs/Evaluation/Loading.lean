import MicroScheme.Evaluation.Program
import MicroScheme.Proofs.Evaluation.Run
import MicroScheme.Proofs.Form.Grammar
import MicroScheme.Proofs.Text.Scan

set_option autoImplicit false

namespace MicroScheme

open Form (read readAll)

/-- Loading these tokens from the first store evaluates these forms in order, and ends in this way with the second
store. A form that fails is the last one. -/
inductive Loads (eval : Evaluator) (e : ScopeId) :
    List Token → Store → List Value → Except Failure Unit → Store → Prop where
  | done {s : Store} : Loads eval e [] s [] (.ok ()) s
  | form {ts rest : List Token} {s t u : Store} {x v : Value} {xs : List Value} {result : Except Failure Unit} :
    read ts = (.ok x, rest) → (eval x e).run s = (.ok v, t) → Loads eval e rest t xs result u →
      Loads eval e ts s (x :: xs) result u
  | failed {ts rest : List Token} {s t : Store} {x : Value} {f : Failure} :
    read ts = (.ok x, rest) → (eval x e).run s = (.error f, t) → Loads eval e ts s [x] (.error f) t
  | unreadable {t : Token} {ts rest : List Token} {s : Store} {fault : ReadFault} :
    read (t :: ts) = (.error fault, rest) → Loads eval e (t :: ts) s [] (.error (.unreadable fault)) s

namespace Loads

variable {eval : Evaluator} {e : ScopeId} {ts us : List Token} {s t u : Store} {xs ys : List Value}
  {result : Except Failure Unit}

theorem append (first : Loads eval e ts s xs (.ok ()) t) (next : Loads eval e us t ys result u) :
    Loads eval e (ts ++ us) s (xs ++ ys) result u := by
  generalize ended : Except.ok () = r at first
  induction first with
  | done => exact next
  | form read evaluated _ ih => exact .form (Form.read_append read nofun us) evaluated (ih next ended)
  | failed | unreadable => cases ended

theorem append_of_error {f : Failure} (h : Loads eval e ts s xs (.error f) t) (early : f ≠ .unreadable .endOfInput)
    (us : List Token) : Loads eval e (ts ++ us) s xs (.error f) t := by
  generalize ended : Except.error f = r at h
  induction h with
  | done => cases ended
  | form read evaluated _ ih => exact .form (Form.read_append read nofun us) evaluated (ih ended)
  | failed read evaluated => exact .failed (Form.read_append read nofun us) evaluated
  | @unreadable t ts rest s fault read =>
    cases ended
    refine .unreadable (Form.read_append read ?_ us)
    rintro ⟨⟩
    exact early rfl

end Loads

/-- Evaluates all forms and then fails if there is a fault. -/
def evaluateForms (eval : Evaluator) (e : ScopeId) (fault : Option ReadFault) : List Value → Eval Unit
  | [] =>
    match fault with
    | some fault => throw (.unreadable fault)
    | none => pure ()
  | x :: xs => do
    let _ ← eval x e
    evaluateForms eval e fault xs

theorem evaluateBody_bind_fault (eval : Evaluator) (e : ScopeId) (fault : Option ReadFault) (xs : List Value)
    (last : Value) :
    (do
      let _ ← evaluateBody eval e last xs
      match fault with
      | some fault => throw (.unreadable fault)
      | none => pure ()) = evaluateForms eval e fault xs := by
  induction xs generalizing last with
  | nil => rfl
  | cons x xs ih =>
    rw [evaluateBody, evaluateForms, bind_assoc]
    exact bind_congr fun v => ih v

theorem loadText_eq (world : World) (depth : Nat) (text : String) (e : ScopeId) :
    loadText world depth text e =
      evaluateForms (evaluate world depth) e (readAll (Token.ofText text)).2 (readAll (Token.ofText text)).1 :=
  evaluateBody_bind_fault (evaluate world depth) e _ _ .unspecified

variable {eval : Evaluator} {e : ScopeId} {ts : List Token} {s t : Store} {xs : List Value}
  {result : Except Failure Unit}

theorem Loads.run (h : Loads eval e ts s xs result t) :
    (evaluateForms eval e (readAll ts).2 (readAll ts).1).run s = (result, t) := by
  induction h with
  | done => rfl
  | form read evaluated _ ih =>
    rw [Form.readAll_of_read read, evaluateForms, run_bind, evaluated]
    exact ih
  | failed read evaluated =>
    rw [Form.readAll_of_read read, evaluateForms, run_bind, evaluated]
  | unreadable read =>
    rw [Form.readAll_of_fault read]
    rfl

theorem exists_loads (eval : Evaluator) (e : ScopeId) (ts : List Token) (s : Store) :
    ∃ xs result t, Loads eval e ts s xs result t := by
  induction shorter : ts.length using Nat.strongRecOn generalizing ts s with
  | ind n ih =>
    rcases found : read ts with ⟨fault | x, rest⟩
    · cases ts with
      | nil => exact ⟨[], .ok (), s, .done⟩
      | cons t ts => exact ⟨[], _, s, .unreadable found⟩
    · rcases evaluated : (eval x e).run s with ⟨f | v, t⟩
      · exact ⟨[x], .error f, t, .failed found evaluated⟩
      · have fewer : rest.length < n := shorter ▸ Form.length_lt_of_read found
        obtain ⟨xs, result, u, loads⟩ := ih rest.length fewer rest t rfl
        exact ⟨x :: xs, result, u, .form found evaluated loads⟩

theorem run_loadText_iff (world : World) (depth : Nat) (text : String) (e : ScopeId) (s t : Store)
    (result : Except Failure Unit) :
    (loadText world depth text e).run s = (result, t) ↔
      ∃ xs, Loads (evaluate world depth) e (Token.ofText text) s xs result t := by
  rw [loadText_eq]
  constructor
  · intro run
    obtain ⟨xs, result', t', loads⟩ := exists_loads (evaluate world depth) e (Token.ofText text) s
    have same := run.symm.trans loads.run
    rw [Prod.mk.injEq] at same
    rw [same.1, same.2]
    exact ⟨xs, loads⟩
  · rintro ⟨xs, loads⟩
    exact loads.run

/-- Two texts as one, in lines of their own, are loaded one after the other. If the first one fails, and not for lack of
a closing parenthesis, then the two fail as it does, after the same forms. -/
theorem loadText_append (world : World) (depth : Nat) (a b : String) (e : ScopeId) (s t : Store) :
    ((loadText world depth a e).run s = (.ok (), t) →
        (loadText world depth (a ++ "\n" ++ b) e).run s = (loadText world depth b e).run t) ∧
      ∀ f, (loadText world depth a e).run s = (.error f, t) → f ≠ .unreadable .endOfInput →
        (loadText world depth (a ++ "\n" ++ b) e).run s = (.error f, t) ∧
          ∃ xs, Loads (evaluate world depth) e (Token.ofText a) s xs (.error f) t ∧
            Loads (evaluate world depth) e (Token.ofText (a ++ "\n" ++ b)) s xs (.error f) t := by
  refine ⟨fun loaded => ?_, fun f failed early => ?_⟩
  · obtain ⟨xs, first⟩ := (run_loadText_iff world depth a e s t _).1 loaded
    rcases run : (loadText world depth b e).run t with ⟨result, u⟩
    obtain ⟨ys, next⟩ := (run_loadText_iff world depth b e t u _).1 run
    rw [run_loadText_iff, Token.ofText_append_newline]
    exact ⟨xs ++ ys, first.append next⟩
  · obtain ⟨xs, first⟩ := (run_loadText_iff world depth a e s t _).1 failed
    have both := first.append_of_error early (Token.ofText b)
    rw [← Token.ofText_append_newline] at both
    exact ⟨(run_loadText_iff world depth _ e s t _).2 ⟨xs, both⟩, xs, first, both⟩

theorem loadText_append_of_comment :
    let world : World := ⟨true, fun _ => .arguments⟩
    let s : Store := .initial
    let t : Store := ⟨#[⟨[(⟨"n"⟩, .bool true)], none⟩], 0⟩
    let a := "(define n #t) ; (open"
    let b := "(define m n)"
    let c := "(define n #t) gone (define n #f)"
    (loadText world 4 a 0).run s = (.ok (), t) ∧
      (loadText world 4 (a ++ "\n" ++ b) 0).run s = (loadText world 4 b 0).run t ∧
      (loadText world 4 c 0).run s = (.error (.unbound "gone"), t) ∧
      (loadText world 4 (c ++ "\n" ++ b) 0).run s = (.error (.unbound "gone"), t) := by
  intro world s t a b c
  let definition (v : Value) : Value := .list [.named "define", .named "n", v]
  have formsOfA : Form.allOfText "(define n #t) ; (open" = ([definition (.bool true)], none) := rfl
  have formsOfC : Form.allOfText "(define n #t) gone (define n #f)" =
      ([definition (.bool true), .named "gone", definition (.bool false)], none) := rfl
  have loaded : (loadText world 4 a 0).run s = (.ok (), t) := by
    rw [loadText, formsOfA]
    rfl
  have failed : (loadText world 4 c 0).run s = (.error (.unbound "gone"), t) := by
    rw [loadText, formsOfC]
    rfl
  exact ⟨loaded, (loadText_append world 4 a b 0 s t).1 loaded, failed,
    ((loadText_append world 4 c b 0 s t).2 _ failed nofun).1⟩

end MicroScheme
