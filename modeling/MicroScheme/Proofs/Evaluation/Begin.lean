import MicroScheme.Proofs.Evaluation.Conditional
import MicroScheme.Proofs.Evaluation.Loading
import MicroScheme.Proofs.Form.Balance

set_option autoImplicit false

namespace MicroScheme

/-- The text as the body of one begin. The newline ends a comment that the text may end in. -/
def beginText (code : String) : String := "(begin " ++ code ++ "\n)"

theorem Token.ofText_beginText (code : String) :
    ofText (beginText code) = opening :: "begin" :: (ofText code ++ [closing]) := by
  have lines : beginText code = "(begin " ++ code ++ "\n" ++ ")" := by
    rw [String.append_assoc]
    rfl
  have chars : ("(begin " ++ code).toList = '(' :: (['b', 'e', 'g', 'i', 'n'] ++ ' ' :: code.toList) :=
    String.toList_append
  have opens : ∀ cs, scan false [] ('(' :: cs) = ['('] :: scan false [] cs := fun _ => rfl
  have blank : ∀ cs, scan false [] (' ' :: cs) = scan false [] cs := fun _ => rfl
  have word : Plain ['b', 'e', 'g', 'i', 'n'] := by decide
  rw [lines, ofText_append_newline, ofText_eq_scan, chars, opens, scan_word word (ends_cons (by decide) _), blank,
    List.map_cons, List.map_cons, ← ofText_eq_scan]
  rfl

theorem Form.ofText_beginText {code : String} (complete : (allOfText code).2 = none) :
    ofText (beginText code) = .ok (beginOf (allOfText code).1) := by
  obtain ⟨segments, reads⟩ := exists_readsAll (Token.ofText code)
  obtain ⟨denotes, rest, split, all⟩ := reads.segments
  rw [all complete, List.append_nil] at split
  have keyword : Denotes ["begin"] (.named Keyword.begin.name) := .atom (by decide) (by decide)
  have whole := Denotes.list (.cons keyword denotes)
  rw [ofText, Token.ofText_beginText, split]
  exact congrArg Prod.fst whole.reads.read

variable {world : World} {depth : Nat} {eval : Evaluator} {e : ScopeId} {s t : Store} {f : Failure} {v : Value}
  {code : String}

theorem loadText_of_complete (world : World) (depth : Nat) (e : ScopeId) (complete : (Form.allOfText code).2 = none) :
    loadText world depth code e =
      evaluateBody (evaluate world depth) e .unspecified (Form.allOfText code).1 >>= fun _ => pure () := by
  have noFault : (Form.readAll (Token.ofText code)).2 = none := complete
  rw [loadText_eq, noFault]
  exact (evaluateBody_bind_fault _ e none _ .unspecified).symm

theorem evaluateBody_append (eval : Evaluator) (e : ScopeId) (last : Value) (xs ys : List Value) :
    evaluateBody eval e last (xs ++ ys) = evaluateBody eval e last xs >>= fun v => evaluateBody eval e v ys := by
  induction xs generalizing last with
  | nil => rfl
  | cons x xs ih =>
    rw [List.cons_append, evaluateBody, evaluateBody, bind_assoc]
    exact bind_congr fun v => ih v

/-- The value is that of the last form, evaluated in the store that the forms before it have left; without forms it is
unspecified. -/
def IsLastValue (eval : Evaluator) (e : ScopeId) (forms : List Value) (s : Store) (v : Value) (t : Store) : Prop :=
  (forms = [] ∧ v = .unspecified ∧ t = s) ∨ ∃ xs x w u, forms = xs ++ [x] ∧
    (evaluateBody eval e .unspecified xs).run s = (.ok w, u) ∧ (eval x e).run u = (.ok v, t)

theorem isLastValue_of_run {forms : List Value} (h : (evaluateBody eval e .unspecified forms).run s = (.ok v, t)) :
    IsLastValue eval e forms s v t := by
  rcases List.eq_nil_or_concat' forms with rfl | ⟨xs, x, rfl⟩
  · cases h
    exact .inl ⟨rfl, rfl, rfl⟩
  · rw [evaluateBody_append, run_bind] at h
    rcases before : (evaluateBody eval e .unspecified xs).run s with ⟨f | w, u⟩
    · rw [before] at h
      cases h
    · rw [before] at h
      have single : evaluateBody eval e w [x] = eval x e := bind_pure (eval x e)
      exact .inr ⟨xs, x, w, u, rfl, before, single ▸ h⟩

/-- A text all forms of which can be read does the same if it is loaded and if it is evaluated as the body of one begin,
and the begin has the value of the last form, if neither gets too deep. -/
theorem evaluateText_beginText (world : World) (depth depth' : Nat) (code : String) (e : ScopeId) (s : Store)
    (complete : (Form.allOfText code).2 = none)
    (left : ((evaluateText world depth (beginText code) e).run s).1 ≠ .error .tooDeep)
    (right : ((loadText world depth' code e).run s).1 ≠ .error .tooDeep) :
    ∃ t, (∃ f, (evaluateText world depth (beginText code) e).run s = (.error f, t) ∧
        (loadText world depth' code e).run s = (.error f, t)) ∨
      ∃ v, (evaluateText world depth (beginText code) e).run s = (.ok v, t) ∧
        (loadText world depth' code e).run s = (.ok (), t) ∧
        IsLastValue (evaluate world depth') e (Form.allOfText code).1 s v t := by
  rw [evaluateText, Form.ofText_beginText complete] at left ⊢
  rw [loadText_of_complete world depth' e complete, run_bind] at right ⊢
  cases depth with
  | zero => exact absurd rfl left
  | succ depth =>
    dsimp only at left ⊢
    rw [evaluate_beginOf] at left ⊢
    rcases run : (evaluateBody (evaluate world depth') e .unspecified (Form.allOfText code).1).run s with ⟨f | v, t⟩
    · rw [run] at right
      have ended : f ≠ .tooDeep := fun tooDeep => right (tooDeep ▸ rfl)
      have same := evaluateBody_settled world left (n := depth') (by rw [run]; exact fun h => ended (Except.error.inj h))
      rw [same, run]
      exact ⟨t, .inl ⟨f, rfl, rfl⟩⟩
    · have same := evaluateBody_settled world left (n := depth') (by rw [run]; exact fun h => nomatch h)
      rw [same, run]
      exact ⟨t, .inr ⟨v, rfl, rfl, isLastValue_of_run run⟩⟩

theorem evaluateText_beginText_of_comment :
    let world : World := ⟨true, fun _ => .arguments⟩
    let s : Store := .initial
    let t : Store := ⟨#[⟨[(⟨"n"⟩, .bool true)], none⟩], 0⟩
    let code := "(define n #t) n ; (open"
    (evaluateText world 3 (beginText code) 0).run s = (.ok (.bool true), t) ∧
      (loadText world 2 code 0).run s = (.ok (), t) ∧
      IsLastValue (evaluate world 2) 0 (Form.allOfText code).1 s (.bool true) t := by
  intro world s t code
  have forms : Form.allOfText "(define n #t) n ; (open" =
    ([.list [.named "define", .named "n", .bool true], .named "n"], none) := rfl
  have complete : (Form.allOfText code).2 = none := by rw [forms]
  have left : (evaluateText world 3 (beginText code) 0).run s = (.ok (.bool true), t) := by
    rw [evaluateText, Form.ofText_beginText complete, forms]
    rfl
  have right : (loadText world 2 code 0).run s = (.ok (), t) := by
    rw [loadText, forms]
    rfl
  have shallow : ((evaluateText world 3 (beginText code) 0).run s).1 ≠ .error .tooDeep := by
    rw [left]
    intro tooDeep
    cases tooDeep
  have shallow' : ((loadText world 2 code 0).run s).1 ≠ .error .tooDeep := by
    rw [right]
    intro tooDeep
    cases tooDeep
  have ends := evaluateText_beginText world 3 2 code 0 s complete shallow shallow'
  rw [left, right] at ends
  refine ⟨left, right, ?_⟩
  rcases ends with ⟨u, ⟨f, failed, _⟩ | ⟨v, ended, _, last⟩⟩
  · cases failed
  · cases ended
    exact last

end MicroScheme
