import MicroScheme.Proofs.Evaluation.Limits
import MicroScheme.Proofs.Evaluation.Shape

set_option autoImplicit false

namespace MicroScheme

open SpecialForm

def condOf (clauses : List Value) : Value := .list (.named Keyword.cond.name :: clauses)

def ifOf (test consequent alternative : Value) : Value :=
  .list [.named Keyword.conditional.name, test, consequent, alternative]

def beginOf (body : List Value) : Value := .list (.named Keyword.begin.name :: body)

variable {world : World} {eval : Evaluator} {e : ScopeId} {s : Store} {depth : Nat}

theorem evaluate_condOf (world : World) (depth : Nat) (clauses : List Value) (e : ScopeId) :
    evaluate world (depth + 1) (condOf clauses) e = SpecialForm.cond (evaluate world depth) e clauses :=
  evaluateStep_keyword world _ .cond clauses e

theorem evaluate_ifOf (world : World) (depth : Nat) (test consequent alternative : Value) (e : ScopeId) :
    evaluate world (depth + 1) (ifOf test consequent alternative) e = evaluate world depth test e >>= fun v =>
      if v.isFalse then evaluate world depth alternative e else evaluate world depth consequent e :=
  evaluateStep_keyword world _ .conditional _ e

theorem evaluate_beginOf (world : World) (depth : Nat) (body : List Value) (e : ScopeId) :
    evaluate world (depth + 1) (beginOf body) e = evaluateBody (evaluate world depth) e .unspecified body :=
  evaluateStep_keyword world _ .begin body e

theorem cond_rejects {clauses : List Value} (misfit : ¬ Keyword.Fits .cond clauses)
    (writable : ∀ v ∈ clauses, v.isWritable = true) :
    ∃ fault, ∀ eval e s, (SpecialForm.cond eval e clauses).run s = (.error (.malformed fault), s) := by
  rcases clauses_cases clauses with ⟨fits, _⟩ | ⟨_, rejects⟩
  · exact absurd fits misfit
  · obtain ⟨fault, rejected⟩ := rejects.run writable
    refine ⟨fault, fun eval e s => ?_⟩
    rw [SpecialForm.cond, run_bind, rejected]

theorem isElse_of_ne {test : Value} (h : test ≠ .named "else") (body : List Value) :
    (⟨test, body⟩ : Clause).isElse = false := by
  cases test with
  | symbol n =>
    cases n
    simpa [Clause.isElse] using h
  | number | bool | text | list | unspecified | closure | native => rfl

theorem cond_cons {test x : Value} {xs clauses : List Value} (eval : Evaluator) (e : ScopeId)
    (other : test ≠ .named "else") (fits : Keyword.Fits .cond clauses) :
    SpecialForm.cond eval e (.list (test :: x :: xs) :: clauses) = eval test e >>= fun v =>
      if v.isFalse then SpecialForm.cond eval e clauses else evaluateBody eval e .unspecified (x :: xs) := by
  rcases clauses_cases clauses with ⟨_, cs, found⟩ | ⟨misfit, _⟩
  · have all : SpecialForm.clauses (.list (test :: x :: xs) :: clauses) = pure (⟨test, x :: xs⟩ :: cs) := by
      rw [SpecialForm.clauses, Clause.ofValue?]
      dsimp only
      rw [isElse_of_ne other, found]
      rfl
    rw [SpecialForm.cond, all, pure_bind, firstClause, isElse_of_ne other, SpecialForm.cond, found, pure_bind]
    rfl
  · exact absurd fits misfit

theorem cond_else (eval : Evaluator) (e : ScopeId) (x : Value) (xs : List Value) :
    SpecialForm.cond eval e [.list (.named "else" :: x :: xs)] = evaluateBody eval e .unspecified (x :: xs) := rfl

theorem evaluate_cond_cons {test x : Value} {xs clauses : List Value} (other : test ≠ .named "else")
    (fits : Keyword.Fits .cond clauses)
    (ended : ((evaluate world (depth + 1) (condOf (.list (test :: x :: xs) :: clauses)) e).run s).1 ≠
      .error .tooDeep) :
    (evaluate world (depth + 2) (ifOf test (beginOf (x :: xs)) (condOf clauses)) e).run s =
      (evaluate world (depth + 1) (condOf (.list (test :: x :: xs) :: clauses)) e).run s := by
  rw [evaluate_condOf, cond_cons _ _ other fits, run_bind] at ended ⊢
  rw [evaluate_ifOf, run_bind, evaluate_condOf, evaluate_beginOf]
  have tested : ((evaluate world depth test e).run s).1 ≠ .error .tooDeep := by
    intro tooDeep
    rcases run : (evaluate world depth test e).run s with ⟨f | v, t⟩
    · rw [run] at tooDeep ended
      exact ended tooDeep
    · rw [run] at tooDeep
      cases tooDeep
  rw [evaluate_deepens world (Nat.le_succ depth) test e s tested]

/-- A cond whose clauses do not fit is rejected before any evaluation. One that fits is unspecified without clauses,
the nested if of its first clause, and what stands after a sole else. -/
theorem evaluate_cond :
    (∀ clauses : List Value, ¬ Keyword.Fits .cond clauses → (∀ v ∈ clauses, v.isWritable = true) →
      ∃ fault, ∀ world eval e s,
        (evaluateStep world eval (condOf clauses) e).run s = (.error (.malformed fault), s)) ∧
    (∀ world depth e s, (evaluate world (depth + 1) (condOf []) e).run s = (.ok .unspecified, s)) ∧
    (∀ world depth depth' test x xs clauses e s, test ≠ .named "else" →
      Keyword.Fits .cond (.list (test :: x :: xs) :: clauses) →
      ((evaluate world depth (condOf (.list (test :: x :: xs) :: clauses)) e).run s).1 ≠ .error .tooDeep →
      ((evaluate world depth' (ifOf test (beginOf (x :: xs)) (condOf clauses)) e).run s).1 ≠ .error .tooDeep →
      (evaluate world depth (condOf (.list (test :: x :: xs) :: clauses)) e).run s =
        (evaluate world depth' (ifOf test (beginOf (x :: xs)) (condOf clauses)) e).run s) ∧
    ∀ world depth x xs e,
      evaluate world depth (condOf [.list (.named "else" :: x :: xs)]) e = evaluate world depth (beginOf (x :: xs)) e := by
  refine ⟨fun clauses misfit writable => ?_, fun world depth e s => rfl, ?_, fun world depth x xs e => ?_⟩
  · obtain ⟨fault, rejected⟩ := cond_rejects misfit writable
    refine ⟨fault, fun world eval e s => ?_⟩
    rw [condOf, evaluateStep_keyword]
    exact rejected eval e s
  · intro world depth depth' test x xs clauses e s other fits left right
    cases depth with
    | zero => exact absurd rfl left
    | succ depth =>
      have nested := evaluate_cond_cons other (fits_cond_cons.1 fits).2.2 left
      rw [← nested] at left ⊢
      exact evaluate_settled world left right
  · cases depth with
    | zero => rfl
    | succ depth => rw [evaluate_condOf, cond_else, evaluate_beginOf]

theorem evaluate_cond_of_assignment :
    let world : World := ⟨true, fun _ => .arguments⟩
    let test : Value := beginOf [.list [.named "set!", .named "n", .text "b"], .bool false]
    let first : Value := .list [test, .text "c"]
    let last : Value := .list [.named "else", .named "n"]
    let s : Store := ⟨#[⟨[(⟨"n"⟩, .text "a"), (⟨"else"⟩, .bool false)], none⟩], 0⟩
    let t : Store := ⟨#[⟨[(⟨"n"⟩, .text "b"), (⟨"else"⟩, .bool false)], none⟩], 0⟩
    (∃ fault, ∀ world eval e s,
      (evaluateStep world eval (condOf [last, first]) e).run s = (.error (.malformed fault), s)) ∧
    (evaluate world 4 (condOf [first, last]) 0).run s = (.ok (.text "b"), t) ∧
    (evaluate world 4 (condOf [first, last]) 0).run s =
      (evaluate world 6 (ifOf test (beginOf [.text "c"]) (condOf [last])) 0).run s := by
  intro world test first last s t
  have isElse : IsElse last := ⟨[.named "n"], rfl⟩
  have clause : IsClause first ∧ IsClause last := ⟨⟨_, _, _, rfl⟩, ⟨_, _, _, rfl⟩⟩
  have other : test ≠ .named "else" := by simp [test, beginOf]
  have fits : Keyword.Fits .cond [first, last] := by
    refine .cond (by simpa using clause) fun v mem => ?_
    rw [List.mem_singleton.1 mem]
    rintro ⟨_, same⟩
    exact other (List.cons.inj (Value.list.inj same)).1
  have misfit : ¬ Keyword.Fits .cond [last, first] := by
    rintro ⟨⟩
    next early => exact early last List.mem_cons_self isElse
  have writable : ∀ v ∈ [last, first], v.isWritable = true := by
    simp [last, first, test, beginOf, Value.isWritable, Value.allWritable]
  obtain ⟨rejects, _, nested, _⟩ := evaluate_cond
  have run : (evaluate world 4 (condOf [first, last]) 0).run s = (.ok (.text "b"), t) := rfl
  have nestedRun : ((evaluate world 6 (ifOf test (beginOf [.text "c"]) (condOf [last])) 0).run s).1 =
    .ok (.text "b") := rfl
  refine ⟨rejects _ misfit writable, run, nested world 4 6 test (.text "c") [] [last] 0 s other fits ?_ ?_⟩
  · intro tooDeep
    rw [run] at tooDeep
    cases tooDeep
  · intro tooDeep
    rw [nestedRun] at tooDeep
    cases tooDeep

end MicroScheme
