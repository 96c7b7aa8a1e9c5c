import MicroScheme.Proofs.Evaluation.Call

set_option autoImplicit false

namespace MicroScheme

theorem Value.eq_of_isFalse {v : Value} (h : v.isFalse = true) : v = .bool false := by
  unfold isFalse at h
  split at h
  · rfl
  · cases h

inductive Connective where
  | and
  | or
deriving DecidableEq

namespace Connective

def keyword : Connective → Keyword
  | .and => .and
  | .or => .or

def dual : Connective → Connective
  | .and => .or
  | .or => .and

def unit : Connective → Value
  | .and => .bool true
  | .or => .bool false

def decides : Connective → Value → Bool
  | .and, v => v.isFalse
  | .or, v => !v.isFalse

def form (c : Connective) (operands : List Value) : Value := .list (.named c.keyword.name :: operands)

/-- The operands that are evaluated, each with the store in which it is evaluated, and how the evaluation ends. -/
structure Trial where
  tried : List (Value × Store)
  ending : Except Failure Value × Store

/-- Tries operands up to the first that fails or decides. Without any, the value is `last`. -/
def trial (c : Connective) (eval : Evaluator) (e : ScopeId) : (last : Value) → List Value → Store → Trial
  | last, [], s => ⟨[], (.ok last, s)⟩
  | _, x :: xs, s =>
    match (eval x e).run s with
    | (.error f, t) => ⟨[(x, s)], (.error f, t)⟩
    | (.ok v, t) =>
      if c.decides v then ⟨[(x, s)], (.ok v, t)⟩
      else
        let rest := trial c eval e v xs t
        ⟨(x, s) :: rest.tried, rest.ending⟩

variable {c : Connective} {eval : Evaluator} {e : ScopeId} {s t : Store} {x v : Value} {f : Failure}

theorem trial_failed (run : (eval x e).run s = (.error f, t)) (last : Value) (xs : List Value) :
    c.trial eval e last (x :: xs) s = ⟨[(x, s)], (.error f, t)⟩ := by
  rw [trial, run]

theorem trial_decided (run : (eval x e).run s = (.ok v, t)) (decided : c.decides v = true) (last : Value)
    (xs : List Value) : c.trial eval e last (x :: xs) s = ⟨[(x, s)], (.ok v, t)⟩ := by
  rw [trial, run]
  exact if_pos decided

theorem trial_undecided (run : (eval x e).run s = (.ok v, t)) (undecided : c.decides v = false) (last : Value)
    (xs : List Value) :
    c.trial eval e last (x :: xs) s =
      ⟨(x, s) :: (c.trial eval e v xs t).tried, (c.trial eval e v xs t).ending⟩ := by
  rw [trial, run]
  exact if_neg (Bool.eq_false_iff.1 undecided)

theorem run_and (eval : Evaluator) (e : ScopeId) (last : Value) (xs : List Value) (s : Store) :
    (SpecialForm.and eval e last xs).run s = (trial .and eval e last xs s).ending := by
  induction xs generalizing last s with
  | nil => rfl
  | cons x xs ih =>
    rcases run : (eval x e).run s with ⟨f | v, t⟩
    · rw [trial_failed run, SpecialForm.and, run_bind_error run]
    · rw [SpecialForm.and, run_bind_ok run]
      cases h : v.isFalse with
      | true =>
        rw [trial_decided (c := .and) run h, Value.eq_of_isFalse h]
        rfl
      | false =>
        rw [trial_undecided (c := .and) run h]
        exact ih v t

theorem run_or (eval : Evaluator) (e : ScopeId) (xs : List Value) (s : Store) :
    (SpecialForm.or eval e xs).run s = (trial .or eval e (.bool false) xs s).ending := by
  induction xs generalizing s with
  | nil => rfl
  | cons x xs ih =>
    rcases run : (eval x e).run s with ⟨f | v, t⟩
    · rw [trial_failed run, SpecialForm.or, run_bind_error run]
    · rw [SpecialForm.or, run_bind_ok run]
      cases h : v.isFalse with
      | true =>
        rw [trial_undecided run (by rw [decides, h]; rfl), Value.eq_of_isFalse h]
        exact ih t
      | false =>
        rw [trial_decided run (by rw [decides, h]; rfl)]
        rfl

theorem run_trial (c : Connective) (eval : Evaluator) (e : ScopeId) (xs : List Value) (s : Store) :
    (SpecialForm.run eval e xs c.keyword).run s = (c.trial eval e c.unit xs s).ending := by
  cases c with
  | and => exact run_and eval e (.bool true) xs s
  | or => exact run_or eval e xs s

theorem run_form (world : World) (depth : Nat) (c : Connective) (xs : List Value) (e : ScopeId) (s : Store) :
    (evaluate world (depth + 1) (c.form xs) e).run s = (c.trial (evaluate world depth) e c.unit xs s).ending := by
  rw [evaluate, form, evaluateStep_keyword]
  exact c.run_trial (evaluate world depth) e xs s

end Connective

def Value.negation (v : Value) : Value := .bool v.isFalse

def notOf (x : Value) : Value := .list [.named Primitive.not.operator, x]

/-- In the scope the name of the primitive not stands for it. -/
def Negates (e : ScopeId) (s : Store) : Prop :=
  s.lookup? e ⟨Primitive.not.operator⟩ = some (.native (.primitive .not))

def negated (ending : Except Failure Value × Store) : Except Failure Value × Store :=
  (ending.1.map Value.negation, ending.2)

variable {world : World} {depth : Nat} {e : ScopeId} {s : Store} {v : Value}

theorem run_notOf (world : World) (depth : Nat) (x : Value) (stands : Negates e s) :
    (evaluate world (depth + 1) (notOf x) e).run s = negated ((evaluate world depth x e).run s) := by
  cases depth with
  | zero => rfl
  | succ depth =>
    rw [notOf, evaluate_application rfl, run_bind_ok (hasValue_symbol stands)]
    rcases run : (evaluate world (depth + 1) x e).run s with ⟨f | v, t⟩
    · have arguments : (evaluateAll (evaluate world (depth + 1)) e [x]).run s = (.error f, t) := run_bind_error run
      exact run_bind_error arguments
    · have arguments : (evaluateAll (evaluate world (depth + 1)) e [x]).run s = (.ok [v], t) := run_bind_ok run
      have called : Primitive.not.call [v] = .ok v.negation := rfl
      rw [run_bind_ok arguments]
      exact run_apply_primitive called

theorem Value.isFalse_negation (v : Value) : v.negation.isFalse = !v.isFalse := by
  rw [negation]
  cases v.isFalse <;> rfl

namespace Connective

variable {c : Connective} {eval eval' : Evaluator} {last : Value} {xs : List Value}

theorem decides_negation (c : Connective) (v : Value) : c.dual.decides v.negation = c.decides v := by
  cases c <;> simp [dual, decides, Value.isFalse_negation]

theorem negation_unit (c : Connective) : c.unit.negation = c.dual.unit := by
  cases c <;> rfl

/-- The same trial with the negations of all operands and of the value. -/
def Trial.negated (trial : Trial) : Trial :=
  ⟨trial.tried.map fun p => (notOf p.1, p.2), MicroScheme.negated trial.ending⟩

theorem trial_dual (opposite : ∀ p ∈ (c.trial eval e last xs s).tried,
      (eval' (notOf p.1) e).run p.2 = negated ((eval p.1 e).run p.2)) :
    c.dual.trial eval' e last.negation (xs.map notOf) s = (c.trial eval e last xs s).negated := by
  induction xs generalizing last s with
  | nil => rfl
  | cons x xs ih =>
    rw [List.map_cons]
    rcases run : (eval x e).run s with ⟨f | v, t⟩
    · rw [trial_failed run] at opposite ⊢
      have first := opposite (x, s) List.mem_cons_self
      rw [run] at first
      rw [trial_failed first]
      rfl
    · cases decided : c.decides v with
      | true =>
        rw [trial_decided run decided] at opposite ⊢
        have first := opposite (x, s) List.mem_cons_self
        rw [run] at first
        rw [trial_decided first ((decides_negation c v).trans decided)]
        rfl
      | false =>
        rw [trial_undecided run decided] at opposite ⊢
        obtain ⟨first, rest⟩ := List.forall_mem_cons.1 opposite
        rw [run] at first
        rw [trial_undecided first ((decides_negation c v).trans decided), ih rest]
        rfl

end Connective

/-- The negation of one form and the other form of the negated operands, in a scope where not stands for the primitive
whenever an operand is tried: the same operands are tried in the same stores, and both end with the same value or
failure and the same store. -/
theorem evaluate_negated (world : World) (depth : Nat) (c : Connective) (xs : List Value) (e : ScopeId) (s : Store)
    (first : Negates e s)
    (stands : ∀ p ∈ (c.trial (evaluate world depth) e c.unit xs s).tried, Negates e p.2) :
    (c.dual.trial (evaluate world (depth + 1)) e c.dual.unit (xs.map notOf) s).tried =
        (c.trial (evaluate world depth) e c.unit xs s).tried.map (fun p => (notOf p.1, p.2)) ∧
      (evaluate world (depth + 2) (notOf (c.form xs)) e).run s =
        negated (c.trial (evaluate world depth) e c.unit xs s).ending ∧
      (evaluate world (depth + 2) (c.dual.form (xs.map notOf)) e).run s =
        negated (c.trial (evaluate world depth) e c.unit xs s).ending ∧
      ∀ depth', ((evaluate world (depth + 2) (notOf (c.form xs)) e).run s).1 ≠ .error .tooDeep →
        ((evaluate world depth' (c.dual.form (xs.map notOf)) e).run s).1 ≠ .error .tooDeep →
        (evaluate world depth' (c.dual.form (xs.map notOf)) e).run s =
          (evaluate world (depth + 2) (notOf (c.form xs)) e).run s := by
  have dual : c.dual.trial (evaluate world (depth + 1)) e c.dual.unit (xs.map notOf) s =
      (c.trial (evaluate world depth) e c.unit xs s).negated := by
    rw [← c.negation_unit]
    exact Connective.trial_dual fun p mem => run_notOf world depth p.1 (stands p mem)
  have left : (evaluate world (depth + 2) (notOf (c.form xs)) e).run s =
      negated (c.trial (evaluate world depth) e c.unit xs s).ending := by
    rw [run_notOf world (depth + 1) _ first, Connective.run_form]
  have right : (evaluate world (depth + 2) (c.dual.form (xs.map notOf)) e).run s =
      negated (c.trial (evaluate world depth) e c.unit xs s).ending := by
    rw [Connective.run_form, dual]
    rfl
  refine ⟨congrArg _ dual, left, right, fun depth' ended ended' => ?_⟩
  rw [left, ← right] at ended ⊢
  exact evaluate_settled world ended' ended

theorem evaluate_negated_of_assignment :
    let world : World := ⟨true, fun _ => .arguments⟩
    let assigned : Value := .list [.named "begin", .list [.named "set!", .named "n", .bool false], .named "n"]
    let xs : List Value := [.named "n", assigned, .named "gone"]
    let store (v : Value) : Store := ⟨#[⟨[(⟨"not"⟩, .native (.primitive .not)), (⟨"n"⟩, v)], none⟩], 0⟩
    let s := store (.int 1)
    let t := store (.bool false)
    Negates 0 s ∧ (∀ p ∈ (Connective.and.trial (evaluate world 3) 0 Connective.and.unit xs s).tried, Negates 0 p.2) ∧
      (Connective.or.trial (evaluate world 4) 0 Connective.or.unit (xs.map notOf) s).tried =
        [(notOf (.named "n"), s), (notOf assigned, s)] ∧
      (evaluate world 5 (notOf (Connective.and.form xs)) 0).run s = (.ok (.bool true), t) ∧
      (evaluate world 9 (Connective.or.form (xs.map notOf)) 0).run s = (.ok (.bool true), t) := by
  intro world assigned xs store s t
  have trial : Connective.and.trial (evaluate world 3) 0 Connective.and.unit xs s =
    ⟨[(.named "n", s), (assigned, s)], (.ok (.bool false), t)⟩ := rfl
  have first : Negates 0 s := rfl
  have stands : ∀ p ∈ (Connective.and.trial (evaluate world 3) 0 Connective.and.unit xs s).tried, Negates 0 p.2 := by
    rw [trial]
    exact List.forall_mem_cons.2 ⟨first, List.forall_mem_singleton.2 first⟩
  obtain ⟨tried, left, _, deeper⟩ := evaluate_negated world 3 .and xs 0 s first stands
  rw [trial] at tried left
  have right : ((evaluate world 9 (Connective.or.form (xs.map notOf)) 0).run s).1 = .ok (.bool true) := rfl
  refine ⟨first, stands, tried, left, (deeper 9 ?_ ?_).trans left⟩
  · rw [left]
    exact nofun
  · intro tooDeep
    cases right.symm.trans tooDeep

end MicroScheme
