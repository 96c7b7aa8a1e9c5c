import MicroScheme.Proofs.Evaluation.Limits
import MicroScheme.Proofs.Store.Scoping

set_option autoImplicit false

namespace MicroScheme

variable {world : World} {eval : Evaluator} {depth : Nat} {e : ScopeId} {s t : Store} {v : Value}

theorem run_bind_ok {α β : Type} {m : Eval α} {k : α → Eval β} {a : α} (h : m.run s = (.ok a, t)) :
    (m >>= k).run s = (k a).run t := by
  rw [run_bind, h]

theorem run_bind_error {α β : Type} {m : Eval α} {k : α → Eval β} {f : Failure} (h : m.run s = (.error f, t)) :
    (m >>= k).run s = (.error f, t) := by
  rw [run_bind, h]

/-- The expression has this value, and evaluating it leaves the store as it is. -/
def HasValue (eval : Evaluator) (e : ScopeId) (s : Store) (x v : Value) : Prop := (eval x e).run s = (.ok v, s)

theorem hasValue_symbol {n : Symbol} (bound : s.lookup? e n = some v) :
    HasValue (evaluate world (depth + 1)) e s (.symbol n) v := by
  have run := Eval.run_lookup n e s
  rw [bound] at run
  exact run

theorem hasValue_number (n : Number) : HasValue (evaluate world (depth + 1)) e s (.number n) (.number n) := rfl

theorem HasValue.all {xs vs : List Value} (h : List.Forall₂ (HasValue eval e s) xs vs) :
    (evaluateAll eval e xs).run s = (.ok vs, s) := by
  induction h with
  | nil => rfl
  | cons hxv _ ih =>
    rw [evaluateAll, run_bind_ok hxv, run_bind_ok ih]
    rfl

theorem evaluate_application {head : Value} (plain : keyword? head = none) (operands : List Value) :
    evaluate world (depth + 1) (.list (head :: operands)) e = evaluate world depth head e >>= fun p =>
      evaluateAll (evaluate world depth) e operands >>= fun args => apply world (evaluate world depth) p args e := by
  rw [evaluate, evaluateStep, plain]

theorem run_application {head p : Value} {operands args : List Value} (plain : keyword? head = none)
    (procedure : HasValue (evaluate world depth) e s head p)
    (arguments : List.Forall₂ (HasValue (evaluate world depth) e s) operands args) :
    (evaluate world (depth + 1) (.list (head :: operands)) e).run s =
      (apply world (evaluate world depth) p args e).run s := by
  rw [evaluate_application plain, run_bind_ok procedure, run_bind_ok (HasValue.all arguments)]

theorem run_apply_primitive {p : Primitive} {args : List Value} (called : p.call args = .ok v) :
    (apply world eval (.native (.primitive p)) args e).run s = (.ok v, s) := by
  rw [run_apply_native, Native.call, called]
  rfl

theorem hasValue_primitive {head : Value} {p : Primitive} {operands args : List Value} (plain : keyword? head = none)
    (procedure : HasValue (evaluate world depth) e s head (.native (.primitive p)))
    (arguments : List.Forall₂ (HasValue (evaluate world depth) e s) operands args) (called : p.call args = .ok v) :
    HasValue (evaluate world (depth + 1)) e s (.list (head :: operands)) v := by
  rw [HasValue, run_application plain procedure arguments, run_apply_primitive called]

theorem run_apply_closure {id : Nat} {formals : List Symbol} {body : Value} {captured : ScopeId} {args : List Value}
    (counted : args.length = formals.length) :
    (apply world eval (.closure id formals body captured) args e).run s =
      (eval body s.nextScope).run (s.addFrame ⟨Bindings.putAll [] (parameters formals args), some captured⟩) := by
  have run := Eval.run_bindParameters world formals args captured s
  rw [if_neg (by simp [counted])] at run
  exact run_bind_ok run

/-- From some depth on the call ends so, and not because it gets too deep. -/
def CallEnds (world : World) (p : Value) (args : List Value) (e : ScopeId) (s : Store) (r : Except Failure Value)
    (t : Store) : Prop :=
  r ≠ .error .tooDeep ∧ ∃ depth, ∀ n, depth ≤ n → (apply world (evaluate world n) p args e).run s = (r, t)

variable {p : Value} {args : List Value} {r : Except Failure Value}

theorem callEnds_of_run (run : (apply world (evaluate world depth) p args e).run s = (r, t))
    (ended : r ≠ .error .tooDeep) : CallEnds world p args e s r t := by
  refine ⟨ended, depth, fun n deeper => ?_⟩
  rw [← run]
  refine apply_deepens world deeper ?_
  rw [run]
  exact ended

theorem callEnds_of_ok (depth : Nat) (ended : ((apply world (evaluate world depth) p args e).run s).1 = .ok v) :
    CallEnds world p args e s (.ok v) ((apply world (evaluate world depth) p args e).run s).2 :=
  callEnds_of_run (Prod.ext ended rfl) nofun

theorem CallEnds.unique {r' : Except Failure Value} {t' : Store} (left : CallEnds world p args e s r t)
    (right : CallEnds world p args e s r' t') : r = r' ∧ t = t' := by
  obtain ⟨_, m, left⟩ := left
  obtain ⟨_, n, right⟩ := right
  exact Prod.mk.inj ((left _ (Nat.le_max_left m n)).symm.trans (right _ (Nat.le_max_right m n)))

end MicroScheme
