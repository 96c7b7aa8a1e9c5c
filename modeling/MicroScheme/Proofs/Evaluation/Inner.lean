import MicroScheme.Proofs.Evaluation.Shape

set_option autoImplicit false

namespace MicroScheme

/-- An expression that is evaluated in a scope and a store. -/
structure Site where
  form : Value
  scope : ScopeId
  store : Store
deriving DecidableEq

def Site.run (q : Site) (eval : Evaluator) : Except Failure Value × Store := (eval q.form q.scope).run q.store

/-- The evaluator with another ending at one site. -/
def Evaluator.endingAt (eval : Evaluator) (q : Site) (r : Except Failure Value × Store) : Evaluator :=
  fun x e s => if Site.mk x e s = q then r else (eval x e).run s

variable {α β : Type} {eval : Evaluator} {s t : Store} {e : ScopeId} {q : Site} {own : Failure → Store → Prop}

theorem run_endingAt_self (eval : Evaluator) (q : Site) (r : Except Failure Value × Store) :
    q.run (eval.endingAt q r) = r :=
  if_pos rfl

theorem run_endingAt_of_ne {x : Value} (other : Site.mk x e s ≠ q) (r : Except Failure Value × Store) :
    (eval.endingAt q r x e).run s = (eval x e).run s :=
  if_neg other

theorem endingAt_run (eval : Evaluator) (q : Site) : eval.endingAt q (q.run eval) = eval := by
  funext x e s
  by_cases same : Site.mk x e s = q
  · exact same ▸ run_endingAt_self eval ⟨x, e, s⟩ _
  · exact run_endingAt_of_ne same _

/-- In the course of the computation the site is evaluated: if that failed, whatever the failure and the store, the
computation would fail so too. -/
def Evaluates (m : Evaluator → Eval α) (eval : Evaluator) (s : Store) (q : Site) : Prop :=
  ∀ f t, (m (eval.endingAt q (.error f, t))).run s = (.error f, t)

/-- It makes no difference to the computation how the evaluation of the site ends. -/
def Ignores (m : Evaluator → Eval α) (eval : Evaluator) (s : Store) (q : Site) : Prop :=
  ∀ r, (m (eval.endingAt q r)).run s = (m eval).run s

/-- Each site is evaluated in the computation or makes no difference to it, and a failure of the computation is its own
or that of a site it evaluates. -/
structure Passes (m : Evaluator → Eval α) (eval : Evaluator) (s : Store) (own : Failure → Store → Prop) : Prop where
  either : ∀ q, Evaluates m eval s q ∨ Ignores m eval s q
  source : ∀ f t, (m eval).run s = (.error f, t) → own f t ∨ ∃ q, Evaluates m eval s q ∧ q.run eval = (.error f, t)

variable {m : Evaluator → Eval α} {k : α → Evaluator → Eval β}

theorem Evaluates.run (h : Evaluates m eval s q) {f : Failure} (failed : q.run eval = (.error f, t)) :
    (m eval).run s = (.error f, t) := by
  have ended := h f t
  rw [← failed, endingAt_run] at ended
  exact ended

theorem Evaluates.bind (h : Evaluates m eval s q) :
    Evaluates (fun eval => m eval >>= fun a => k a eval) eval s q := by
  intro f t
  rw [run_bind, h f t]

theorem Ignores.bind_ok {a : α} (h : Ignores m eval s q) (run : (m eval).run s = (.ok a, t))
    (r : Except Failure Value × Store) :
    (m (eval.endingAt q r) >>= fun a => k a (eval.endingAt q r)).run s = (k a (eval.endingAt q r)).run t := by
  rw [run_bind, h r, run]

theorem passes_const {c : Eval α} (fails : ∀ f t, c.run s = (.error f, t) → own f t) :
    Passes (fun _ => c) eval s own :=
  ⟨fun _ => .inr fun _ => rfl, fun f t failed => .inl (fails f t failed)⟩

theorem passes_pure (a : α) : Passes (fun _ => pure a) eval s own :=
  passes_const fun _ _ failed => nomatch failed

theorem passes_eval (x : Value) (e : ScopeId) : Passes (fun eval => eval x e) eval s own where
  either q := by
    by_cases same : Site.mk x e s = q
    · subst same
      exact .inl fun f t => run_endingAt_self eval _ _
    · exact .inr fun r => run_endingAt_of_ne same r
  source f t failed := .inr ⟨⟨x, e, s⟩, fun f t => run_endingAt_self eval _ _, failed⟩

theorem Passes.bind (first : Passes m eval s own)
    (rest : ∀ a t, (m eval).run s = (.ok a, t) → Passes (k a) eval t own) :
    Passes (fun eval => m eval >>= fun a => k a eval) eval s own := by
  rcases run : (m eval).run s with ⟨f | a, t⟩
  · refine ⟨fun q => (first.either q).imp Evaluates.bind fun ignores r => ?_, fun f' t' failed => ?_⟩
    · rw [run_bind, run_bind, ignores r, run]
    · rw [run_bind, run] at failed
      cases failed
      exact (first.source f t run).imp_right fun ⟨q, evaluates, failed⟩ => ⟨q, evaluates.bind, failed⟩
  · have next := rest a t run
    have whole : (m eval >>= fun a => k a eval).run s = (k a eval).run t := by rw [run_bind, run]
    refine ⟨fun q => ?_, fun f t' failed => ?_⟩
    · rcases first.either q with evaluates | ignores
      · exact .inl evaluates.bind
      · exact (next.either q).imp (fun evaluates f t' => (ignores.bind_ok run _).trans (evaluates f t')) fun same r =>
          (ignores.bind_ok run r).trans ((same r).trans whole.symm)
    · refine (next.source f t' (whole.symm.trans failed)).imp_right fun ⟨q, evaluates, failed⟩ => ?_
      refine ⟨q, fun f t' => ?_, failed⟩
      -- the first part has not failed, so it does not evaluate a site that fails
      rcases first.either q with early | ignores
      · cases run.symm.trans (early.run failed)
      · exact (ignores.bind_ok run _).trans (evaluates f t')

theorem passes_evaluateAll (e : ScopeId) (xs : List Value) : Passes (fun eval => evaluateAll eval e xs) eval s own := by
  induction xs generalizing s with
  | nil => exact passes_pure _
  | cons x xs ih => exact (passes_eval x e).bind fun v t _ => ih.bind fun vs u _ => passes_pure _

theorem passes_evaluateBody (e : ScopeId) (last : Value) (xs : List Value) :
    Passes (fun eval => evaluateBody eval e last xs) eval s own := by
  induction xs generalizing s last with
  | nil => exact passes_pure _
  | cons x xs ih => exact (passes_eval x e).bind fun v t _ => ih v

theorem passes_ite {n : Evaluator → Eval α} (b : Bool) (yes : Passes m eval s own) (no : Passes n eval s own) :
    Passes (fun eval => if b then m eval else n eval) eval s own := by
  cases b with
  | true => exact yes
  | false => exact no

theorem passes_firstClause (e : ScopeId) (cs : List SpecialForm.Clause) :
    Passes (fun eval => SpecialForm.firstClause eval e cs) eval s own := by
  induction cs generalizing s with
  | nil => exact passes_pure _
  | cons c cs ih =>
    refine passes_ite c.isElse (passes_evaluateBody e _ _) ((passes_eval c.test e).bind fun v t _ => ?_)
    exact passes_ite v.isFalse ih (passes_evaluateBody e _ _)

theorem passes_cond (e : ScopeId) {operands : List Value} (fits : Keyword.Fits .cond operands) :
    Passes (fun eval => SpecialForm.cond eval e operands) eval s own := by
  rcases clauses_cases operands with ⟨_, cs, found⟩ | ⟨misfit, _⟩
  · have run : (fun eval => SpecialForm.cond eval e operands) = fun eval => SpecialForm.firstClause eval e cs := by
      funext eval
      rw [SpecialForm.cond, found]
      rfl
    rw [run]
    exact passes_firstClause e cs
  · exact absurd fits misfit

theorem passes_lambda (e : ScopeId) {params : List Value} (x : Value) (xs : List Value)
    (symbols : ∀ v ∈ params, ∃ n, v = .symbol n) :
    Passes (fun _ => SpecialForm.lambda e (.list params :: x :: xs)) eval s own := by
  cases found : SpecialForm.formals? (.list params) with
  | none => exact absurd symbols (symbols?_eq_none found)
  | some formals =>
    have run : SpecialForm.lambda e (.list params :: x :: xs) =
        Eval.newClosure formals (SpecialForm.sequence (x :: xs)) e := by rw [SpecialForm.lambda, found]
    rw [run]
    exact passes_const fun f t failed => by cases failed

theorem passes_letBindings (e : ScopeId) {bindings : List Value} (fits : ∀ v ∈ bindings, SpecialForm.IsBinding v)
    (bound : Bindings) : Passes (fun eval => SpecialForm.letBindings eval e bound bindings) eval s own := by
  induction bindings generalizing s bound with
  | nil => exact passes_pure _
  | cons v bindings ih =>
    obtain ⟨⟨n, x, rfl⟩, rest⟩ := List.forall_mem_cons.1 fits
    exact (passes_eval x e).bind fun v t _ => ih rest _

theorem passes_letIn (e : ScopeId) {bindings : List Value} (fits : ∀ v ∈ bindings, SpecialForm.IsBinding v)
    (body : List Value) : Passes (fun eval => SpecialForm.letIn eval e (.list bindings :: body)) eval s own := by
  refine (passes_letBindings e fits []).bind fun bound t _ => ?_
  refine Passes.bind (k := fun scope eval => evaluateBody eval scope .unspecified body)
    (passes_const fun f u failed => by cases failed) fun scope u _ => passes_evaluateBody scope _ _

theorem passes_assign {e : ScopeId} {n : Symbol} {x : Value}
    (unassigned : ∀ v t, (eval x e).run s = (.ok v, t) → t.owner? e n = none → own (.unbound n.name) t) :
    Passes (fun eval => SpecialForm.assign eval e [.symbol n, x]) eval s own := by
  refine (passes_eval x e).bind fun v t first => ?_
  refine Passes.bind (k := fun _ _ => pure Value.unspecified) (passes_const fun f u failed => ?_) fun _ u _ =>
    passes_pure _
  rw [Eval.run_assign] at failed
  cases found : t.owner? e n with
  | some d =>
    rw [found] at failed
    cases failed
  | none =>
    rw [found] at failed
    cases failed
    exact unassigned v _ first found

theorem passes_define (e : ScopeId) (n : Symbol) (x : Value) :
    Passes (fun eval => SpecialForm.define eval e [.symbol n, x]) eval s own :=
  (passes_eval x e).bind fun v t _ => passes_const fun f u failed => by cases failed

theorem passes_and (e : ScopeId) (last : Value) (xs : List Value) :
    Passes (fun eval => SpecialForm.and eval e last xs) eval s own := by
  induction xs generalizing s last with
  | nil => exact passes_pure _
  | cons x xs ih => exact (passes_eval x e).bind fun v t _ => passes_ite v.isFalse (passes_pure _) (ih v)

theorem passes_or (e : ScopeId) (xs : List Value) : Passes (fun eval => SpecialForm.or eval e xs) eval s own := by
  induction xs generalizing s with
  | nil => exact passes_pure _
  | cons x xs ih => exact (passes_eval x e).bind fun v t _ => passes_ite v.isFalse ih (passes_pure _)

end MicroScheme
