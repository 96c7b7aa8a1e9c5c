import MicroScheme.Proofs.Evaluation.Inner
import MicroScheme.Proofs.Value.Signal

set_option autoImplicit false

/-!
Where failures come from. Nothing catches a failure or changes it on its way out, so each is raised by one operation
of one evaluation. Main statement: an evaluation fails exactly if one of the evaluations in its course gets too deep or
raises the failure itself, in the store that the whole run leaves (`evaluate_failure`).
-/

namespace MicroScheme

def Value.IsProcedure : Value → Prop
  | .closure _ _ _ _ => True
  | .native _ => True
  | _ => False

/-- Applied to these arguments, from this scope and in this store, a value raises a failure, and leaves a store. -/
inductive Refuses (world : World) (e : ScopeId) (args : List Value) (s : Store) : Value → Failure → Store → Prop where
  | notProcedure {v : Value} {got : String} : ¬ v.IsProcedure → v.print? true = some got →
    Refuses world e args s v (.wrongKind (.notProcedure got)) s
  | unprinted {v : Value} : ¬ v.IsProcedure → v.print? true = none → Refuses world e args s v .digitLimit s
  | wrongCount {id : Nat} {formals : List Symbol} {body : Value} {d : ScopeId} : world.strictArity = true →
    args.length ≠ formals.length →
    Refuses world e args s (.closure id formals body d) (.wrongCount (.closure formals args.length)) s
  | primitiveKind {p : Primitive} {fault : KindFault} : p.call args = .error (.wrongKind fault) →
    Refuses world e args s (.native (.primitive p)) (.wrongKind fault) s
  | primitiveCount {p : Primitive} {fault : CountFault} : p.call args = .error (.wrongCount fault) →
    Refuses world e args s (.native (.primitive p)) (.wrongCount fault) s
  /-- The label of the procedure that has raised a fault comes before its message, once. -/
  | fault {p : Native} {error : HostError} {t : Store} : p.call world e args s = (.error (.host error), t) →
    error.kind.isFault = true → Refuses world e args s (.native p) (.hostFault p.label error.message) t
  /-- What is not a fault stays as the host has raised it. -/
  | foreign {id : Nat} {label : String} {error : HostError} {t : Store} :
    world.host id e args s = (.error error, t) → error.kind.isFault = false →
    Refuses world e args s (.native (.host id label)) (.foreign error.kind error.message) t

/-- Evaluated in this scope and store, an expression raises a failure itself, after the evaluations inside it. The texts
that it may lack are those of a quoted leaf, of a part that does not fit, and of what is applied. -/
inductive Raises (world : World) (eval : Evaluator) (e : ScopeId) (s : Store) : Value → Failure → Store → Prop where
  | unbound {n : Symbol} : s.lookup? e n = none → Raises world eval e s (.symbol n) (.unbound n.name) s
  | unassigned {n : Symbol} {x v : Value} {t : Store} : (eval x e).run s = (.ok v, t) → t.owner? e n = none →
    Raises world eval e s (.list [.named Keyword.assign.name, .symbol n, x]) (.unbound n.name) t
  | unquoted {leaf : Value} : (∀ items, leaf ≠ .list items) → leaf.print? false = none →
    Raises world eval e s (.list [.named Keyword.quote.name, leaf]) .digitLimit s
  | malformed {k : Keyword} {operands vs : List Value} {fault : FormFault} {t : Store} : ¬ k.Fits operands →
    (evaluateAll eval e (k.premature operands)).run s = (.ok vs, t) →
    (SpecialForm.run eval e operands k).run s = (.error (.malformed fault), t) →
    Raises world eval e s (.list (.named k.name :: operands)) (.malformed fault) t
  | undescribed {k : Keyword} {operands vs : List Value} {x part : Value} {t : Store} : ¬ k.Fits operands →
    (evaluateAll eval e (k.premature operands)).run s = (.ok vs, t) → x ∈ operands → part.Within x →
    part.describe? = none → (SpecialForm.run eval e operands k).run s = (.error .digitLimit, t) →
    Raises world eval e s (.list (.named k.name :: operands)) .digitLimit t
  | refused {head procedure : Value} {operands args : List Value} {t u v : Store} {f : Failure} :
    keyword? head = none → (eval head e).run s = (.ok procedure, t) →
    (evaluateAll eval e operands).run t = (.ok args, u) → Refuses world e args u procedure f v →
    Raises world eval e s (.list (head :: operands)) f v

variable {world : World} {eval : Evaluator} {e : ScopeId} {s t : Store} {f : Failure} {own : Failure → Store → Prop}

theorem Signal.failure_of_fault {error : HostError} (fault : error.kind.isFault = true) (label : String) :
    (Signal.host error).failure label = .hostFault label error.message :=
  if_pos fault

theorem Signal.failure_of_foreign {error : HostError} (foreign : error.kind.isFault = false) (label : String) :
    (Signal.host error).failure label = .foreign error.kind error.message :=
  if_neg (Bool.eq_false_iff.1 foreign)

theorem Native.call_primitive {p : Primitive} {args : List Value} {r : Except Signal Value} (called : p.call args = r) :
    (Native.primitive p).call world e args s = (r, s) :=
  congrArg (·, s) called

theorem run_apply_of_error {p : Native} {args : List Value} {signal : Signal}
    (raised : p.call world e args s = (.error signal, t)) :
    (apply world eval (.native p) args e).run s = (.error (signal.failure p.label), t) := by
  rw [run_apply_native, raised]
  rfl

theorem run_apply_notProcedure {v : Value} (args : List Value) (h : ¬ v.IsProcedure) :
    (apply world eval v args e).run s =
      match v.print? true with
      | some got => (.error (.wrongKind (.notProcedure got)), s)
      | none => (.error .digitLimit, s) := by
  have same : (apply world eval v args e).run s =
      (do throw (.wrongKind (.notProcedure (← Eval.written (v.print? true)))) : Eval Value).run s := by
    cases v with
    | closure | native => exact (h trivial).elim
    | number | bool | text | symbol | list | unspecified => rfl
  rw [same]
  cases v.print? true <;> rfl

theorem Refuses.run {args : List Value} {procedure : Value} (h : Refuses world e args s procedure f t) :
    (apply world eval procedure args e).run s = (.error f, t) := by
  cases h with
  | notProcedure other printed => rw [run_apply_notProcedure args other, printed]
  | unprinted other unprinted => rw [run_apply_notProcedure args other, unprinted]
  | @wrongCount _ formals _ captured strict count =>
    have bound := Eval.run_bindParameters world formals args captured s
    rw [if_pos (by simp [strict, count])] at bound
    rw [apply, run_bind, bound]
  | primitiveKind raised => exact run_apply_of_error (Native.call_primitive raised)
  | primitiveCount raised => exact run_apply_of_error (Native.call_primitive raised)
  | @fault p _ _ raised kind => rw [run_apply_of_error raised, Signal.failure_of_fault kind]
  | @foreign id label error _ raised kind =>
    have called : (Native.host id label).call world e args s = (.error (.host error), t) := by
      rw [Native.call, raised]
      rfl
    rw [run_apply_of_error called, Signal.failure_of_foreign kind]

theorem Raises.run {x : Value} (h : Raises world eval e s x f t) :
    (evaluateStep world eval x e).run s = (.error f, t) := by
  cases h with
  | unbound free => exact (Eval.run_lookup _ e s).trans (by rw [free])
  | @unassigned n _ v _ first free =>
    have assigned := Eval.run_assign n v e t
    rw [free] at assigned
    rw [evaluateStep_keyword, SpecialForm.run, SpecialForm.assign, run_bind, first]
    dsimp only
    rw [run_bind, assigned]
  | @unquoted leaf other unprinted =>
    have written : (do pure (.text (← Eval.written (leaf.print? false))) : Eval Value).run s = (.error .digitLimit, s) := by
      rw [unprinted]
      rfl
    rw [evaluateStep_keyword, SpecialForm.run]
    cases leaf with
    | list items => exact (other items rfl).elim
    | number | bool | text | symbol | unspecified | closure | native => exact written
  | malformed _ _ run => exact (congrArg (·.run s) (evaluateStep_keyword world eval _ _ e)).trans run
  | undescribed _ _ _ _ _ run => exact (congrArg (·.run s) (evaluateStep_keyword world eval _ _ e)).trans run
  | refused plain first rest refuses =>
    rw [evaluateStep, plain]
    dsimp only
    rw [run_bind, first]
    dsimp only
    rw [run_bind, rest]
    exact refuses.run

theorem refuses_of_signal {args : List Value} {p : Native} {signal : Signal}
    (raised : p.call world e args s = (.error signal, t)) :
    Refuses world e args s (.native p) (signal.failure p.label) t := by
  cases p with
  | primitive p =>
    obtain ⟨called, rfl⟩ : p.call args = .error signal ∧ s = t := Prod.mk.inj raised
    cases p.raisesOwn_call args signal called with
    | wrongKind fault => exact .primitiveKind called
    | wrongCount fault => exact .primitiveCount called
    | arithmetic fault =>
      rw [Signal.failure_of_fault fault.isFault_kind]
      exact .fault raised fault.isFault_kind
    | digitLimit => exact .fault raised rfl
  | host id label =>
    rcases called : world.host id e args s with ⟨error | v, u⟩
    · have whole := raised
      rw [Native.call, called] at whole
      obtain ⟨same, rfl⟩ := Prod.mk.inj whole
      obtain rfl := Except.error.inj same
      cases kind : error.kind.isFault with
      | true =>
        rw [Signal.failure_of_fault kind]
        exact .fault raised kind
      | false =>
        rw [Signal.failure_of_foreign kind]
        exact .foreign called kind
    · rw [Native.call, called] at raised
      cases raised

theorem refuses_notProcedure {v : Value} {args : List Value} (h : ¬ v.IsProcedure)
    (failed : (apply world eval v args e).run s = (.error f, t)) : Refuses world e args s v f t := by
  rw [run_apply_notProcedure args h] at failed
  cases printed : v.print? true with
  | none =>
    rw [printed] at failed
    cases failed
    exact .unprinted h printed
  | some got =>
    rw [printed] at failed
    cases failed
    exact .notProcedure h printed

theorem passes_apply {procedure : Value} {args : List Value}
    (refused : ∀ f t, Refuses world e args s procedure f t → own f t) :
    Passes (fun eval => apply world eval procedure args e) eval s own := by
  cases procedure with
  | closure id formals body d =>
    refine Passes.bind (k := fun scope eval => eval body scope) (passes_const fun f t failed => ?_) fun scope u _ =>
      passes_eval body scope
    rw [Eval.run_bindParameters] at failed
    split at failed
    · next wrong =>
      rw [Bool.and_eq_true, decide_eq_true_eq] at wrong
      cases failed
      exact refused _ _ (.wrongCount wrong.2 wrong.1)
    · cases failed
  | native p =>
    refine passes_const fun f t failed => refused f t ?_
    have run := (run_apply_native world eval p args e s).symm.trans failed
    rcases raised : p.call world e args s with ⟨signal | v, u⟩
    · rw [raised] at run
      cases run
      exact refuses_of_signal raised
    · rw [raised] at run
      cases run
  | number | bool | text | symbol | list | unspecified =>
    exact passes_const fun f t (failed : (apply world eval _ args e).run s = (.error f, t)) =>
      refused f t (refuses_notProcedure id failed)

theorem passes_misfit {k : Keyword} {operands : List Value} (misfit : ¬ k.Fits operands)
    (raised : ∀ f t, Raises world eval e s (.list (.named k.name :: operands)) f t → own f t) :
    Passes (fun eval => SpecialForm.run eval e operands k) eval s own := by
  obtain ⟨reject, rejects, run⟩ := run_misfit e misfit
  rw [funext run]
  refine (passes_evaluateAll e (k.premature operands)).bind fun vs t early => passes_const fun f u failed => ?_
  have whole : (SpecialForm.run eval e operands k).run s = (.error f, u) := by
    rw [run, run_bind, early]
    exact failed
  cases rejects with
  | plain fault =>
    cases failed
    exact raised _ _ (.malformed misfit early whole)
  | @showing fault x part mem within =>
    unfold Eval.malformedAt at failed
    cases described : part.describe? with
    | none =>
      rw [described] at failed
      cases failed
      exact raised _ _ (.undescribed misfit early mem within described whole)
    | some got =>
      rw [described] at failed
      cases failed
      exact raised _ _ (.malformed misfit early whole)

theorem raises_quote {x : Value} (failed : (SpecialForm.quote [x]).run s = (.error f, t)) :
    Raises world eval e s (.list [.named Keyword.quote.name, x]) f t := by
  have leaf (other : ∀ items, x ≠ .list items)
      (failed : (do pure (.text (← Eval.written (x.print? false))) : Eval Value).run s = (.error f, t)) :
      Raises world eval e s (.list [.named Keyword.quote.name, x]) f t := by
    cases printed : x.print? false with
    | none =>
      rw [printed] at failed
      cases failed
      exact .unquoted other printed
    | some text =>
      rw [printed] at failed
      cases failed
  cases x with
  | list items => cases failed
  | number | bool | text | symbol | unspecified | closure | native => exact leaf nofun failed

theorem passes_fits {k : Keyword} {operands : List Value} (fits : k.Fits operands)
    (raised : ∀ f t, Raises world eval e s (.list (.named k.name :: operands)) f t → own f t) :
    Passes (fun eval => SpecialForm.run eval e operands k) eval s own := by
  cases fits with
  | quote x => exact passes_const fun f t failed => raised f t (raises_quote failed)
  | conditional test consequent alternative =>
    refine (passes_eval test e).bind fun v t _ => ?_
    exact passes_ite v.isFalse (passes_eval alternative e) (passes_eval consequent e)
  | cond clause last => exact passes_cond e (.cond clause last)
  | assign n x => exact passes_assign fun v t first free => raised _ _ (.unassigned first free)
  | define n x => exact passes_define e n x
  | lambda x xs symbols => exact passes_lambda e x xs symbols
  | begin => exact passes_evaluateBody e _ _
  | letIn body bindings => exact passes_letIn e bindings body
  | and => exact passes_and e _ _
  | or => exact passes_or e _

theorem passes_evaluateStep (world : World) (eval : Evaluator) (x : Value) (e : ScopeId) (s : Store) :
    Passes (fun eval => evaluateStep world eval x e) eval s (Raises world eval e s x) := by
  cases x with
  | symbol n =>
    refine passes_const fun f t failed => ?_
    have run := (Eval.run_lookup n e s).symm.trans failed
    cases found : s.lookup? e n with
    | some v =>
      rw [found] at run
      cases run
    | none =>
      rw [found] at run
      cases run
      exact .unbound found
  | list items =>
    cases items with
    | nil => exact passes_pure _
    | cons head operands =>
      cases keyword : keyword? head with
      | some k =>
        have run : (fun eval => evaluateStep world eval (.list (head :: operands)) e) =
            fun eval => SpecialForm.run eval e operands k := by
          funext eval
          rw [keyword?_eq_some keyword, evaluateStep_keyword]
        rw [run, keyword?_eq_some keyword]
        by_cases fits : k.Fits operands
        · exact passes_fits fits fun _ _ => id
        · exact passes_misfit fits fun _ _ => id
      | none =>
        have run : (fun eval => evaluateStep world eval (.list (head :: operands)) e) = fun eval =>
            eval head e >>= fun p => evaluateAll eval e operands >>= fun args => apply world eval p args e := by
          funext eval
          rw [evaluateStep, keyword]
        rw [run]
        refine (passes_eval head e).bind fun p t first => (passes_evaluateAll e operands).bind fun args u rest => ?_
        exact passes_apply fun f v refuses => .refused keyword first rest refuses
  | number | bool | text | unspecified | closure | native => exact passes_pure _

/-- The evaluation of the first site evaluates the second, with `eval` for all evaluations inside it. -/
def Begins (world : World) (eval : Evaluator) (p q : Site) : Prop :=
  Evaluates (fun eval => evaluateStep world eval p.form p.scope) eval p.store q

/-- An evaluation of the first site to that depth comes to an evaluation of the other to the other depth. -/
inductive Runs (world : World) : Nat → Site → Nat → Site → Prop where
  | self {n : Nat} {p : Site} : Runs world n p n p
  | inside {n m : Nat} {p q r : Site} : Begins world (evaluate world n) p q → Runs world n q m r →
    Runs world (n + 1) p m r

/-- An evaluation of a site to that depth may not even begin, or raises a failure itself. -/
inductive Ends (world : World) : Nat → Site → Failure → Store → Prop where
  | tooDeep {q : Site} : Ends world 0 q .tooDeep q.store
  | raised {n : Nat} {q : Site} {f : Failure} {t : Store} :
    Raises world (evaluate world n) q.scope q.store q.form f t → Ends world (n + 1) q f t

/-- Every site is evaluated in the course of an evaluation, or it makes no difference to it how its evaluation ends. -/
theorem begins_or_ignores (world : World) (eval : Evaluator) (p q : Site) :
    Begins world eval p q ∨ Ignores (fun eval => evaluateStep world eval p.form p.scope) eval p.store q :=
  (passes_evaluateStep world eval p.form p.scope p.store).either q

theorem Ends.run {n : Nat} {q : Site} (h : Ends world n q f t) : q.run (evaluate world n) = (.error f, t) := by
  cases h with
  | tooDeep => rfl
  | raised raises => exact raises.run

theorem Runs.run {n m : Nat} {p q : Site} (h : Runs world n p m q) (failed : q.run (evaluate world m) = (.error f, t)) :
    p.run (evaluate world n) = (.error f, t) := by
  induction h with
  | self => exact failed
  | inside begins _ ih => exact begins.run (ih failed)

theorem exists_ends {n : Nat} {p : Site} (failed : p.run (evaluate world n) = (.error f, t)) :
    ∃ m q, Runs world n p m q ∧ Ends world m q f t := by
  induction n generalizing p with
  | zero =>
    cases failed
    exact ⟨0, p, .self, .tooDeep⟩
  | succ n ih =>
    have step := passes_evaluateStep world (evaluate world n) p.form p.scope p.store
    rcases step.source f t failed with raises | ⟨q, begins, failed⟩
    · exact ⟨n + 1, p, .self, .raised raises⟩
    · obtain ⟨m, r, runs, ends⟩ := ih failed
      exact ⟨m, r, .inside begins runs, ends⟩

/-- An evaluation ends with a failure, and leaves a store, exactly if one of the evaluations in its course gets too deep
or raises this failure, and leaves this store. -/
theorem evaluate_failure (world : World) (depth : Nat) (x : Value) (e : ScopeId) (s : Store) (f : Failure) (t : Store) :
    (evaluate world depth x e).run s = (.error f, t) ↔ ∃ m q, Runs world depth ⟨x, e, s⟩ m q ∧ Ends world m q f t :=
  ⟨fun failed => exists_ends (p := ⟨x, e, s⟩) failed, fun ⟨_, _, runs, ends⟩ => runs.run ends.run⟩

theorem evaluate_failure_of_fault :
    let world : World := ⟨true, fun _ => .raising ⟨.key, "gone"⟩⟩
    let call : Value := .list [.named "boom", .named "k"]
    let use : Value := .list [.list [.named "lambda", .list [.named "k"], call], .named "m"]
    let x : Value := .list [.named "let", .list [.list [.named "m", .int 1]], use]
    let s : Store := ⟨#[⟨[(⟨"boom"⟩, .native (.host 0 "boom"))], none⟩], 0⟩
    let t : Store := ⟨#[s.frame 0, ⟨[(⟨"m"⟩, .int 1)], some 0⟩, ⟨[(⟨"k"⟩, .int 1)], some 1⟩], 1⟩
    Runs world 6 ⟨x, 0, s⟩ 4 ⟨call, 2, t⟩ ∧ Ends world 4 ⟨call, 2, t⟩ (.hostFault "boom" "gone") t ∧
      (evaluate world 6 x 0).run s = (.error (.hostFault "boom" "gone"), t) := by
  intro world call use x s t
  let u : Store := s.addFrame ⟨[(⟨"m"⟩, .int 1)], some 0⟩
  have outer : Begins world (evaluate world 5) ⟨x, 0, s⟩ ⟨use, 1, u⟩ := fun _ _ => rfl
  have inner : Begins world (evaluate world 4) ⟨use, 1, u⟩ ⟨call, 2, t⟩ := fun _ _ => rfl
  have raised : Refuses world 2 [.int 1] t (.native (.host 0 "boom")) (.hostFault "boom" "gone") t :=
    .fault (rfl : (Native.host 0 "boom").call world 2 [.int 1] t = (.error (.host ⟨.key, "gone"⟩), t)) rfl
  have runs : Runs world 6 ⟨x, 0, s⟩ 4 ⟨call, 2, t⟩ := .inside outer (.inside inner .self)
  have ends : Ends world 4 ⟨call, 2, t⟩ (.hostFault "boom" "gone") t := .raised (.refused rfl rfl rfl raised)
  exact ⟨runs, ends, (evaluate_failure world 6 x 0 s _ t).2 ⟨4, _, runs, ends⟩⟩

end MicroScheme
