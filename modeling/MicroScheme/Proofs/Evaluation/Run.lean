import MicroScheme.Evaluation.Evaluate
import MicroScheme.Proofs.Value.Closure

set_option autoImplicit false

/-!
Computations on a state that may fail, and what holds of them whichever way they end. A computation keeps its
state on failure too, so a rule speaks of the state left in every case and of the result only in one.
-/

namespace MicroScheme

variable {ε σ α β : Type}

theorem run_bind (m : ExceptT ε (StateM σ) α) (k : α → ExceptT ε (StateM σ) β) (s : σ) :
    (m >>= k).run s =
      match m.run s with
      | (.ok a, t) => (k a).run t
      | (.error f, t) => (.error f, t) := by
  change (ExceptT.bindCont k (m.run s).1) (m.run s).2 = _
  rcases m.run s with ⟨_ | _, _⟩ <;> rfl

/-- The state moves by a step of the relation, however the computation ends; a result that it gives has the
property. -/
def Ensures (step : σ → σ → Prop) (m : ExceptT ε (StateM σ) α) (s : σ) (post : σ → α → Prop) : Prop :=
  step s (m.run s).2 ∧ ∀ a, (m.run s).1 = .ok a → post (m.run s).2 a

variable {step : σ → σ → Prop} {s : σ}

theorem ensures_of_ok {m : ExceptT ε (StateM σ) α} {post : σ → α → Prop} {a : α} {t : σ}
    (run : m.run s = (.ok a, t)) (moved : step s t) (holds : post t a) : Ensures step m s post := by
  unfold Ensures
  rw [run]
  exact ⟨moved, fun b same => Except.ok.inj same ▸ holds⟩

theorem ensures_of_error {m : ExceptT ε (StateM σ) α} {post : σ → α → Prop} {f : ε} {t : σ}
    (run : m.run s = (.error f, t)) (moved : step s t) : Ensures step m s post := by
  unfold Ensures
  rw [run]
  exact ⟨moved, fun _ same => nomatch same⟩

theorem ensures_pure {post : σ → α → Prop} {a : α} (stay : step s s) (holds : post s a) :
    Ensures step (pure a : ExceptT ε (StateM σ) α) s post :=
  ensures_of_ok rfl stay holds

theorem ensures_throw {post : σ → α → Prop} (f : ε) (stay : step s s) :
    Ensures step (throw f : ExceptT ε (StateM σ) α) s post :=
  ensures_of_error rfl stay

theorem ensures_bind {m : ExceptT ε (StateM σ) α} {k : α → ExceptT ε (StateM σ) β}
    {r : σ → α → Prop} {post : σ → β → Prop} (trans : ∀ {a b c : σ}, step a b → step b c → step a c)
    (first : Ensures step m s r)
    (rest : ∀ a t, step s t → r t a → Ensures step (k a) t post) :
    Ensures step (m >>= k) s post := by
  obtain ⟨moved, holds⟩ := first
  unfold Ensures
  rw [run_bind]
  rcases h : m.run s with ⟨f | a, t⟩
  · rw [h] at moved
    exact ⟨moved, fun _ same => nomatch same⟩
  · rw [h] at moved holds
    obtain ⟨moved', holds'⟩ := rest a t moved (holds a rfl)
    exact ⟨trans moved moved', holds'⟩

variable {ω : Type} {view : ω → σ} {moves : ω → ω → Prop} {failure : ε → Prop} {w : ω}

/-- The computation, begun in the state of the record, ends in the state of a record to which it moves on. A result that
it gives and a failure that it ends in have the properties. -/
def Attains (view : ω → σ) (moves : ω → ω → Prop) (failure : ε → Prop) (m : ExceptT ε (StateM σ) α) (w : ω)
    (post : ω → α → Prop) : Prop :=
  ∃ w', moves w w' ∧
    ((∃ a, m.run (view w) = (.ok a, view w') ∧ post w' a) ∨ ∃ f, m.run (view w) = (.error f, view w') ∧ failure f)

theorem attains_of_ok {m : ExceptT ε (StateM σ) α} {post : ω → α → Prop} {a : α} {w' : ω}
    (run : m.run (view w) = (.ok a, view w')) (moved : moves w w') (holds : post w' a) :
    Attains view moves failure m w post :=
  ⟨w', moved, .inl ⟨a, run, holds⟩⟩

theorem attains_of_error {m : ExceptT ε (StateM σ) α} {post : ω → α → Prop} {f : ε} {w' : ω}
    (run : m.run (view w) = (.error f, view w')) (moved : moves w w') (fails : failure f) :
    Attains view moves failure m w post :=
  ⟨w', moved, .inr ⟨f, run, fails⟩⟩

theorem attains_pure {post : ω → α → Prop} {a : α} (stay : moves w w) (holds : post w a) :
    Attains view moves failure (pure a : ExceptT ε (StateM σ) α) w post :=
  attains_of_ok rfl stay holds

theorem attains_throw {post : ω → α → Prop} {f : ε} (stay : moves w w) (fails : failure f) :
    Attains view moves failure (throw f : ExceptT ε (StateM σ) α) w post :=
  attains_of_error rfl stay fails

theorem attains_bind {m : ExceptT ε (StateM σ) α} {k : α → ExceptT ε (StateM σ) β}
    {r : ω → α → Prop} {post : ω → β → Prop} (trans : ∀ {a b c : ω}, moves a b → moves b c → moves a c)
    (first : Attains view moves failure m w r)
    (rest : ∀ a w', moves w w' → r w' a → Attains view moves failure (k a) w' post) :
    Attains view moves failure (m >>= k) w post := by
  obtain ⟨w', moved, ⟨a, run, holds⟩ | ⟨f, run, fails⟩⟩ := first
  · obtain ⟨w'', moved', ended⟩ := rest a w' moved holds
    refine ⟨w'', trans moved moved', ?_⟩
    rw [run_bind, run]
    exact ended
  · refine attains_of_error ?_ moved fails
    rw [run_bind, run]

theorem Attains.ends {m : ExceptT ε (StateM σ) α} {post : ω → α → Prop} (h : Attains view moves failure m w post) :
    ∃ w', moves w w' ∧ (m.run (view w)).2 = view w' ∧ (∀ a, (m.run (view w)).1 = .ok a → post w' a) ∧
      ∀ f, (m.run (view w)).1 = .error f → failure f := by
  obtain ⟨w', moved, ⟨a, run, holds⟩ | ⟨f, run, fails⟩⟩ := h
  · rw [run]
    refine ⟨w', moved, rfl, ?_, nofun⟩
    rintro _ ⟨⟩
    exact holds
  · rw [run]
    refine ⟨w', moved, rfl, nofun, ?_⟩
    rintro _ ⟨⟩
    exact fails

theorem Attains.ensures {m : ExceptT ε (StateM σ) α} {post : σ → α → Prop}
    (h : Attains id step failure m s post) : Ensures step m s post := by
  obtain ⟨t, moved, left, holds, _⟩ := h.ends
  unfold Ensures
  rw [show (m.run s).2 = t from left]
  exact ⟨moved, holds⟩

theorem Ensures.attains {m : ExceptT ε (StateM σ) α} {post : σ → α → Prop} (h : Ensures step m s post) :
    Attains id step (fun _ => True) m s post := by
  obtain ⟨moved, holds⟩ := h
  rcases run : m.run s with ⟨f | a, t⟩
  · rw [run] at moved
    exact attains_of_error run moved trivial
  · rw [run] at moved holds
    exact attains_of_ok run moved (holds a rfl)

namespace Eval

theorem run_lookup (n : Symbol) (e : ScopeId) (s : Store) :
    (lookup n e).run s =
      match s.lookup? e n with
      | some v => (.ok v, s)
      | none => (.error (.unbound n.name), s) := by
  unfold lookup
  rw [run_bind]
  change (match s.lookup? e n with | some v => pure v | none => throw (.unbound n.name) : Eval Value).run s = _
  cases s.lookup? e n <;> rfl

theorem run_assign (n : Symbol) (v : Value) (e : ScopeId) (s : Store) :
    (assign n v e).run s =
      match s.owner? e n with
      | some d => (.ok (), s.define d n v)
      | none => (.error (.unbound n.name), s) := by
  unfold assign
  rw [run_bind]
  change (match s.owner? e n with | some d => define n v d | none => throw (.unbound n.name) : Eval Unit).run s = _
  cases s.owner? e n <;> rfl

theorem run_bindParameters (world : World) (formals : List Symbol) (args : List Value) (captured : ScopeId)
    (s : Store) :
    (bindParameters world formals args captured).run s =
      if args.length ≠ formals.length && world.strictArity then
        (.error (.wrongCount (.closure formals args.length)), s)
      else (.ok s.nextScope, s.addFrame ⟨Bindings.putAll [] (parameters formals args), some captured⟩) := by
  unfold bindParameters
  split <;> rfl

variable {R : Store → Store → Prop} {s : Store}

theorem ensures_lookup {n : Symbol} {e : ScopeId} {post : Store → Value → Prop} (stay : R s s)
    (found : ∀ v, s.lookup? e n = some v → post s v) : Ensures R (lookup n e) s post := by
  have run := run_lookup n e s
  cases hv : s.lookup? e n with
  | some v =>
    rw [hv] at run
    exact ensures_of_ok run stay (found v hv)
  | none =>
    rw [hv] at run
    exact ensures_of_error run stay

theorem ensures_written {α : Type} {post : Store → α → Prop} {k : String → Eval α} (stay : R s s)
    (text : Option String) (rest : ∀ t, Ensures R (k t) s post) : Ensures R (written text >>= k) s post := by
  cases text with
  | some t => exact rest t
  | none => exact ensures_of_error (f := .digitLimit) rfl stay

section

variable {ω : Type} {view : ω → Store} {moves : ω → ω → Prop} {failure : Failure → Prop} {w : ω}

theorem attains_lookup {n : Symbol} {e : ScopeId} {post : ω → Value → Prop} (stay : moves w w)
    (unbound : failure (.unbound n.name)) (found : ∀ v, (view w).lookup? e n = some v → post w v) :
    Attains view moves failure (lookup n e) w post := by
  have run := run_lookup n e (view w)
  cases hv : (view w).lookup? e n with
  | some v =>
    rw [hv] at run
    exact attains_of_ok run stay (found v hv)
  | none =>
    rw [hv] at run
    exact attains_of_error run stay unbound

theorem attains_assign {n : Symbol} {v : Value} {e : ScopeId} (stay : moves w w) (unbound : failure (.unbound n.name))
    (owned : ∀ d, (view w).owner? e n = some d → ∃ w', view w' = (view w).define d n v ∧ moves w w') :
    Attains view moves failure (assign n v e) w fun _ _ => True := by
  have run := run_assign n v e (view w)
  cases hd : (view w).owner? e n with
  | some d =>
    obtain ⟨w', same, moved⟩ := owned d hd
    rw [hd] at run
    exact attains_of_ok (run.trans (congrArg (Prod.mk _) same.symm)) moved trivial
  | none =>
    rw [hd] at run
    exact attains_of_error run stay unbound

theorem attains_written {α : Type} {post : ω → α → Prop} {k : String → Eval α} (stay : moves w w)
    (digits : failure .digitLimit) (text : Option String) (rest : ∀ t, Attains view moves failure (k t) w post) :
    Attains view moves failure (written text >>= k) w post := by
  cases text with
  | some t => exact rest t
  | none => exact attains_of_error (f := .digitLimit) rfl stay digits

theorem attains_malformedAt {α : Type} {post : ω → α → Prop} (stay : moves w w) (digits : failure .digitLimit)
    {fault : String → FormFault} (malformed : ∀ got, failure (.malformed (fault got))) (part : Value) :
    Attains view moves failure (malformedAt fault part : Eval α) w post :=
  attains_written stay digits _ fun got => attains_throw stay (malformed got)

end

end Eval

theorem run_apply_native (world : World) (eval : Evaluator) (p : Native) (args : List Value) (e : ScopeId)
    (s : Store) :
    (apply world eval (.native p) args e).run s =
      ((p.call world e args s).1.mapError (Signal.failure p.label), (p.call world e args s).2) := rfl

theorem Native.call_ok {world : World} {p : Native} {e : ScopeId} {args : List Value} {s : Store} {v : Value}
    (h : (p.call world e args s).1 = .ok v) :
    (∃ q : Primitive, p = .primitive q ∧ q.call args = .ok v) ∨
      ∃ id label, p = .host id label ∧ (world.host id e args s).1 = .ok v := by
  cases p with
  | primitive q => exact .inl ⟨q, rfl, h⟩
  | host id label =>
    rw [Native.call] at h
    dsimp only at h
    cases run : (world.host id e args s).1 with
    | error error =>
      rw [run] at h
      cases h
    | ok w =>
      rw [run] at h
      cases h
      exact .inr ⟨id, label, rfl, run⟩

theorem Native.call_error {world : World} {p : Native} {e : ScopeId} {args : List Value} {s : Store} {signal : Signal}
    (h : (p.call world e args s).1 = .error signal) :
    (∃ q : Primitive, p = .primitive q ∧ q.call args = .error signal) ∨
      ∃ id label error, p = .host id label ∧ signal = .host error ∧ (world.host id e args s).1 = .error error := by
  cases p with
  | primitive q => exact .inl ⟨q, rfl, h⟩
  | host id label =>
    rw [Native.call] at h
    dsimp only at h
    cases run : (world.host id e args s).1 with
    | error error =>
      rw [run] at h
      exact .inr ⟨id, label, error, rfl, (Except.error.inj h).symm, run⟩
    | ok v =>
      rw [run] at h
      cases h

theorem Native.call_keeps {world : World} (hosts : ∀ id, (world.host id).KeepsStore) (p : Native) (e : ScopeId)
    (args : List Value) (s : Store) : (p.call world e args s).2 = s := by
  cases p with
  | primitive p => rfl
  | host id label => exact (hosts id).keeps e args s

theorem keyword?_named (k : Keyword) : keyword? (.named k.name) = some k := Keyword.ofSymbol?_name k

theorem keyword?_eq_some {x : Value} {k : Keyword} (h : keyword? x = some k) : x = .named k.name := by
  unfold keyword? at h
  split at h
  · next n =>
    have same := List.find?_some h
    rw [decide_eq_true_eq] at same
    rw [same]
  · cases h

theorem evaluateStep_keyword (world : World) (eval : Evaluator) (k : Keyword) (operands : List Value) (e : ScopeId) :
    evaluateStep world eval (.list (.named k.name :: operands)) e = SpecialForm.run eval e operands k := by
  rw [evaluateStep, keyword?_named]

end MicroScheme
