import MicroScheme.Proofs.Evaluation.Run
import MicroScheme.Proofs.Store.Frame

set_option autoImplicit false

/-!
Charters: properties of the store, of the scopes in which code runs, of code, of values and of failures that evaluation
keeps together, with a record that may know more than the store does. The laws of a charter speak of single operations
only. What is evaluated has one property and what is evaluated inside it another, so that a charter can also speak of
how deep evaluations nest. Main statements: one evaluation keeps a charter whose laws hold, if the evaluations inside it
do (`Charter.Kept.evaluateStep`), and so does evaluation to any depth where the two properties are one
(`Charter.Kept.evaluate`).
-/

namespace MicroScheme

/-- A failure that neither comes from the depth of evaluations nor is passed on from a host procedure. -/
def Failure.IsOwn : Failure → Prop
  | .foreign _ _ => False
  | .tooDeep => False
  | _ => True

/-- A record `w` follows a store, which is `view w`. The form is what is evaluated, and code is evaluated inside it. -/
structure Charter (ω : Type) where
  view : ω → Store
  later : ω → ω → Prop
  store : ω → Prop
  scope : ω → ScopeId → Prop
  form : ω → Value → Prop
  code : ω → Value → Prop
  value : ω → Value → Prop
  failure : Failure → Prop

namespace Charter

variable {ω : Type} {C : Charter ω} {world : World} {eval : Evaluator} {w : ω} {e : ScopeId}

structure Lasts (C : Charter ω) : Prop where
  refl : ∀ {w}, C.store w → C.later w w
  trans : ∀ {a b c}, C.later a b → C.later b c → C.later a c
  store : ∀ {w w'}, C.later w w' → C.store w'
  scope : ∀ {w w' e}, C.later w w' → C.scope w e → C.scope w' e
  form : ∀ {w w' x}, C.later w w' → C.form w x → C.form w' x
  code : ∀ {w w' x}, C.later w w' → C.code w x → C.code w' x
  value : ∀ {w w' v}, C.later w w' → C.value w v → C.value w' v

def Moves (C : Charter ω) (w : ω) (s : Store) (post : ω → Prop) : Prop := ∃ w', C.view w' = s ∧ C.later w w' ∧ post w'

/-- The scope around a new frame is one in which code runs, or one that a closure has captured. -/
def Encloses (C : Charter ω) (w : ω) (d : ScopeId) : Prop :=
  C.scope w d ∨ ∃ id formals body, C.value w (.closure id formals body d)

def KeptBy (C : Charter ω) (world : World) (p : Native) (w : ω) (e : ScopeId) (args : List Value) : Prop :=
  C.Moves w (p.call world e args (C.view w)).2 fun w' =>
    (∀ v, (p.call world e args (C.view w)).1 = .ok v → C.value w' v) ∧
      ∀ signal, (p.call world e args (C.view w)).1 = .error signal → C.failure (signal.failure p.label)

/-- What single operations have to keep. The forms that write to the store may rely on being the form evaluated. -/
structure Kept (C : Charter ω) (world : World) : Prop extends Lasts C where
  forms : ∀ {w x}, C.code w x → C.form w x
  item : ∀ {w xs x}, C.form w (.list xs) → x ∈ xs → C.code w x
  literal : ∀ {w x}, C.form w x → C.value w x
  bool : ∀ {w} b, C.value w (.bool b)
  text : ∀ {w} t, C.value w (.text t)
  unspecified : ∀ {w}, C.value w .unspecified
  lookup : ∀ {w e n v}, C.store w → C.scope w e → (C.view w).lookup? e n = some v → C.value w v
  define : ∀ {w e n v xs}, C.store w → C.scope w e →
    C.form w (.list (.named Keyword.define.name :: xs)) → C.value w v →
    C.Moves w ((C.view w).define e n v) fun _ => True
  assign : ∀ {w e d n v xs}, C.store w → C.scope w e →
    C.form w (.list (.named Keyword.assign.name :: xs)) → C.value w v →
    (C.view w).owner? e n = some d → C.Moves w ((C.view w).define d n v) fun _ => True
  closure : ∀ {w e params x xs formals}, C.store w → C.scope w e →
    C.form w (.list (.named Keyword.lambda.name :: params :: x :: xs)) →
    SpecialForm.formals? params = some formals →
    C.Moves w { C.view w with closures := (C.view w).closures + 1 } fun w' =>
      C.value w' (.closure (C.view w).closures formals (SpecialForm.sequence (x :: xs)) e)
  body : ∀ {w id formals body d}, C.value w (.closure id formals body d) → C.code w body
  enter : ∀ {w d bound}, C.store w → C.Encloses w d → (Bindings.names bound).Nodup →
    (∀ pair ∈ bound, C.value w pair.2) →
    C.Moves w ((C.view w).addFrame ⟨bound, some d⟩) fun w' => C.scope w' (C.view w).nextScope
  native : ∀ {w e args} p, C.store w → C.scope w e → (∀ v ∈ args, C.value w v) → C.KeptBy world p w e args
  own : ∀ f, f.IsOwn → C.failure f

theorem Kept.part (laws : C.Kept world) {xs : List Value} {x : Value} (hx : C.code w (.list xs)) (mem : x ∈ xs) :
    C.code w x :=
  laws.item (laws.forms hx) mem

theorem Lasts.keptBy (lasts : C.Lasts) (hosts : ∀ id, (world.host id).KeepsStore) {p : Native} {args : List Value}
    (hs : C.store w) (value : ∀ v, (p.call world e args (C.view w)).1 = .ok v → C.value w v)
    (fails : ∀ signal, (p.call world e args (C.view w)).1 = .error signal → C.failure (signal.failure p.label)) :
    C.KeptBy world p w e args :=
  ⟨w, (p.call_keeps hosts e args _).symm, lasts.refl hs, value, fails⟩

abbrev Attains {α : Type} (C : Charter ω) (m : Eval α) (w : ω) (post : ω → α → Prop) : Prop :=
  MicroScheme.Attains C.view C.later C.failure m w post

def Keeps (C : Charter ω) (eval : Evaluator) : Prop :=
  ∀ {w e x}, C.store w → C.scope w e → C.code w x → C.Attains (eval x e) w C.value

section

variable {α : Type} {post : ω → α → Prop}

theorem Kept.attains_throw (laws : C.Kept world) (hs : C.store w) {f : Failure} (own : f.IsOwn) :
    C.Attains (throw f : Eval α) w post :=
  MicroScheme.attains_throw (laws.refl hs) (laws.own f own)

theorem Kept.attains_written (laws : C.Kept world) (hs : C.store w) (text : Option String) {k : String → Eval α}
    (rest : ∀ t, C.Attains (k t) w post) : C.Attains (Eval.written text >>= k) w post :=
  Eval.attains_written (laws.refl hs) (laws.own _ trivial) text rest

theorem Kept.attains_malformedAt (laws : C.Kept world) (hs : C.store w) (fault : String → FormFault) (part : Value) :
    C.Attains (Eval.malformedAt fault part : Eval α) w post :=
  Eval.attains_malformedAt (laws.refl hs) (laws.own _ trivial) (fun _ => laws.own _ trivial) part

end

theorem Kept.evaluateAll (laws : C.Kept world) (keeps : C.Keeps eval) (xs : List Value) (hs : C.store w)
    (he : C.scope w e) (hx : ∀ x ∈ xs, C.code w x) :
    C.Attains (evaluateAll eval e xs) w fun w' vs => ∀ v ∈ vs, C.value w' v := by
  induction xs generalizing w with
  | nil => exact attains_pure (laws.refl hs) (by simp)
  | cons x xs ih =>
    obtain ⟨hx, hxs⟩ := List.forall_mem_cons.1 hx
    rw [MicroScheme.evaluateAll]
    refine attains_bind laws.trans (keeps hs he hx) fun v w' later hv => ?_
    have hs' := laws.store later
    refine attains_bind laws.trans (ih hs' (laws.scope later he) fun y hy => laws.code later (hxs y hy))
      fun vs w'' later' hvs => ?_
    exact attains_pure (laws.refl (laws.store later')) (List.forall_mem_cons.2 ⟨laws.value later' hv, hvs⟩)

theorem Kept.evaluateBody (laws : C.Kept world) (keeps : C.Keeps eval) (xs : List Value) {last : Value}
    (hs : C.store w) (he : C.scope w e) (hlast : C.value w last) (hx : ∀ x ∈ xs, C.code w x) :
    C.Attains (evaluateBody eval e last xs) w C.value := by
  induction xs generalizing w last with
  | nil => exact attains_pure (laws.refl hs) hlast
  | cons x xs ih =>
    obtain ⟨hx, hxs⟩ := List.forall_mem_cons.1 hx
    rw [MicroScheme.evaluateBody]
    refine attains_bind laws.trans (keeps hs he hx) fun v w' later hv => ?_
    exact ih (laws.store later) (laws.scope later he) hv fun y hy => laws.code later (hxs y hy)

theorem Kept.quote (laws : C.Kept world) (xs : List Value) (hs : C.store w) (hx : ∀ x ∈ xs, C.code w x) :
    C.Attains (SpecialForm.quote xs) w C.value := by
  unfold SpecialForm.quote
  split
  · exact attains_pure (laws.refl hs) (laws.literal (laws.forms (hx _ List.mem_cons_self)))
  · exact laws.attains_written hs _ fun t => attains_pure (laws.refl hs) (laws.text t)
  · exact laws.attains_throw hs trivial

theorem Kept.conditional (laws : C.Kept world) (keeps : C.Keeps eval) (xs : List Value) (hs : C.store w)
    (he : C.scope w e) (hx : ∀ x ∈ xs, C.code w x) : C.Attains (SpecialForm.conditional eval e xs) w C.value := by
  unfold SpecialForm.conditional
  split
  · refine attains_bind laws.trans (keeps hs he (hx _ (by simp))) fun v w' later _ => ?_
    split
    · exact keeps (laws.store later) (laws.scope later he) (laws.code later (hx _ (by simp)))
    · exact keeps (laws.store later) (laws.scope later he) (laws.code later (hx _ (by simp)))
  · exact laws.attains_throw hs trivial

theorem clause_ofValue? {v : Value} {c : SpecialForm.Clause} (h : SpecialForm.Clause.ofValue? v = some c) :
    v = .list (c.test :: c.body) := by
  unfold SpecialForm.Clause.ofValue? at h
  split at h
  · rw [← Option.some.inj h]
  · cases h

def ClauseCode (C : Charter ω) (w : ω) (c : SpecialForm.Clause) : Prop :=
  C.code w c.test ∧ ∀ x ∈ c.body, C.code w x

theorem Lasts.clause (lasts : C.Lasts) {w' : ω} {c : SpecialForm.Clause} (later : C.later w w')
    (h : C.ClauseCode w c) : C.ClauseCode w' c :=
  ⟨lasts.code later h.1, fun x hx => lasts.code later (h.2 x hx)⟩

theorem Kept.clauses (laws : C.Kept world) (xs : List Value) (hs : C.store w) (hx : ∀ x ∈ xs, C.code w x) :
    C.Attains (SpecialForm.clauses xs) w fun w' cs => ∀ c ∈ cs, C.ClauseCode w' c := by
  induction xs with
  | nil => exact attains_pure (laws.refl hs) (by simp)
  | cons x xs ih =>
    obtain ⟨hx, hxs⟩ := List.forall_mem_cons.1 hx
    rw [SpecialForm.clauses]
    split
    · exact laws.attains_malformedAt hs _ _
    · next c hc =>
      split
      · exact laws.attains_throw hs trivial
      · rw [clause_ofValue? hc] at hx
        have parts : C.ClauseCode w c :=
          ⟨laws.part hx List.mem_cons_self, fun y hy => laws.part hx (List.mem_cons_of_mem _ hy)⟩
        refine attains_bind laws.trans (ih hxs) fun cs w' later hcs => ?_
        exact attains_pure (laws.refl (laws.store later)) (List.forall_mem_cons.2 ⟨laws.clause later parts, hcs⟩)

theorem Kept.firstClause (laws : C.Kept world) (keeps : C.Keeps eval) (cs : List SpecialForm.Clause)
    (hs : C.store w) (he : C.scope w e) (hc : ∀ c ∈ cs, C.ClauseCode w c) :
    C.Attains (SpecialForm.firstClause eval e cs) w C.value := by
  induction cs generalizing w with
  | nil => exact attains_pure (laws.refl hs) laws.unspecified
  | cons c cs ih =>
    obtain ⟨hc, hcs⟩ := List.forall_mem_cons.1 hc
    rw [SpecialForm.firstClause]
    split
    · exact laws.evaluateBody keeps _ hs he laws.unspecified hc.2
    · refine attains_bind laws.trans (keeps hs he hc.1) fun v w' later _ => ?_
      have hs' := laws.store later
      have he' := laws.scope later he
      split
      · exact ih hs' he' fun d hd => laws.clause later (hcs d hd)
      · exact laws.evaluateBody keeps _ hs' he' laws.unspecified (laws.clause later hc).2

theorem Kept.cond (laws : C.Kept world) (keeps : C.Keeps eval) (xs : List Value) (hs : C.store w)
    (he : C.scope w e) (hx : ∀ x ∈ xs, C.code w x) : C.Attains (SpecialForm.cond eval e xs) w C.value :=
  attains_bind laws.trans (laws.clauses xs hs hx) fun cs _ later hcs =>
    laws.firstClause keeps cs (laws.store later) (laws.scope later he) hcs

theorem Kept.assignForm (laws : C.Kept world) (keeps : C.Keeps eval) (xs : List Value) (hs : C.store w)
    (he : C.scope w e) (hx : C.form w (.list (.named Keyword.assign.name :: xs))) :
    C.Attains (SpecialForm.assign eval e xs) w C.value := by
  unfold SpecialForm.assign
  split
  · next n x =>
    refine attains_bind laws.trans (keeps hs he (laws.item hx (by simp))) fun v w' later hv => ?_
    have hs' := laws.store later
    refine attains_bind laws.trans (Eval.attains_assign (laws.refl hs') (laws.own _ trivial) fun d owner => ?_)
      fun _ w'' later' _ => attains_pure (laws.refl (laws.store later')) laws.unspecified
    obtain ⟨w'', same, later', _⟩ := laws.assign hs' (laws.scope later he) (laws.form later hx) hv owner
    exact ⟨w'', same, later'⟩
  · exact laws.attains_malformedAt hs _ _
  · exact laws.attains_throw hs trivial

theorem Kept.defineForm (laws : C.Kept world) (keeps : C.Keeps eval) (xs : List Value) (hs : C.store w)
    (he : C.scope w e) (hx : C.form w (.list (.named Keyword.define.name :: xs))) :
    C.Attains (SpecialForm.define eval e xs) w C.value := by
  unfold SpecialForm.define
  split
  · refine attains_bind laws.trans (keeps hs he (laws.item hx (by simp))) fun v w' later hv => ?_
    have hs' := laws.store later
    split
    · next n =>
      obtain ⟨w'', same, later', _⟩ := laws.define (n := n) hs' (laws.scope later he) (laws.form later hx) hv
      exact attains_of_ok (congrArg (Prod.mk _) same.symm) later' laws.unspecified
    · exact laws.attains_malformedAt hs' _ _
  · exact laws.attains_throw hs trivial

theorem Kept.lambdaForm (laws : C.Kept world) (xs : List Value) (hs : C.store w) (he : C.scope w e)
    (hx : C.form w (.list (.named Keyword.lambda.name :: xs))) :
    C.Attains (SpecialForm.lambda e xs) w C.value := by
  unfold SpecialForm.lambda
  split
  · split
    · next formals hformals =>
      obtain ⟨w', same, later, hv⟩ := laws.closure hs he hx hformals
      exact attains_of_ok (congrArg (Prod.mk _) same.symm) later hv
    · exact laws.attains_malformedAt hs _ _
  · exact laws.attains_throw hs trivial

def Bound (C : Charter ω) (w : ω) (b : Bindings) : Prop :=
  b.names.Nodup ∧ ∀ pair ∈ b, C.value w pair.2

theorem Bound.put {b : Bindings} {n : Symbol} {v : Value} (h : C.Bound w b) (hv : C.value w v) :
    C.Bound w (b.put n v) := by
  refine ⟨Bindings.nodup_put v h.1, fun pair hp => ?_⟩
  rcases Bindings.mem_put hp with rfl | hp
  · exact hv
  · exact h.2 pair hp

theorem Lasts.bound (lasts : C.Lasts) {w' : ω} {b : Bindings} (later : C.later w w') (h : C.Bound w b) :
    C.Bound w' b :=
  ⟨h.1, fun pair hp => lasts.value later (h.2 pair hp)⟩

theorem Kept.newScope (laws : C.Kept world) {bound : Bindings} {d : ScopeId} (hs : C.store w) (hd : C.Encloses w d)
    (hb : C.Bound w bound) : C.Attains (Eval.newScope ⟨bound, some d⟩) w C.scope := by
  obtain ⟨w', same, later, scope⟩ := laws.enter hs hd hb.1 hb.2
  exact attains_of_ok (congrArg (Prod.mk _) same.symm) later scope

theorem Kept.letBindings (laws : C.Kept world) (keeps : C.Keeps eval) (xs : List Value) {bound : Bindings}
    (hs : C.store w) (he : C.scope w e) (hb : C.Bound w bound) (hx : ∀ x ∈ xs, C.code w x) :
    C.Attains (SpecialForm.letBindings eval e bound xs) w C.Bound := by
  -- What is bound so far has to be carried along, since each further expression leads to a later record.
  induction xs generalizing w bound with
  | nil => exact attains_pure (laws.refl hs) hb
  | cons x xs ih =>
    obtain ⟨hx, hxs⟩ := List.forall_mem_cons.1 hx
    unfold SpecialForm.letBindings
    split
    · next heq => cases heq
    · next heq =>
      obtain ⟨rfl, rfl⟩ := List.cons.inj heq
      refine attains_bind laws.trans (keeps hs he (laws.part hx (by simp))) fun v w' later hv => ?_
      exact ih (laws.store later) (laws.scope later he) ((laws.bound later hb).put hv) fun y hy =>
        laws.code later (hxs y hy)
    · exact laws.attains_malformedAt hs _ _

theorem Kept.letForm (laws : C.Kept world) (keeps : C.Keeps eval) (xs : List Value) (hs : C.store w)
    (he : C.scope w e) (hx : ∀ x ∈ xs, C.code w x) : C.Attains (SpecialForm.letIn eval e xs) w C.value := by
  unfold SpecialForm.letIn
  split
  · next bindings body =>
    obtain ⟨hbindings, hbody⟩ := List.forall_mem_cons.1 hx
    have empty : C.Bound w [] := ⟨List.nodup_nil, by simp⟩
    refine attains_bind laws.trans (laws.letBindings keeps bindings hs he empty fun y hy =>
      laws.part hbindings hy) fun bound w' later hb => ?_
    refine attains_bind laws.trans (laws.newScope (laws.store later) (.inl (laws.scope later he)) hb)
      fun d w'' later' hd => ?_
    exact laws.evaluateBody keeps _ (laws.store later') hd laws.unspecified fun y hy =>
      laws.code (laws.trans later later') (hbody y hy)
  · exact laws.attains_throw hs trivial

theorem Kept.andForm (laws : C.Kept world) (keeps : C.Keeps eval) (xs : List Value) {last : Value}
    (hs : C.store w) (he : C.scope w e) (hlast : C.value w last) (hx : ∀ x ∈ xs, C.code w x) :
    C.Attains (SpecialForm.and eval e last xs) w C.value := by
  induction xs generalizing w last with
  | nil => exact attains_pure (laws.refl hs) hlast
  | cons x xs ih =>
    obtain ⟨hx, hxs⟩ := List.forall_mem_cons.1 hx
    rw [SpecialForm.and]
    refine attains_bind laws.trans (keeps hs he hx) fun v w' later hv => ?_
    split
    · exact attains_pure (laws.refl (laws.store later)) (laws.bool false)
    · exact ih (laws.store later) (laws.scope later he) hv fun y hy => laws.code later (hxs y hy)

theorem Kept.orForm (laws : C.Kept world) (keeps : C.Keeps eval) (xs : List Value) (hs : C.store w)
    (he : C.scope w e) (hx : ∀ x ∈ xs, C.code w x) : C.Attains (SpecialForm.or eval e xs) w C.value := by
  induction xs generalizing w with
  | nil => exact attains_pure (laws.refl hs) (laws.bool false)
  | cons x xs ih =>
    obtain ⟨hx, hxs⟩ := List.forall_mem_cons.1 hx
    rw [SpecialForm.or]
    refine attains_bind laws.trans (keeps hs he hx) fun v w' later hv => ?_
    split
    · exact ih (laws.store later) (laws.scope later he) fun y hy => laws.code later (hxs y hy)
    · exact attains_pure (laws.refl (laws.store later)) hv

theorem Kept.run (laws : C.Kept world) (keeps : C.Keeps eval) (k : Keyword) (xs : List Value) (hs : C.store w)
    (he : C.scope w e) (hx : C.form w (.list (.named k.name :: xs))) :
    C.Attains (SpecialForm.run eval e xs k) w C.value := by
  have operands : ∀ x ∈ xs, C.code w x := fun x mem => laws.item hx (List.mem_cons_of_mem _ mem)
  cases k with
  | quote => exact laws.quote xs hs operands
  | conditional => exact laws.conditional keeps xs hs he operands
  | cond => exact laws.cond keeps xs hs he operands
  | assign => exact laws.assignForm keeps xs hs he hx
  | define => exact laws.defineForm keeps xs hs he hx
  | lambda => exact laws.lambdaForm xs hs he hx
  | begin => exact laws.evaluateBody keeps xs hs he laws.unspecified operands
  | letIn => exact laws.letForm keeps xs hs he operands
  | and => exact laws.andForm keeps xs hs he (laws.bool true) operands
  | or => exact laws.orForm keeps xs hs he operands

theorem Kept.bindParameters (laws : C.Kept world) {id : Nat} {formals : List Symbol} {body : Value}
    {captured : ScopeId} {args : List Value} (hs : C.store w) (hp : C.value w (.closure id formals body captured))
    (ha : ∀ v ∈ args, C.value w v) : C.Attains (bindParameters world formals args captured) w C.scope := by
  have bound : C.Bound w (Bindings.putAll [] (parameters formals args)) := by
    refine ⟨Bindings.nodup_putAll (b := []) _ List.nodup_nil, fun pair mem => ?_⟩
    rcases Bindings.mem_putAll mem with mem | mem
    · rcases mem_parameters mem with mem | missing
      · exact ha _ mem
      · exact missing ▸ laws.unspecified
    · cases mem
  unfold MicroScheme.bindParameters
  split
  · exact laws.attains_throw hs trivial
  · exact laws.newScope hs (.inr ⟨id, formals, body, hp⟩) bound

theorem Kept.apply (laws : C.Kept world) (keeps : C.Keeps eval) {p : Value} {args : List Value}
    (hs : C.store w) (he : C.scope w e) (hp : C.value w p) (ha : ∀ v ∈ args, C.value w v) :
    C.Attains (apply world eval p args e) w C.value := by
  cases p with
  | closure id formals body captured =>
    rw [MicroScheme.apply]
    exact attains_bind laws.trans (laws.bindParameters hs hp ha) fun d w' later hd =>
      keeps (laws.store later) hd (laws.code later (laws.body hp))
  | native p =>
    obtain ⟨w', left, later, value, fails⟩ := laws.native p hs he ha
    have run := run_apply_native world eval p args e (C.view w)
    rw [← left] at run
    cases given : (p.call world e args (C.view w)).1 with
    | ok v =>
      rw [given] at run
      exact attains_of_ok run later (value v given)
    | error signal =>
      rw [given] at run
      exact attains_of_error run later (fails signal given)
  | number | bool | text | symbol | list | unspecified =>
    exact laws.attains_written hs _ fun t => laws.attains_throw hs trivial

theorem Kept.evaluateStep (laws : C.Kept world) (keeps : C.Keeps eval) {x : Value} (hs : C.store w)
    (he : C.scope w e) (hx : C.form w x) : C.Attains (evaluateStep world eval x e) w C.value := by
  cases x with
  | symbol n =>
    exact Eval.attains_lookup (laws.refl hs) (laws.own _ trivial) fun v hv => laws.lookup hs he hv
  | list items =>
    cases items with
    | nil => exact attains_pure (laws.refl hs) (laws.literal hx)
    | cons head operands =>
      rw [MicroScheme.evaluateStep]
      split
      · next k hk => exact laws.run keeps k operands hs he (keyword?_eq_some hk ▸ hx)
      · refine attains_bind laws.trans (keeps hs he (laws.item hx List.mem_cons_self)) fun p w' later hp => ?_
        refine attains_bind laws.trans (laws.evaluateAll keeps operands (laws.store later) (laws.scope later he)
          fun y hy => laws.code later (laws.item hx (List.mem_cons_of_mem _ hy))) fun args w'' later' ha => ?_
        exact laws.apply keeps (laws.store later') (laws.scope (laws.trans later later') he) (laws.value later' hp) ha
  | number _ | bool _ | text _ | unspecified | closure _ _ _ _ | native _ =>
    exact attains_pure (laws.refl hs) (laws.literal hx)

/-- A charter whose laws hold is kept by evaluation to any depth, if getting too deep is allowed for. -/
theorem Kept.evaluate (laws : C.Kept world) (deep : C.failure .tooDeep) (depth : Nat) : C.Keeps (evaluate world depth) := by
  induction depth with
  | zero => exact fun hs _ _ => MicroScheme.attains_throw (laws.refl hs) deep
  | succ depth ih => exact fun hs he hx => laws.evaluateStep ih hs he (laws.forms hx)

end Charter

end MicroScheme
