import MicroScheme.Proofs.Session.Action

set_option autoImplicit false

namespace MicroScheme

/-- The operands whose values may stay in the session. Those that stand for names do not. -/
def Step.operands : Step → List Operand
  | .evaluate x _ => [x]
  | .apply procedure args _ => procedure :: args
  | .define _ x _ => [x]
  | .assign _ x _ => [x]
  | .insert pairs _ => pairs.map Prod.snd
  | _ => []

namespace Session

variable {s : Session} {ω : Type} {C : Charter ω} {allowed : HostProcedure → Prop} {p : ω × Session}
  {depth : Nat}

namespace Lawful

theorem attains_evaluateStep (laws : Lawful C allowed) (hp : InOrder C allowed p) (scope : String) {x : Operand}
    (hx : Admitted C p.1 x) : Attains C allowed (action depth (.evaluate x scope)) p (AnswerAdmitted C) := by
  refine laws.attains_bind (laws.attains_scopeOf hp scope) fun e q first he => ?_
  refine laws.attains_bind (laws.attains_operand first.order e (laws.admitted first.later hx))
    fun code r second hcode => ?_
  refine laws.attains_bind (laws.attains_evaluate second.order (laws.lasts.scope second.later he) hcode _)
    fun v t third hv => ?_
  exact laws.attains_value third.order hv

theorem attains_applyStep (laws : Lawful C allowed) (hp : InOrder C allowed p) (scope : String)
    {procedure : Operand} {args : List Operand} (hprocedure : Admitted C p.1 procedure)
    (hargs : ∀ x ∈ args, Admitted C p.1 x) :
    Attains C allowed (action depth (.apply procedure args scope)) p (AnswerAdmitted C) := by
  refine laws.attains_bind (laws.attains_scopeOf hp scope) fun e q first he => ?_
  refine laws.attains_bind (laws.attains_operand first.order e (laws.admitted first.later hprocedure))
    fun f r second hf => ?_
  have later := laws.lasts.trans first.later second.later
  refine laws.attains_bind (laws.attains_operands second.order e fun x mem => laws.admitted later (hargs x mem))
    fun vs t third hvs => ?_
  have ht := third.order
  have he' := laws.lasts.scope (laws.lasts.trans second.later third.later) he
  refine laws.attains_bind (laws.attains_onStore ht ((laws.keptIn ht).apply (laws.keeps ht _) ht.store he'
    (laws.lasts.value third.later hf) hvs)) fun v u fourth hv => ?_
  exact laws.attains_value fourth.order hv

theorem attains_scopeStep (laws : Lawful C allowed) (hp : InOrder C allowed p) (name : String)
    (outer : Option String) : Attains C allowed (action depth (.scope name outer)) p (AnswerAdmitted C) := by
  cases outer with
  | none =>
    exact laws.attains_bind (laws.attains_addScope hp name (by simp)) fun _ q first _ => laws.attains_done first.order
  | some outer =>
    refine laws.attains_bind (laws.attains_scopeOf hp outer) fun e q first he => ?_
    refine laws.attains_bind (laws.attains_addScope first.order name fun o same => ?_) fun _ r second _ =>
      laws.attains_done second.order
    exact Option.some.inj same ▸ he

theorem attains_named (laws : Lawful C allowed) {α : Type} {k : ScopeId → Name → Action α} {post : ω → α → Prop}
    (hp : InOrder C allowed p) (scope : String) (name : NameOperand)
    (rest : ∀ e n q, Advances C allowed p q → Attains C allowed (k e n) q post) :
    Attains C allowed (Action.scopeOf scope >>= fun e => Action.onStore (fun _ => name.resolve e) >>= k e) p post := by
  refine laws.attains_bind (laws.attains_scopeOf hp scope) fun e q first _ => ?_
  exact laws.attains_bind (laws.attains_name first.order e name) fun n r second _ => rest e n r (laws.trans first second)

theorem attains_defineStep (laws : Lawful C allowed) (hp : InOrder C allowed p) (scope : String) (name : NameOperand)
    {x : Operand} (hx : Admitted C p.1 x) :
    Attains C allowed (action depth (.define name x scope)) p (AnswerAdmitted C) := by
  refine laws.attains_named hp scope name fun e n q first => ?_
  refine laws.attains_bind (laws.attains_operand first.order e (laws.admitted first.later hx)) fun v r second hv => ?_
  exact laws.attains_bind (laws.attains_defineName second.order e n n.symbol? hv) fun _ t third _ =>
    laws.attains_done third.order

theorem attains_assignStep (laws : Lawful C allowed) (hp : InOrder C allowed p) (scope : String) (name : NameOperand)
    {x : Operand} (hx : Admitted C p.1 x) :
    Attains C allowed (action depth (.assign name x scope)) p (AnswerAdmitted C) := by
  refine laws.attains_named hp scope name fun e n q first => ?_
  refine laws.attains_bind (laws.attains_operand first.order e (laws.admitted first.later hx)) fun v r second hv => ?_
  refine laws.attains_bind (laws.attains_variableOf second.order n) fun symbol t third _ => ?_
  exact laws.attains_bind (laws.attains_assign third.order symbol e (laws.lasts.value third.later hv)) fun _ u fourth _ =>
    laws.attains_done fourth.order

theorem attains_lookupStep (laws : Lawful C allowed) (hp : InOrder C allowed p) (scope : String)
    (name : NameOperand) : Attains C allowed (action depth (.lookup name scope)) p (AnswerAdmitted C) := by
  refine laws.attains_named hp scope name fun e n q first => ?_
  refine laws.attains_bind (laws.attains_variableOf first.order n) fun symbol r second _ => ?_
  have found : Attains C allowed (Action.onStore fun _ => Eval.lookup symbol e) r C.value :=
    laws.attains_unchanged second.order (Eval.ensures_lookup rfl fun _ => laws.lookup second.order)
  refine laws.attains_bind found fun v t third hv => ?_
  exact laws.attains_value third.order hv

theorem attains_findStep (laws : Lawful C allowed) (hp : InOrder C allowed p) (scope : String)
    (name : NameOperand) : Attains C allowed (action depth (.find name scope)) p (AnswerAdmitted C) := by
  refine laws.attains_named hp scope name fun e n q first => ?_
  refine laws.attains_bind (laws.attains_variableOf first.order n) fun symbol r second _ => ?_
  have hr := second.order
  refine attains_get ?_
  split
  · exact laws.attains_fail hr _
  · split
    · exact laws.attains_pure hr (by rintro _ ⟨⟩)
    · exact laws.attains_throw hr _

theorem attains_hasStep (laws : Lawful C allowed) (hp : InOrder C allowed p) (scope : String) (name : NameOperand) :
    Attains C allowed (action depth (.has name scope)) p (AnswerAdmitted C) := by
  refine laws.attains_named hp scope name fun e n q first => ?_
  dsimp only
  split
  · exact laws.attains_throw first.order _
  · exact attains_get (laws.attains_pure first.order (by rintro _ ⟨⟩))

theorem attains_insertStep (laws : Lawful C allowed) (hp : InOrder C allowed p) (scope : String)
    {pairs : List (NameOperand × Operand)} (hx : ∀ x ∈ pairs.map Prod.snd, Admitted C p.1 x) :
    Attains C allowed (action depth (.insert pairs scope)) p (AnswerAdmitted C) := by
  refine laws.attains_bind (laws.attains_scopeOf hp scope) fun e q first _ => ?_
  refine laws.attains_bind (laws.attains_mappingOf e pairs first.order (by simp) fun pair mem =>
    laws.admitted first.later (hx pair.2 (List.mem_map_of_mem mem))) fun entries r second hentries => ?_
  exact laws.attains_bind (laws.attains_insertAll e entries second.order hentries) fun _ t third _ =>
    laws.attains_done third.order

theorem attains_listingStep (laws : Lawful C allowed) (hp : InOrder C allowed p) (scope : String) :
    Attains C allowed (action depth (.listing scope)) p (AnswerAdmitted C) := by
  refine laws.attains_bind (laws.attains_scopeOf hp scope) fun e q first _ => ?_
  have hq := first.order
  refine attains_get (laws.attains_written hq fun inner _ => laws.attains_written hq fun chain _ => ?_)
  exact laws.attains_pure hq (by rintro _ ⟨⟩)

theorem attains_action (laws : Lawful C allowed) (hp : InOrder C allowed p) (step : Step)
    (hx : ∀ x ∈ step.operands, Admitted C p.1 x) : Attains C allowed (action depth step) p (AnswerAdmitted C) := by
  cases step with
  | eval code =>
    exact laws.attains_bind (laws.attains_evaluateText hp hp.root depth code) fun v q first hv =>
      laws.attains_value first.order hv
  | load code =>
    exact laws.attains_bind (laws.attains_loadText hp hp.root depth code) fun _ q first _ =>
      laws.attains_done first.order
  | run code scope =>
    refine laws.attains_bind (laws.attains_scopeOf hp scope) fun e q first he => ?_
    exact laws.attains_bind (laws.attains_evaluateText first.order he depth code) fun v r second hv =>
      laws.attains_value second.order hv
  | evaluate x scope => exact laws.attains_evaluateStep hp scope (hx x List.mem_cons_self)
  | apply procedure args scope =>
    obtain ⟨hprocedure, hargs⟩ := List.forall_mem_cons.1 hx
    exact laws.attains_applyStep hp scope hprocedure hargs
  | strict setting =>
    have order : InOrder C allowed (p.1, { p.2 with strictArity := Setting.strictArity setting }) :=
      ⟨hp.view, hp.store, hp.root, hp.scopes, hp.hosts⟩
    exact ⟨_, ⟨order, laws.lasts.refl hp.store, rfl⟩, .inl ⟨.done, rfl, by rintro _ ⟨⟩⟩⟩
  | scope name outer => exact laws.attains_scopeStep hp name outer
  | define name x scope => exact laws.attains_defineStep hp scope name (hx x List.mem_cons_self)
  | assign name x scope => exact laws.attains_assignStep hp scope name (hx x List.mem_cons_self)
  | lookup name scope => exact laws.attains_lookupStep hp scope name
  | find name scope => exact laws.attains_findStep hp scope name
  | has name scope => exact laws.attains_hasStep hp scope name
  | insert pairs scope => exact laws.attains_insertStep hp scope hx
  | listing scope => exact laws.attains_listingStep hp scope

theorem moves_trans (laws : Lawful C allowed) {w w' : ω} {t : Store} (first : C.later w w')
    (next : C.Moves w' t fun _ => True) : C.Moves w t fun _ => True := by
  obtain ⟨w'', same, later, _⟩ := next
  exact ⟨w'', same, laws.lasts.trans first later, trivial⟩

theorem moves_primitives (laws : Lawful C allowed) (ps : List Primitive) {w : ω} (hw : C.store w) :
    C.Moves w (ps.foldl (fun s p => s.define Store.root ⟨p.operator⟩ (.native (.primitive p))) (C.view w))
      fun _ => True := by
  induction ps generalizing w with
  | nil => exact ⟨w, rfl, laws.lasts.refl hw, trivial⟩
  | cons p ps ih =>
    obtain ⟨w', same, later, _⟩ := laws.write (v := .native (.primitive p)) Store.root ⟨p.operator⟩ hw
      (laws.plain (Value.IsPlain.noClosure trivial))
    rw [List.foldl_cons, ← same]
    exact laws.moves_trans later (ih (laws.lasts.store later))

theorem moves_bindHosts (laws : Lawful C allowed) (hosts : List (String × HostProcedure)) (first : Nat) {w : ω}
    (hw : C.store w) : C.Moves w (bindHosts first (C.view w) hosts) fun _ => True := by
  induction hosts generalizing first w with
  | nil => exact ⟨w, rfl, laws.lasts.refl hw, trivial⟩
  | cons host hosts ih =>
    obtain ⟨w', same, later, _⟩ := laws.write (v := .native (.host first host.1)) Store.root ⟨host.1⟩ hw
      (laws.plain (Value.IsPlain.noClosure trivial))
    rw [bindHosts, ← same]
    exact laws.moves_trans later (ih (first + 1) (laws.lasts.store later))

end Lawful

def unloaded (o : SessionOptions) : Session :=
  ⟨Setting.strictArity o.strictArity, o.hosts, primitiveStore, [(rootName, Store.root)]⟩

theorem exec_snd {α : Type} (s : Session) (m : World → Eval α) :
    (s.exec m).2 = { s with store := ((m s.world).run s.store).2 } := rfl

theorem run_onStore {α : Type} (s : Session) (m : World → Eval α) : (Action.onStore m).run s = s.exec m := rfl

theorem start_eq_ok {o : SessionOptions} (started : start depth o = .ok s) :
    ∃ code loaded, ((unloaded o).exec fun w => loadText w depth code Store.root).2 = loaded ∧
      s = { loaded with store := bindHosts 0 loaded.store o.hosts } := by
  unfold start at started
  cases prelude : preludeText o with
  | error fault =>
    rw [prelude] at started
    cases started
  | ok code =>
    rw [prelude] at started
    dsimp only [bind, Except.bind] at started
    split at started
    · cases started
    · refine ⟨code, _, rfl, ?_⟩
      unfold unloaded
      exact (Except.ok.inj started).symm

namespace Lawful

theorem unloaded_inOrder (laws : Lawful C allowed) {o : SessionOptions} (hosts : ∀ pair ∈ o.hosts, allowed pair.2) :
    ∃ w, InOrder C allowed (w, unloaded o) := by
  obtain ⟨w, initial, hw, root⟩ := laws.initial
  obtain ⟨w', same, later, _⟩ := laws.moves_primitives Primitive.all hw
  rw [initial] at same
  refine ⟨w', same, laws.lasts.store later, laws.lasts.scope later root, fun pair mem => ?_, hosts⟩
  rw [List.mem_singleton.1 mem]
  exact laws.lasts.scope later root

theorem start_inOrder (laws : Lawful C allowed) {o : SessionOptions} (hosts : ∀ pair ∈ o.hosts, allowed pair.2)
    (started : start depth o = .ok s) : ∃ w, InOrder C allowed (w, s) := by
  obtain ⟨code, loaded, run, rfl⟩ := start_eq_ok started
  obtain ⟨w, hw⟩ := laws.unloaded_inOrder hosts
  obtain ⟨p, advances, left, _⟩ := (laws.attains_loadText hw hw.root depth code).ends
  rw [run_onStore] at left
  have same : loaded = p.2 := run.symm.trans left
  have hp := advances.order
  obtain ⟨w', bound, later, _⟩ := laws.moves_bindHosts o.hosts 0 hp.store
  have final := (laws.withStore hp later).order
  rw [bound, hp.view, ← same] at final
  exact ⟨w', final⟩

end Lawful

theorem start_hosts {o : SessionOptions} (started : start depth o = .ok s) : s.hosts = o.hosts := by
  obtain ⟨_, _, rfl, rfl⟩ := start_eq_ok started
  rw [exec_snd]
  rfl

def Holds (s : Session) (c : Value) : Prop := ∃ d, ∃ pair ∈ (s.store.frame d).bindings, c.Within pair.2

def Gives (result : Except SessionFault Answer) (c : Value) : Prop :=
  ∃ v, result = .ok (.value v) ∧ c.Within v

/-- The sessions that steps lead to, each with the closures that were bound after a step or given as an answer so
far. A step may be given those, as the session has made them, and no others. Evaluations may nest to another depth in
each. -/
inductive Reached (o : SessionOptions) : Session → (Value → Prop) → Prop where
  | start {s : Session} (depth : Nat) : Session.start depth o = .ok s → Reached o s fun c => c.IsClosure ∧ s.Holds c
  | step {s : Session} {known : Value → Prop} (depth : Nat) (step : Step) : Reached o s known →
    (∀ x ∈ step.operands, ∀ v c, x.Holds v → c.IsClosure → c.Within v → known c) →
    Reached o (s.perform depth step).2 fun c =>
      known c ∨ c.IsClosure ∧ ((s.perform depth step).2.Holds c ∨ Gives (s.perform depth step).1 c)

theorem Lawful.holds (laws : Lawful C allowed) (hp : InOrder C allowed p) {c : Value} (held : p.2.Holds c) :
    C.value p.1 c := by
  obtain ⟨d, pair, mem, within⟩ := held
  exact laws.within (laws.bound hp.store (hp.view ▸ mem)) within

theorem Lawful.perform (laws : Lawful C allowed) (hp : InOrder C allowed p) {known : Value → Prop}
    (hknown : ∀ c, known c → C.value p.1 c) {step : Step}
    (given : ∀ x ∈ step.operands, ∀ v c, x.Holds v → c.IsClosure → c.Within v → known c) :
    ∃ w', Advances C allowed p (w', (p.2.perform depth step).2) ∧
      ∀ c, (known c ∨ c.IsClosure ∧ ((p.2.perform depth step).2.Holds c ∨ Gives (p.2.perform depth step).1 c)) → C.value w' c := by
  have operands : ∀ x ∈ step.operands, Admitted C p.1 x := fun x mem v hv =>
    laws.closures fun c closure within => hknown c (given x mem v c hv closure within)
  obtain ⟨q, advances, left, answer, _⟩ := (laws.attains_action hp step operands).ends
  change (p.2.perform depth step).2 = q.2 at left
  rw [left]
  refine ⟨q.1, advances, ?_⟩
  rintro c (before | ⟨_, held | ⟨v, result, within⟩⟩)
  · exact laws.lasts.value advances.later (hknown c before)
  · exact laws.holds advances.order held
  · exact laws.within (answer _ result v rfl) within

/-- Reached sessions are in order, all closures that were ever known are values of the charter, and the host procedures
are those with which the session started. -/
theorem Reached.inOrder (laws : Lawful C allowed) {o : SessionOptions} (hosts : ∀ pair ∈ o.hosts, allowed pair.2)
    {known : Value → Prop} (reached : Reached o s known) :
    ∃ w, InOrder C allowed (w, s) ∧ (∀ c, known c → C.value w c) ∧ s.hosts = o.hosts := by
  induction reached with
  | start _ started =>
    obtain ⟨w, hw⟩ := laws.start_inOrder hosts started
    exact ⟨w, hw, fun c held => laws.holds hw held.2, start_hosts started⟩
  | @step s known depth step _ given ih =>
    obtain ⟨w, hw, hknown, same⟩ := ih
    obtain ⟨w', advances, hknown'⟩ := laws.perform hw hknown given
    exact ⟨w', advances.order, hknown', advances.hosts.trans same⟩

end Session

end MicroScheme
