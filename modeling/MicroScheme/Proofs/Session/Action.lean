import MicroScheme.Session.Step
import MicroScheme.Proofs.Evaluation.Charter
import MicroScheme.Proofs.Form.Built
import MicroScheme.Proofs.Value.Closure

set_option autoImplicit false

namespace MicroScheme

inductive Operand.Holds (v : Value) : Operand → Prop where
  | value : Holds v (.value v)
  | item {items : List Operand} {x : Operand} : x ∈ items → Holds v x → Holds v (.list items)

section Store

variable {s : Store} {e : ScopeId} {p : Value → Prop}

mutual

theorem ensures_resolve (bound : ∀ n v, s.lookup? e n = some v → p v)
    (list : ∀ items, (∀ v ∈ items, p v) → p (.list items)) :
    (x : Operand) → (∀ v, x.Holds v → p v) → Ensures Eq (x.resolve e) s fun _ v => p v
  | .value v, held => by
    rw [Operand.resolve]
    exact ensures_pure rfl (held v .value)
  | .reference n, _ => by
    rw [Operand.resolve]
    exact Eval.ensures_lookup rfl (bound n)
  | .list items, held => by
    rw [Operand.resolve]
    refine ensures_bind Eq.trans (ensures_resolveAll bound list items fun x mem v hv => held v (.item mem hv))
      fun vs t same hvs => ensures_pure rfl (list vs hvs)

theorem ensures_resolveAll (bound : ∀ n v, s.lookup? e n = some v → p v)
    (list : ∀ items, (∀ v ∈ items, p v) → p (.list items)) :
    (xs : List Operand) → (∀ x ∈ xs, ∀ v, x.Holds v → p v) →
      Ensures Eq (Operand.resolveAll e xs) s fun _ vs => ∀ v ∈ vs, p v
  | [], _ => by
    rw [Operand.resolveAll]
    exact ensures_pure rfl (by simp)
  | x :: xs, held => by
    rw [Operand.resolveAll]
    refine ensures_bind Eq.trans (ensures_resolve bound list x (held x List.mem_cons_self)) fun v t same hv => ?_
    rw [← same]
    refine ensures_bind Eq.trans (ensures_resolveAll bound list xs fun y mem => held y (List.mem_cons_of_mem _ mem))
      fun vs u same' hvs => ?_
    exact ensures_pure rfl (List.forall_mem_cons.2 ⟨hv, hvs⟩)

end

theorem ensures_resolveName (name : NameOperand) : Ensures Eq (name.resolve e) s fun _ _ => True := by
  cases name with
  | plain text => exact ensures_pure rfl trivial
  | operand x =>
    exact ensures_bind Eq.trans (ensures_resolve (p := fun _ => True) (fun _ _ _ => trivial)
      (fun _ _ => trivial) x fun _ _ => trivial) fun v t _ _ => ensures_pure rfl trivial

end Store

theorem builds_noClosure (ts : List Token) : Form.Builds Value.NoClosure ts where
  atom t _ _ _ := by
    unfold Atom.ofToken Atom.ofChars
    repeat' split
    all_goals exact Value.IsPlain.noClosure trivial
  list _ h := Value.noClosure_list.2 h

namespace Session

theorem world_host {s : Session} {p : HostProcedure → Prop} (hosts : ∀ pair ∈ s.hosts, p pair.2)
    (absent : p (HostProcedure.constant .unspecified)) (id : Nat) : p (s.world.host id) := by
  unfold world
  dsimp only
  cases found : s.hosts[id]? with
  | none => exact absent
  | some pair => exact hosts pair (List.mem_of_getElem? found)

/-- The charter is one of sessions with such host procedures: evaluation keeps it, and so does all else that a session
does. Of a value only its closures count. -/
structure Lawful {ω : Type} (C : Charter ω) (allowed : HostProcedure → Prop) : Prop where
  kept : ∀ {world : World}, (∀ id, allowed (world.host id)) → C.Kept world
  absent : allowed (HostProcedure.constant .unspecified)
  failures : ∀ f, C.failure f
  runnable : ∀ {w v}, C.value w v → C.code w v
  within : ∀ {w} {v c : Value}, C.value w v → c.Within v → C.value w c
  closures : ∀ {w} {v : Value}, (∀ c : Value, c.IsClosure → c.Within v → C.value w c) → C.value w v
  bound : ∀ {w d pair}, C.store w → pair ∈ ((C.view w).frame d).bindings → C.value w pair.2
  write : ∀ {w v} d n, C.store w → C.value w v → C.Moves w ((C.view w).define d n v) fun _ => True
  scope : ∀ {w} outer, C.store w → (∀ o, outer = some o → C.scope w o) →
    C.Moves w ((C.view w).addFrame ⟨[], outer⟩) fun w' => C.scope w' (C.view w).nextScope
  initial : ∃ w, C.view w = Store.initial ∧ C.store w ∧ C.scope w Store.root

variable {ω : Type} {C : Charter ω} {allowed : HostProcedure → Prop} {p q : ω × Session} {α : Type}

/-- The record follows the store of the session, the scopes with a name are scopes of the charter, and the host
procedures are allowed. -/
structure InOrder (C : Charter ω) (allowed : HostProcedure → Prop) (p : ω × Session) : Prop where
  view : C.view p.1 = p.2.store
  store : C.store p.1
  root : C.scope p.1 Store.root
  scopes : ∀ pair ∈ p.2.scopes, C.scope p.1 pair.2
  hosts : ∀ pair ∈ p.2.hosts, allowed pair.2

structure Advances (C : Charter ω) (allowed : HostProcedure → Prop) (p q : ω × Session) : Prop where
  order : InOrder C allowed q
  later : C.later p.1 q.1
  hosts : q.2.hosts = p.2.hosts

abbrev Attains (C : Charter ω) (allowed : HostProcedure → Prop) (m : Action α) (p : ω × Session)
    (post : ω → α → Prop) : Prop :=
  MicroScheme.Attains Prod.snd (Advances C allowed) (fun _ => True) m p fun q a => post q.1 a

def Admitted (C : Charter ω) (w : ω) (x : Operand) : Prop := ∀ v, x.Holds v → C.value w v

def AnswerAdmitted (C : Charter ω) (w : ω) (a : Answer) : Prop := ∀ v, a = .value v → C.value w v

theorem Name.mem_put {name : Name} {v : Value} {entries : List (Name × Value)} {entry : Name × Value}
    (h : entry ∈ name.put v entries) : entry.2 = v ∨ entry ∈ entries := by
  induction entries with
  | nil => exact .inl (congrArg Prod.snd (List.mem_singleton.1 h))
  | cons first entries ih =>
    rw [Name.put] at h
    split at h
    · rcases List.mem_cons.1 h with rfl | h
      · exact .inl rfl
      · exact .inr (List.mem_cons_of_mem _ h)
    · rcases List.mem_cons.1 h with rfl | h
      · exact .inr List.mem_cons_self
      · exact (ih h).imp_right (List.mem_cons_of_mem _)

namespace Lawful

theorem lasts (laws : Lawful C allowed) : C.Lasts :=
  have kept : C.Kept ⟨true, fun _ => .constant .unspecified⟩ := laws.kept fun _ => laws.absent
  kept.toLasts

theorem keptIn (laws : Lawful C allowed) (hp : InOrder C allowed p) : C.Kept p.2.world :=
  laws.kept (world_host hp.hosts laws.absent)

theorem keeps (laws : Lawful C allowed) (hp : InOrder C allowed p) (depth : Nat) :
    C.Keeps (evaluate p.2.world depth) :=
  (laws.keptIn hp).evaluate (laws.failures _) depth

theorem lookup (laws : Lawful C allowed) (hp : InOrder C allowed p) {e : ScopeId} {n : Symbol} {v : Value}
    (hv : p.2.store.lookup? e n = some v) : C.value p.1 v := by
  obtain ⟨d, _, mem⟩ := Store.lookup?_eq_some hv
  exact laws.bound hp.store (hp.view ▸ mem)

theorem plain (laws : Lawful C allowed) {w : ω} {v : Value} (none : v.NoClosure) : C.value w v :=
  laws.closures fun c closure within => (none c within closure).elim

theorem list (laws : Lawful C allowed) {w : ω} {items : List Value} (h : ∀ v ∈ items, C.value w v) :
    C.value w (.list items) := by
  refine laws.closures fun c closure within => ?_
  cases within with
  | here => cases closure
  | item mem within => exact laws.within (h _ mem) within

theorem admitted (laws : Lawful C allowed) {x : Operand} (later : C.later p.1 q.1) (hx : Admitted C p.1 x) :
    Admitted C q.1 x :=
  fun v hv => laws.lasts.value later (hx v hv)

theorem refl (laws : Lawful C allowed) (hp : InOrder C allowed p) : Advances C allowed p p :=
  ⟨hp, laws.lasts.refl hp.store, rfl⟩

theorem trans (laws : Lawful C allowed) {r : ω × Session} (first : Advances C allowed p q)
    (next : Advances C allowed q r) : Advances C allowed p r :=
  ⟨next.order, laws.lasts.trans first.later next.later, next.hosts.trans first.hosts⟩

theorem withStore (laws : Lawful C allowed) (hp : InOrder C allowed p) {w' : ω} (later : C.later p.1 w') :
    Advances C allowed p (w', { p.2 with store := C.view w' }) := by
  have lasts := laws.lasts
  refine ⟨⟨rfl, lasts.store later, lasts.scope later hp.root, fun pair mem => ?_, hp.hosts⟩, later, rfl⟩
  exact lasts.scope later (hp.scopes pair mem)

section

variable {β : Type} {post : ω → α → Prop}

theorem attains_pure (laws : Lawful C allowed) (hp : InOrder C allowed p) {a : α} (holds : post p.1 a) :
    Attains C allowed (pure a : Action α) p post :=
  MicroScheme.attains_pure (laws.refl hp) holds

theorem attains_throw (laws : Lawful C allowed) (hp : InOrder C allowed p) (fault : SessionFault) :
    Attains C allowed (throw fault : Action α) p post :=
  MicroScheme.attains_throw (laws.refl hp) trivial

theorem attains_bind (laws : Lawful C allowed) {m : Action β} {k : β → Action α} {r : ω → β → Prop}
    (first : Attains C allowed m p r)
    (rest : ∀ a q, Advances C allowed p q → r q.1 a → Attains C allowed (k a) q post) :
    Attains C allowed (m >>= k) p post :=
  MicroScheme.attains_bind laws.trans first rest

theorem attains_get {k : Session → Action α} (h : Attains C allowed (k p.2) p post) :
    Attains C allowed (get >>= k) p post := h

theorem attains_fail (laws : Lawful C allowed) (hp : InOrder C allowed p) (cause : Failure) :
    Attains C allowed (Action.fail cause : Action α) p post :=
  laws.attains_throw hp _

theorem attains_written (laws : Lawful C allowed) (hp : InOrder C allowed p) {text : Option β} {k : β → Action α}
    (rest : ∀ b, text = some b → Attains C allowed (k b) p post) :
    Attains C allowed (Action.written text >>= k) p post := by
  cases text with
  | some b => exact rest b rfl
  | none => exact attains_of_error (f := .failure .digitLimit) rfl (laws.refl hp) trivial

theorem attains_onStore (laws : Lawful C allowed) {m : World → Eval α} (hp : InOrder C allowed p)
    (h : C.Attains (m p.2.world) p.1 post) : Attains C allowed (Action.onStore m) p post := by
  have whole : (Action.onStore m).run p.2 = ((((m p.2.world).run (C.view p.1)).1).mapError .failure,
      { p.2 with store := ((m p.2.world).run (C.view p.1)).2 }) := by
    rw [hp.view]
    rfl
  obtain ⟨w', later, ⟨a, run, holds⟩ | ⟨f, run, _⟩⟩ := h
  · rw [run] at whole
    exact ⟨(w', { p.2 with store := C.view w' }), laws.withStore hp later, .inl ⟨a, whole, holds⟩⟩
  · rw [run] at whole
    exact ⟨(w', { p.2 with store := C.view w' }), laws.withStore hp later, .inr ⟨_, whole, trivial⟩⟩

theorem attains_unchanged (laws : Lawful C allowed) {m : World → Eval α} (hp : InOrder C allowed p)
    (h : Ensures Eq (m p.2.world) p.2.store fun _ a => post p.1 a) : Attains C allowed (Action.onStore m) p post := by
  refine laws.attains_onStore hp ?_
  rw [← hp.view] at h
  obtain ⟨same, holds⟩ := h
  rcases run : (m p.2.world).run (C.view p.1) with ⟨f | a, t⟩
  · rw [run] at same
    exact attains_of_error (run.trans (congrArg (Prod.mk _) same.symm)) (laws.lasts.refl hp.store) (laws.failures f)
  · rw [run] at same holds
    exact attains_of_ok (run.trans (congrArg (Prod.mk _) same.symm)) (laws.lasts.refl hp.store) (holds a rfl)

theorem attains_scopeOf (laws : Lawful C allowed) (hp : InOrder C allowed p) (name : String) :
    Attains C allowed (Action.scopeOf name) p C.scope := by
  unfold Action.scopeOf
  refine attains_get ?_
  cases found : p.2.scope? name with
  | none => exact laws.attains_throw hp _
  | some e =>
    obtain ⟨before, after, split, _⟩ := List.lookup_eq_some_iff.1 found
    have mem : (name, e) ∈ p.2.scopes := split ▸ List.mem_append_right _ List.mem_cons_self
    exact laws.attains_pure hp (hp.scopes _ mem)

theorem attains_value (laws : Lawful C allowed) (hp : InOrder C allowed p) {v : Value} (hv : C.value p.1 v) :
    Attains C allowed (pure (.value v) : Action Answer) p (AnswerAdmitted C) := by
  refine laws.attains_pure hp ?_
  rintro _ ⟨⟩
  exact hv

theorem attains_done (laws : Lawful C allowed) (hp : InOrder C allowed p) :
    Attains C allowed (pure .done : Action Answer) p (AnswerAdmitted C) :=
  laws.attains_pure hp (by rintro _ ⟨⟩)

theorem attains_define (laws : Lawful C allowed) (hp : InOrder C allowed p) (n : Symbol) {v : Value} (e : ScopeId)
    (hv : C.value p.1 v) : Attains C allowed (Action.onStore fun _ => Eval.define n v e) p fun _ _ => True := by
  obtain ⟨w', same, later, _⟩ := laws.write e n hp.store hv
  exact laws.attains_onStore hp (attains_of_ok (congrArg (Prod.mk _) same.symm) later trivial)

theorem attains_assign (laws : Lawful C allowed) (hp : InOrder C allowed p) (n : Symbol) {v : Value} (e : ScopeId)
    (hv : C.value p.1 v) : Attains C allowed (Action.onStore fun _ => Eval.assign n v e) p fun _ _ => True := by
  refine laws.attains_onStore hp (Eval.attains_assign (laws.lasts.refl hp.store) (laws.failures _) fun d _ => ?_)
  obtain ⟨w', same, later, _⟩ := laws.write d n hp.store hv
  exact ⟨w', same, later⟩

theorem attains_defineName (laws : Lawful C allowed) (hp : InOrder C allowed p) (e : ScopeId) (name : Name)
    (symbol : Option Symbol) {v : Value} (hv : C.value p.1 v) :
    Attains C allowed (Action.defineName e name symbol v) p fun _ _ => True := by
  unfold Action.defineName
  cases symbol with
  | some n => exact laws.attains_define hp n e hv
  | none => exact laws.attains_written hp fun got _ => laws.attains_fail hp _

theorem attains_variableOf (laws : Lawful C allowed) (hp : InOrder C allowed p) (name : Name) :
    Attains C allowed (Action.variableOf name) p fun _ _ => True := by
  unfold Action.variableOf
  dsimp only
  split
  · exact laws.attains_throw hp _
  · split
    · exact laws.attains_pure hp trivial
    · exact laws.attains_written hp fun text _ => laws.attains_fail hp _

theorem attains_insertAll (laws : Lawful C allowed) (e : ScopeId) (entries : List (Name × Value))
    (hp : InOrder C allowed p) (hv : ∀ entry ∈ entries, C.value p.1 entry.2) :
    Attains C allowed (Action.insertAll e entries) p fun _ _ => True := by
  induction entries generalizing p with
  | nil => exact laws.attains_pure hp trivial
  | cons entry entries ih =>
    obtain ⟨hentry, hentries⟩ := List.forall_mem_cons.1 hv
    rw [Action.insertAll]
    refine laws.attains_bind (laws.attains_defineName hp e _ _ hentry) fun _ q advances _ => ?_
    exact ih advances.order fun other mem => laws.lasts.value advances.later (hentries other mem)

theorem attains_operand (laws : Lawful C allowed) (hp : InOrder C allowed p) (e : ScopeId) {x : Operand}
    (hx : Admitted C p.1 x) : Attains C allowed (Action.onStore fun _ => x.resolve e) p C.value :=
  laws.attains_unchanged hp (ensures_resolve (fun _ _ => laws.lookup hp) (fun _ => laws.list) x hx)

theorem attains_operands (laws : Lawful C allowed) (hp : InOrder C allowed p) (e : ScopeId) {xs : List Operand}
    (hx : ∀ x ∈ xs, Admitted C p.1 x) :
    Attains C allowed (Action.onStore fun _ => Operand.resolveAll e xs) p fun w vs => ∀ v ∈ vs, C.value w v :=
  laws.attains_unchanged hp (ensures_resolveAll (fun _ _ => laws.lookup hp) (fun _ => laws.list) xs hx)

theorem attains_name (laws : Lawful C allowed) (hp : InOrder C allowed p) (e : ScopeId) (name : NameOperand) :
    Attains C allowed (Action.onStore fun _ => name.resolve e) p fun _ _ => True :=
  laws.attains_unchanged hp (ensures_resolveName name)

theorem attains_evaluate (laws : Lawful C allowed) (hp : InOrder C allowed p) {x : Value} {e : ScopeId}
    (he : C.scope p.1 e) (hx : C.value p.1 x) (depth : Nat) :
    Attains C allowed (Action.onStore fun w => evaluate w depth x e) p C.value :=
  laws.attains_onStore hp (laws.keeps hp depth hp.store he (laws.runnable hx))

theorem attains_evaluateText (laws : Lawful C allowed) (hp : InOrder C allowed p) {e : ScopeId}
    (he : C.scope p.1 e) (depth : Nat) (text : String) :
    Attains C allowed (Action.onStore fun w => evaluateText w depth text e) p C.value := by
  refine laws.attains_onStore hp ?_
  unfold evaluateText
  cases read : Form.ofText text with
  | error fault => exact MicroScheme.attains_throw (laws.lasts.refl hp.store) (laws.failures _)
  | ok x => exact laws.keeps hp depth hp.store he (laws.runnable (laws.plain (Form.read_built (builds_noClosure _) read)))

theorem attains_loadText (laws : Lawful C allowed) (hp : InOrder C allowed p) {e : ScopeId}
    (he : C.scope p.1 e) (depth : Nat) (text : String) :
    Attains C allowed (Action.onStore fun w => loadText w depth text e) p fun _ _ => True := by
  have kept := laws.keptIn hp
  have forms : ∀ x ∈ (Form.allOfText text).1, C.code p.1 x := fun x mem =>
    laws.runnable (laws.plain (Form.readAll_built (builds_noClosure _) x mem))
  refine laws.attains_onStore hp ?_
  unfold loadText
  refine MicroScheme.attains_bind kept.trans (kept.evaluateBody (laws.keeps hp depth) _ hp.store he kept.unspecified forms)
    fun v w' later _ => ?_
  have stay := kept.refl (kept.store later)
  split
  · exact MicroScheme.attains_throw stay (laws.failures _)
  · exact MicroScheme.attains_pure stay trivial

theorem attains_addScope (laws : Lawful C allowed) (hp : InOrder C allowed p) (name : String)
    {outer : Option ScopeId} (ho : ∀ o, outer = some o → C.scope p.1 o) :
    Attains C allowed (Action.addScope name outer) p fun _ _ => True := by
  obtain ⟨w', same, later, scope⟩ := laws.scope outer hp.store ho
  refine laws.attains_bind (r := C.scope) (laws.attains_onStore hp
    (attains_of_ok (congrArg (Prod.mk _) same.symm) later scope)) fun e q advances he => ?_
  have hq := advances.order
  have order : InOrder C allowed (q.1, { q.2 with scopes := (name, e) :: q.2.scopes }) :=
    ⟨hq.view, hq.store, hq.root, List.forall_mem_cons.2 ⟨he, hq.scopes⟩, hq.hosts⟩
  exact ⟨_, ⟨order, laws.lasts.refl hq.store, rfl⟩, .inl ⟨(), rfl, trivial⟩⟩

end

theorem attains_mappingOf (laws : Lawful C allowed) (e : ScopeId) (pairs : List (NameOperand × Operand))
    {entries : List (Name × Value)} (hp : InOrder C allowed p) (he : ∀ entry ∈ entries, C.value p.1 entry.2)
    (hx : ∀ pair ∈ pairs, Admitted C p.1 pair.2) :
    Attains C allowed (Action.mappingOf e entries pairs) p fun w es => ∀ entry ∈ es, C.value w entry.2 := by
  induction pairs generalizing p entries with
  | nil => exact laws.attains_pure hp he
  | cons pair pairs ih =>
    obtain ⟨hpair, hpairs⟩ := List.forall_mem_cons.1 hx
    rw [Action.mappingOf]
    refine laws.attains_bind (laws.attains_name hp e pair.1) fun n q first _ => ?_
    refine laws.attains_bind (laws.attains_operand first.order e (laws.admitted first.later hpair))
      fun v r second hv => ?_
    have later := laws.lasts.trans first.later second.later
    dsimp only
    split
    · exact laws.attains_throw second.order _
    · refine ih second.order (fun entry mem => ?_) fun other mem => laws.admitted later (hpairs other mem)
      rcases Name.mem_put mem with same | mem
      · exact same ▸ hv
      · exact laws.lasts.value later (he entry mem)

end Lawful

end Session

end MicroScheme
