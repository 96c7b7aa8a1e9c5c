import MicroScheme.Proofs.Store.WellFormed

set_option autoImplicit false

namespace MicroScheme

/-- No scope lies in the scope, and no closure in a bound value has captured it. -/
structure Store.Hides (s : Store) (c : ScopeId) : Prop where
  there : c < s.frames.size
  outer : ∀ d, (s.frame d).outer ≠ some c
  values : ∀ d, ∀ pair ∈ (s.frame d).bindings, pair.2.CapturesOnly (· ≠ c)

namespace Store

variable {s : Store} {c : ScopeId}

theorem Hides.define (h : s.Hides c) (d : ScopeId) (n : Symbol) {v : Value} (hv : v.CapturesOnly (· ≠ c)) :
    (s.define d n v).Hides c where
  there := size_define s d n v ▸ h.there
  outer e := by
    rw [outer_define]
    exact h.outer e
  values := bound_define h.values d n hv

theorem Hides.addFrame (h : s.Hides c) {f : Frame} (outer : f.outer ≠ some c)
    (values : ∀ pair ∈ f.bindings, pair.2.CapturesOnly (· ≠ c)) : (s.addFrame f).Hides c where
  there := size_addFrame s f ▸ Nat.lt_succ_of_lt h.there
  outer d := by
    rw [frame_addFrame]
    split
    · exact outer
    · exact h.outer d
  values := bound_addFrame h.values values

theorem Admits.capturesOnly_ne {v : Value} (h : s.Admits v) : v.CapturesOnly (· ≠ s.nextScope) :=
  fun d captured => Nat.ne_of_lt (Value.MadeOf.capturesOnly h d captured)

theorem Closed.hides_addFrame (h : s.Closed) {f : Frame} (outer : ∀ o, f.outer = some o → o < s.frames.size)
    (values : ∀ pair ∈ f.bindings, s.Admits pair.2) : (s.addFrame f).Hides s.nextScope where
  there := size_addFrame s f ▸ Nat.lt_succ_self _
  outer d out := by
    rw [frame_addFrame] at out
    split at out
    · exact Nat.lt_irrefl _ (outer _ out)
    · next old =>
      have inside := h.outer d _ out
      rw [frame_of_ge (Nat.le_of_lt inside)] at out
      cases out
  values := bound_addFrame (fun d pair mem => (h.admits d pair mem).capturesOnly_ne)
    fun pair mem => (values pair mem).capturesOnly_ne

end Store

/-- Code runs in other scopes and cannot name this one, whose frame stays what it is. -/
def hidden (c : ScopeId) (f : Frame) : Discipline where
  store s := s.Hides c ∧ s.frame c = f
  scope _ e := e ≠ c
  code _ x := x.CapturesOnly (· ≠ c)
  value _ v := v.CapturesOnly (· ≠ c)

variable {world : World} {c : ScopeId} {f : Frame}

theorem hidden_define {s : Store} {d : ScopeId} {v : Value} (hs : (hidden c f).store s) (hd : d ≠ c) (n : Symbol)
    (hv : v.CapturesOnly (· ≠ c)) : (hidden c f).Later s (s.define d n v) := by
  refine ⟨⟨hs.1.define d n hv, ?_⟩, id, id, id⟩
  rw [Store.frame_define, if_neg fun both => hd both.1]
  exact hs.2

theorem hidden_kept (hosts : ∀ id, (world.host id).Confined) : (hidden c f).charter.Kept world where
  toLasts := (hidden c f).lasts
  forms := id
  item hx mem := Value.capturesOnly_list.1 hx _ mem
  literal hx := hx
  bool _ := Value.IsPlain.capturesOnly trivial
  text _ := Value.IsPlain.capturesOnly trivial
  unspecified := Value.IsPlain.capturesOnly trivial
  lookup hs _ hv := Store.bound_lookup? hs.1.values hv
  define hs he _ hv := Discipline.moves (hidden_define hs he _ hv) trivial
  assign {s e d n v xs} hs he _ hv owner := by
    have outward : ∀ a o, a ≠ c → (s.frame a).outer = some o → o ≠ c := fun a o _ out same =>
      hs.1.outer a (same ▸ out)
    exact Discipline.moves (hidden_define hs (Store.mem_chainFrom outward he (Store.owner?_mem_chain owner)) n hv) trivial
  closure {s e _ x xs _} hs he hx _ := by
    have parts := Value.capturesOnly_list.1 hx
    have body := SpecialForm.sequence_madeOf fun y mem =>
      Value.capturesOnly_iff.1 (parts y (List.mem_cons_of_mem _ (List.mem_cons_of_mem _ mem)))
    exact Discipline.moves ⟨⟨⟨hs.1.there, hs.1.outer, hs.1.values⟩, hs.2⟩, id, id, id⟩
      (Value.capturesOnly_closure.2 ⟨he, body.capturesOnly⟩)
  body hv := (Value.capturesOnly_closure.1 hv).2
  enter {s d bound} hs hd _ values := by
    have elsewhere : d ≠ c := by
      rcases hd with running | ⟨_, _, _, captured⟩
      · exact running
      · exact (Value.capturesOnly_closure.1 captured).1
    have old : c ≠ s.nextScope := Nat.ne_of_lt hs.1.there
    have kept : (s.addFrame ⟨bound, some d⟩).frame c = f := by
      rw [Store.frame_addFrame, if_neg old]
      exact hs.2
    have inside := hs.1.addFrame (f := ⟨bound, some d⟩) (fun same => elsewhere (Option.some.inj same)) values
    exact Discipline.moves ⟨⟨inside, kept⟩, id, id, id⟩ old.symm
  native {s e _} _ hs _ ha := by
    refine Discipline.keptBy (fun id => (hosts id).toKeepsStore) hs fun v hv => ?_
    have bound : ∀ pair ∈ (s.frame e).bindings, pair.2.MadeOf (fun _ => True) (· ≠ c) := fun pair mem =>
      Value.capturesOnly_iff.1 (hs.1.values e pair mem)
    exact Value.capturesOnly_iff.2 (Native.call_madeOf hosts bound (fun w mem => Value.capturesOnly_iff.1 (ha w mem)) hv)
  own _ _ := trivial

theorem ensures_notProcedure (v : Value) (s : Store) :
    Ensures Eq (do throw (.wrongKind (.notProcedure (← Eval.written (v.print? true)))) : Eval Value) s
      fun _ _ => True :=
  Eval.ensures_written rfl _ fun _ => ensures_throw _ rfl

/-- A call leaves a scope as it is that neither the procedure nor the arguments nor the store can get to. -/
theorem apply_hidden (hosts : ∀ id, (world.host id).Confined) (depth : Nat) (e : ScopeId) {p : Value}
    {args : List Value} {s : Store} (hs : s.Hides c) (hp : p.CapturesOnly (· ≠ c))
    (ha : ∀ v ∈ args, v.CapturesOnly (· ≠ c)) :
    ((apply world (evaluate world depth) p args e).run s).2.frame c = s.frame c := by
  cases p with
  | closure id formals body captured =>
    have elsewhere : c + 1 ≠ c := Nat.succ_ne_self c
    have laws := hidden_kept (c := c) (f := s.frame c) hosts
    exact (Discipline.apply laws (Discipline.evaluate laws depth) ⟨hs, rfl⟩ elsewhere hp ha).1.store.2
  | native p =>
    rw [run_apply_native, p.call_keeps fun id => (hosts id).toKeepsStore]
  | number | bool | text | symbol | list | unspecified =>
    exact congrArg (·.frame c) (ensures_notProcedure _ s).1.symm

end MicroScheme
