import MicroScheme.Proofs.Session.Reached
import MicroScheme.Proofs.Store.WellFormed

set_option autoImplicit false

namespace MicroScheme

/-- The scopes with a name are there, the store is closed, and host procedures give no closures but those of it. -/
structure Session.WellFormed (s : Session) : Prop where
  store : s.store.Closed
  root : Store.root < s.store.frames.size
  scopes : ∀ pair ∈ s.scopes, pair.2 < s.store.frames.size
  hosts : ∀ pair ∈ s.hosts, pair.2.Confined

namespace Session

variable {s : Session}

theorem initial_closed : Store.initial.Closed := by
  refine .of_admits (fun d o ho => ?_) (fun d => ?_) fun d pair mem => ?_
  · rw [Store.frame_initial] at ho
    cases ho
  · rw [Store.frame_initial]
    exact List.nodup_nil
  · rw [Store.frame_initial] at mem
    cases mem

theorem closed_lawful : Lawful closed.charter HostProcedure.Confined where
  kept := closed_kept
  absent := (HostProcedure.constant_seesFrame (Value.IsPlain.noClosure (v := .unspecified) trivial)).confined
  failures _ := trivial
  runnable := id
  within hv within := Value.MadeOf.within hv within
  closures := Value.madeOf_of_closures
  bound hs mem := hs.admits _ _ mem
  write d n hs hv := ⟨_, rfl, closed_define hs d n hv, trivial⟩
  scope {s} outer hs ho := by
    have added : closed.Later s (s.addFrame ⟨[], outer⟩) := closed_addFrame hs ho List.nodup_nil (by simp)
    have new : s.nextScope < (s.addFrame ⟨[], outer⟩).frames.size :=
      Store.size_addFrame s ⟨[], outer⟩ ▸ Nat.lt_succ_self _
    exact ⟨_, rfl, added, new⟩
  initial := ⟨.initial, rfl, initial_closed, Nat.succ_pos 0⟩

theorem InOrder.wellFormed {w : Store} (h : InOrder closed.charter HostProcedure.Confined (w, s)) : s.WellFormed := by
  obtain ⟨view, store, root, scopes, hosts⟩ := h
  obtain rfl : w = s.store := view
  exact ⟨store, root, scopes, hosts⟩

theorem start_wellFormed {depth : Nat} {o : SessionOptions} (hosts : ∀ pair ∈ o.hosts, pair.2.Confined)
    (started : start depth o = .ok s) : s.WellFormed := by
  obtain ⟨w, hw⟩ := closed_lawful.start_inOrder hosts started
  exact hw.wellFormed

theorem Reached.admits {o : SessionOptions} (hosts : ∀ pair ∈ o.hosts, pair.2.Confined) {known : Value → Prop}
    (reached : Reached o s known) : s.WellFormed ∧ (∀ c, known c → s.store.Admits c) ∧ s.hosts = o.hosts := by
  obtain ⟨w, hw, hknown, same⟩ := reached.inOrder closed_lawful hosts
  obtain rfl : w = s.store := hw.view
  exact ⟨hw.wellFormed, hknown, same⟩

/-- What is true of a session at any time. -/
structure Settled (s : Session) (known : Value → Prop) : Prop where
  store : s.store.WellFormed
  chains : ∀ e < s.store.frames.size, s.store.Outward e (s.store.chain e)
  scopes : ∀ name e, s.scope? name = some e → e < s.store.frames.size
  closures : ∀ id formals body d, known (.closure id formals body d) → d < s.store.frames.size
  calls : ∀ formals args d t f, ((bindParameters s.world formals args d).run t).1 = .error f →
    f = .wrongCount (.closure formals args.length)
  lets : ∀ eval e bindings body t bound u,
    (SpecialForm.letBindings eval e [] bindings).run t = (.ok bound, u) →
      (SpecialForm.letIn eval e (.list bindings :: body)).run t =
        (evaluateBody eval u.nextScope .unspecified body).run (u.addFrame ⟨bound, some e⟩)

theorem Reached.wellFormed {o : SessionOptions} (hosts : ∀ pair ∈ o.hosts, pair.2.MakesNoClosure)
    {known : Value → Prop} (reached : Reached o s known) :
    s.WellFormed ∧ ∀ c, known c → s.store.Covers c := by
  obtain ⟨hs, admits, _⟩ := reached.admits fun pair mem => (hosts pair mem).confined
  exact ⟨hs, fun c hc => (admits c hc).capturesOnly⟩

/-- At every point of a session its scopes and closures are in order. Making the scope of a call can fail only at
the number of arguments, and making the scope of a let cannot fail. -/
theorem reached_settled (o : SessionOptions) (hosts : ∀ pair ∈ o.hosts, pair.2.MakesNoClosure)
    {known : Value → Prop} (reached : Reached o s known) : s.Settled known := by
  obtain ⟨hs, hknown⟩ := reached.wellFormed hosts
  refine ⟨hs.store.toWellFormed, fun e => hs.store.chain_outward, fun name e found => ?_, fun id formals body d hc => ?_,
    fun formals args d t f failed => ?_, fun eval e bindings body t bound u run => ?_⟩
  · obtain ⟨before, after, split, _⟩ := List.lookup_eq_some_iff.1 found
    exact hs.scopes _ (split ▸ List.mem_append_right _ List.mem_cons_self)
  · exact (Value.capturesOnly_closure.1 (hknown _ hc)).1
  · rw [Eval.run_bindParameters] at failed
    split at failed
    · exact (Except.error.inj failed).symm
    · cases failed
  · rw [SpecialForm.letIn, run_bind, run]
    rfl

theorem reached_settled_of_call :
    ∃ s known, Reached ⟨.none, none, ⟨[], none⟩, none, [("echo", HostProcedure.arguments)]⟩ s known ∧
      known (.closure 0 [] (.named "car") 0) ∧ s.Settled known := by
  let o : SessionOptions := ⟨.none, none, ⟨[], none⟩, none, [("echo", HostProcedure.arguments)]⟩
  let make : Step := .evaluate (.value (.list [.named "lambda", .list [], .named "car"])) "root"
  let call : Step := .apply (.value (.closure 0 [] (.named "car") 0)) [] "root"
  let s : Session := ⟨true, o.hosts, bindHosts 0 primitiveStore o.hosts, [(rootName, Store.root)]⟩
  have hosts : ∀ pair ∈ o.hosts, pair.2.MakesNoClosure := by
    intro pair mem
    rw [List.mem_singleton.1 mem]
    exact HostProcedure.arguments_seesFrame.toMakesNoClosure
  have started : start 4 o = .ok s := rfl
  have answer : (s.perform 4 make).1 = .ok (.value (.closure 0 [] (.named "car") 0)) := rfl
  have made := (Reached.start 4 started).step 4 make (by
    intro x mem v c held closure within
    rw [List.mem_singleton.1 mem] at held
    cases held
    have plain : (Value.list [.named "lambda", .list [], .named "car"]).CapturesOnly fun _ => False := by
      have name : ∀ n, (Value.named n).CapturesOnly fun _ => False := fun n => Value.IsPlain.capturesOnly trivial
      simp [Value.capturesOnly_list, name]
    cases closure with
    | intro id formals body d => exact (plain d ⟨id, formals, body, within⟩).elim)
  have called := made.step 4 call (by
    intro x mem v c held closure within
    rw [List.mem_singleton.1 mem] at held
    cases held
    exact .inr ⟨closure, .inr ⟨_, answer, within⟩⟩)
  exact ⟨_, _, called, .inl (.inr ⟨.intro 0 [] _ 0, .inr ⟨_, answer, .here⟩⟩), reached_settled o hosts called⟩

end Session

end MicroScheme
