import MicroScheme.Proofs.Evaluation.Charter
import MicroScheme.Proofs.Value.Closure
import MicroScheme.Proofs.Value.Signal

set_option autoImplicit false

namespace MicroScheme

namespace Value

mutual

/-- How deep lists are nested in the value. -/
def nesting : Value → Nat
  | .list items => nestingAll items + 1
  | _ => 0

def nestingAll : List Value → Nat
  | [] => 0
  | x :: xs => max x.nesting (nestingAll xs)

end

theorem nesting_lt_of_mem {x : Value} {items : List Value} (mem : x ∈ items) :
    x.nesting < (Value.list items).nesting := by
  rw [nesting.eq_1, Nat.lt_succ_iff]
  induction items with
  | nil => cases mem
  | cons y items ih =>
    rw [nestingAll]
    rcases List.mem_cons.1 mem with rfl | mem
    · exact Nat.le_max_left _ _
    · exact Nat.le_trans (ih mem) (Nat.le_max_right _ _)

/-- A list that would be a lambda form if it were evaluated. -/
def IsLambda : Value → Prop
  | .list (.symbol n :: _) => n.name = Keyword.lambda.name
  | _ => False

/-- No closure and no such list occurs in the value. -/
def LambdaFree (x : Value) : Prop := ∀ c : Value, c.Within x → ¬ c.IsClosure ∧ ¬ c.IsLambda

theorem LambdaFree.within {c x : Value} (h : x.LambdaFree) (hc : c.Within x) : c.LambdaFree :=
  fun inner hi => h inner (hi.trans hc)

theorem LambdaFree.noClosure {x : Value} (h : x.LambdaFree) : x.NoClosure := fun c hc => (h c hc).1

theorem lambdaFree_list {items : List Value} :
    (Value.list items).LambdaFree ↔ ¬ (Value.list items).IsLambda ∧ ∀ x ∈ items, x.LambdaFree := by
  constructor
  · exact fun h => ⟨(h _ .here).2, fun x mem => h.within (.item mem .here)⟩
  · rintro ⟨head, parts⟩ c hc
    cases hc with
    | here => exact ⟨nofun, head⟩
    | item mem hc => exact parts _ mem c hc

theorem IsPlain.lambdaFree {v : Value} (h : v.IsPlain) : v.LambdaFree := by
  intro c hc
  cases hc with
  | here => cases v <;> first | exact h.elim | exact ⟨nofun, id⟩
  | item => exact h.elim
  | body => exact h.elim

end Value

def Store.NoClosure (s : Store) : Prop := ∀ d, ∀ pair ∈ (s.frame d).bindings, pair.2.NoClosure

/-- The procedure gives a value without closures if there are none in its arguments and in the calling scope. -/
structure HostProcedure.AddsNoClosure (h : HostProcedure) : Prop extends KeepsStore h where
  none : ∀ e args s v, (∀ pair ∈ (s.frame e).bindings, pair.2.NoClosure) → (∀ w ∈ args, w.NoClosure) →
    (h e args s).1 = .ok v → v.NoClosure

theorem Primitive.call_noClosure (p : Primitive) {args : List Value} {v : Value} (ha : ∀ w ∈ args, w.NoClosure)
    (hv : p.call args = .ok v) : v.NoClosure := by
  intro c within closure
  obtain ⟨w, mem, inside⟩ := p.drawsOn_call args v c hv closure within
  exact ha w mem c inside closure

theorem Native.call_noClosure {world : World} (hosts : ∀ id, (world.host id).AddsNoClosure) {p : Native}
    {e : ScopeId} {args : List Value} {s : Store} {v : Value} (hb : ∀ pair ∈ (s.frame e).bindings, pair.2.NoClosure)
    (ha : ∀ w ∈ args, w.NoClosure) (hv : (p.call world e args s).1 = .ok v) : v.NoClosure := by
  rcases Native.call_ok hv with ⟨q, _, given⟩ | ⟨id, _, _, given⟩
  · exact q.call_noClosure ha given
  · exact (hosts id).none e args s v hb ha given

/-- The failure is another than getting too deep, and if it is passed on from a host procedure, one has raised it. -/
def World.MayFail (world : World) (f : Failure) : Prop :=
  f ≠ .tooDeep ∧ ∀ kind message, f = .foreign kind message →
    ∃ id e args s, (world.host id e args s).1 = .error ⟨kind, message⟩

theorem World.mayFail_of_own (world : World) {f : Failure} (own : f.IsOwn) : world.MayFail f := by
  constructor
  · rintro rfl
    exact own
  · rintro kind message rfl
    exact own.elim

theorem Signal.FromPrimitive.isOwn {signal : Signal} (own : signal.FromPrimitive) (label : String) :
    (signal.failure label).IsOwn := by
  cases own with
  | arithmetic fault =>
    rw [fault.failure_signal]
    trivial
  | wrongKind | wrongCount | digitLimit => trivial

theorem Native.mayFail_of_call {world : World} {p : Native} {e : ScopeId} {args : List Value} {s : Store}
    {signal : Signal} (hs : (p.call world e args s).1 = .error signal) : world.MayFail (signal.failure p.label) := by
  rcases Native.call_error hs with ⟨q, rfl, raised⟩ | ⟨id, label, error, rfl, rfl, raised⟩
  · exact world.mayFail_of_own ((q.raisesOwn_call args signal raised).isOwn _)
  · rw [Signal.failure]
    split
    · exact world.mayFail_of_own trivial
    · refine ⟨nofun, ?_⟩
      rintro _ _ ⟨⟩
      exact ⟨id, e, args, s, raised⟩

def nested (world : World) (depth : Nat) : Charter Store where
  view := id
  later _ t := t.NoClosure
  store s := s.NoClosure
  scope _ _ := True
  form _ x := x.LambdaFree ∧ x.nesting ≤ depth
  code _ x := x.LambdaFree ∧ x.nesting < depth
  value _ v := v.NoClosure
  failure := world.MayFail

variable {world : World}

theorem nested_lasts (world : World) (depth : Nat) : (nested world depth).Lasts where
  refl hs := hs
  trans _ next := next
  store later := later
  scope _ _ := trivial
  form _ hx := hx
  code _ hx := hx
  value _ hv := hv

theorem nested_kept (hosts : ∀ id, (world.host id).AddsNoClosure) (depth : Nat) :
    (nested world depth).Kept world where
  toLasts := nested_lasts world depth
  forms hx := ⟨hx.1, Nat.le_of_lt hx.2⟩
  item hx mem := ⟨hx.1.within (.item mem .here), Nat.lt_of_lt_of_le (Value.nesting_lt_of_mem mem) hx.2⟩
  literal hx := hx.1.noClosure
  bool _ := Value.IsPlain.noClosure trivial
  text _ := Value.IsPlain.noClosure trivial
  unspecified := Value.IsPlain.noClosure trivial
  lookup hs _ hv := Store.bound_lookup? hs hv
  define hs _ _ hv := ⟨_, rfl, Store.bound_define hs _ _ hv, trivial⟩
  assign hs _ _ hv _ := ⟨_, rfl, Store.bound_define hs _ _ hv, trivial⟩
  closure _ _ hx _ := ((hx.1 _ .here).2 rfl).elim
  body hv := (hv _ .here (.intro _ _ _ _)).elim
  enter hs _ _ values := ⟨_, rfl, Store.bound_addFrame hs values, trivial⟩
  native {_ e _} _ hs _ ha := (nested_lasts world depth).keptBy (fun id => (hosts id).toKeepsStore) hs
    (fun _ hv => Native.call_noClosure hosts (hs e) ha hv) fun _ => Native.mayFail_of_call
  own _ own := world.mayFail_of_own own

theorem nested_keeps (hosts : ∀ id, (world.host id).AddsNoClosure) (depth : Nat) :
    (nested world depth).Keeps (evaluate world depth) := by
  -- The charter goes with the depth: what is evaluated inside a form is nested less deep than the form.
  induction depth with
  | zero => exact fun _ _ hx => (Nat.not_lt_zero _ hx.2).elim
  | succ depth ih => exact fun hs he hx => (nested_kept hosts depth).evaluateStep ih hs he ⟨hx.1, Nat.le_of_lt_succ hx.2⟩

/-- Where neither the expression nor a bound value has a closure or could make one, an evaluation that may nest one
deeper than the lists of the expression ends in a value or in a failure other than getting too deep, whatever the scope.
However it ends, no bound value has a closure then. -/
theorem evaluate_not_tooDeep (world : World) (hosts : ∀ id, (world.host id).AddsNoClosure) (x : Value) (e : ScopeId)
    (s : Store) (code : x.LambdaFree) (bound : s.NoClosure) (depth : Nat) (enough : x.nesting + 1 ≤ depth) :
    ((∃ v, ((evaluate world depth x e).run s).1 = .ok v ∧ v.NoClosure) ∨
      ∃ f, ((evaluate world depth x e).run s).1 = .error f ∧ world.MayFail f) ∧
    ((evaluate world depth x e).run s).2.NoClosure := by
  obtain ⟨t, closureFree, left, value, failure⟩ :=
    (nested_keeps hosts depth bound (e := e) trivial ⟨code, enough⟩).ends
  refine ⟨?_, (show ((evaluate world depth x e).run s).2 = t from left) ▸ closureFree⟩
  cases result : ((evaluate world depth x e).run s).1 with
  | ok v => exact .inl ⟨v, rfl, value v result⟩
  | error f => exact .inr ⟨f, rfl, failure f result⟩

theorem HostProcedure.arguments_addsNoClosure : HostProcedure.arguments.AddsNoClosure where
  keeps _ _ _ := rfl
  none := by
    rintro e args s _ _ ha ⟨⟩
    exact Value.noClosure_list.2 ha

theorem evaluate_not_tooDeep_of_let :
    let world : World := ⟨true, fun _ => HostProcedure.arguments⟩
    let ask : Value := .list [.named "ask", .named "n", .named "m"]
    let x : Value := .list [.named "let", .list [.list [.named "n", .list [.named "list", .named "m"]]],
      .list [.named "set!", .named "m", ask]]
    let s : Store := ⟨#[⟨[(⟨"m"⟩, .int 1), (⟨"list"⟩, .native (.primitive .list)),
      (⟨"ask"⟩, .native (.host 0 "ask"))], none⟩], 0⟩
    x.nesting = 4 ∧ ((evaluate world 5 x 0).run s).1 = .ok .unspecified ∧
      (((evaluate world 5 x 0).run s).2.frame 0).bindings.get? ⟨"m"⟩ = some (.list [.list [.int 1], .int 1]) ∧
      ((∃ v, ((evaluate world 5 x 0).run s).1 = .ok v ∧ v.NoClosure) ∨
        ∃ f, ((evaluate world 5 x 0).run s).1 = .error f ∧ world.MayFail f) ∧
      ((evaluate world 5 x 0).run s).2.NoClosure := by
  intro world ask x s
  have name : ∀ n, (Value.named n).LambdaFree := fun n => Value.IsPlain.lambdaFree trivial
  have code : x.LambdaFree := by simp [x, ask, Value.lambdaFree_list, Value.IsLambda, Keyword.name, name]
  have bound : s.NoClosure := by
    intro d pair mem
    cases d with
    | zero =>
      have plain : pair.2.IsPlain := by
        change pair ∈ [_, _, _] at mem
        simp only [List.mem_cons, List.not_mem_nil, or_false] at mem
        rcases mem with rfl | rfl | rfl <;> trivial
      exact plain.noClosure
    | succ d => cases mem
  refine ⟨rfl, rfl, rfl, evaluate_not_tooDeep world (fun _ => HostProcedure.arguments_addsNoClosure) x 0 s code bound 5 ?_⟩
  exact Nat.le_refl 5

end MicroScheme
