import MicroScheme.Native

set_option autoImplicit false

namespace MicroScheme

namespace Value

@[elab_as_elim, induction_eliminator]
theorem induction {motive : Value → Prop} (number : ∀ n, motive (.number n)) (bool : ∀ b, motive (.bool b))
    (text : ∀ s, motive (.text s)) (symbol : ∀ s, motive (.symbol s))
    (list : ∀ items, (∀ x ∈ items, motive x) → motive (.list items)) (unspecified : motive .unspecified)
    (closure : ∀ id formals body scope, motive body → motive (.closure id formals body scope))
    (native : ∀ p, motive (.native p)) (v : Value) : motive v :=
  Value.rec (motive_1 := motive) (motive_2 := fun items => ∀ x ∈ items, motive x) number bool text symbol list
    unspecified closure native (List.forall_mem_nil _) (fun _ _ first rest => List.forall_mem_cons.2 ⟨first, rest⟩) v

inductive Within (c : Value) : Value → Prop where
  | here : Within c c
  | item {items : List Value} {x : Value} : x ∈ items → Within c x → Within c (.list items)
  | body {id : Nat} {formals : List Symbol} {x : Value} {d : ScopeId} :
    Within c x → Within c (.closure id formals x d)

theorem Within.trans {a b c : Value} (first : Within a b) (next : Within b c) : Within a c := by
  induction next with
  | here => exact first
  | item mem _ ih => exact .item mem ih
  | body _ ih => exact .body ih

inductive IsClosure : Value → Prop where
  | intro (id : Nat) (formals : List Symbol) (body : Value) (d : ScopeId) :
    IsClosure (.closure id formals body d)

/-- A closure in the value has captured the scope. -/
def Captures (v : Value) (d : ScopeId) : Prop :=
  ∃ id formals body, (Value.closure id formals body d).Within v

def CapturesOnly (allowed : ScopeId → Prop) (v : Value) : Prop := ∀ d, v.Captures d → allowed d

/-- All closures in the value have numbers and captured scopes with these properties. -/
def MadeOf (numbers : Nat → Prop) (scopes : ScopeId → Prop) (v : Value) : Prop :=
  ∀ id formals body d, (Value.closure id formals body d).Within v → numbers id ∧ scopes d

variable {numbers : Nat → Prop} {allowed : ScopeId → Prop}

theorem MadeOf.mono {more : Nat → Prop} {wider : ScopeId → Prop} {v : Value} (h : v.MadeOf numbers allowed)
    (add : ∀ i, numbers i → more i) (widen : ∀ d, allowed d → wider d) : v.MadeOf more wider :=
  fun id formals body d hc => ⟨add id (h id formals body d hc).1, widen d (h id formals body d hc).2⟩

theorem MadeOf.within {c v : Value} (h : v.MadeOf numbers allowed) (hc : c.Within v) : c.MadeOf numbers allowed :=
  fun id formals body d within => h id formals body d (within.trans hc)

theorem madeOf_of_closures {v : Value} (h : ∀ c : Value, c.IsClosure → c.Within v → c.MadeOf numbers allowed) :
    v.MadeOf numbers allowed :=
  fun id formals body d hc => h _ (.intro id formals body d) hc id formals body d .here

theorem madeOf_list {items : List Value} :
    (Value.list items).MadeOf numbers allowed ↔ ∀ x ∈ items, x.MadeOf numbers allowed := by
  constructor
  · exact fun h x hx => h.within (.item hx .here)
  · intro h id formals body d hc
    cases hc with
    | item mem hc => exact h _ mem id formals body d hc

theorem madeOf_closure {id : Nat} {formals : List Symbol} {body : Value} {d : ScopeId} :
    (Value.closure id formals body d).MadeOf numbers allowed ↔
      (numbers id ∧ allowed d) ∧ body.MadeOf numbers allowed := by
  constructor
  · exact fun h => ⟨h id formals body d .here, h.within (.body .here)⟩
  · rintro ⟨made, hbody⟩ id formals inner c hc
    cases hc with
    | here => exact made
    | body hc => exact hbody id formals inner c hc

theorem capturesOnly_iff {v : Value} : v.CapturesOnly allowed ↔ v.MadeOf (fun _ => True) allowed := by
  constructor
  · exact fun h id formals body d hc => ⟨trivial, h d ⟨id, formals, body, hc⟩⟩
  · rintro h d ⟨id, formals, body, hc⟩
    exact (h id formals body d hc).2

theorem MadeOf.capturesOnly {v : Value} (h : v.MadeOf numbers allowed) : v.CapturesOnly allowed :=
  capturesOnly_iff.2 (h.mono (fun _ _ => trivial) fun _ => id)

theorem capturesOnly_list {items : List Value} :
    (Value.list items).CapturesOnly allowed ↔ ∀ x ∈ items, x.CapturesOnly allowed := by
  simp only [capturesOnly_iff, madeOf_list]

theorem capturesOnly_closure {id : Nat} {formals : List Symbol} {body : Value} {d : ScopeId} :
    (Value.closure id formals body d).CapturesOnly allowed ↔ allowed d ∧ body.CapturesOnly allowed := by
  simp only [capturesOnly_iff, madeOf_closure, true_and]

def IsPlain : Value → Prop
  | .list _ => False
  | .closure _ _ _ _ => False
  | _ => True

theorem IsPlain.madeOf {v : Value} (h : v.IsPlain) : v.MadeOf numbers allowed := by
  intro id formals body d hc
  cases hc with
  | here => exact h.elim
  | item mem hc => exact h.elim
  | body hc => exact h.elim

theorem IsPlain.capturesOnly {v : Value} (h : v.IsPlain) : v.CapturesOnly allowed :=
  capturesOnly_iff.2 h.madeOf

def NoClosure (v : Value) : Prop := ∀ c : Value, c.Within v → ¬ c.IsClosure

theorem noClosure_iff {v : Value} : v.NoClosure ↔ v.MadeOf (fun _ => False) fun _ => False := by
  constructor
  · exact fun h id formals body d hc => (h _ hc (.intro id formals body d)).elim
  · rintro h _ hc ⟨id, formals, body, d⟩
    exact (h id formals body d hc).1

theorem noClosure_list {items : List Value} : (Value.list items).NoClosure ↔ ∀ x ∈ items, x.NoClosure := by
  simp only [noClosure_iff, madeOf_list]

theorem IsPlain.noClosure {v : Value} (h : v.IsPlain) : v.NoClosure := noClosure_iff.2 h.madeOf

end Value

namespace HostProcedure

structure KeepsStore (h : HostProcedure) : Prop where
  keeps : ∀ e args s, (h e args s).2 = s

/-- Every closure in what the procedure gives was in an argument or in the frame from which it was called. -/
structure MakesNoClosure (h : HostProcedure) : Prop extends KeepsStore h where
  drawn : ∀ e args s v (c : Value), (h e args s).1 = .ok v → c.IsClosure → c.Within v →
    (∃ w ∈ args, c.Within w) ∨ ∃ pair ∈ (s.frame e).bindings, c.Within pair.2

/-- What the procedure gives depends on its arguments and on the frame from which it is called only. -/
structure SeesFrame (h : HostProcedure) : Prop extends MakesNoClosure h where
  sees : ∀ e args s t, s.frame e = t.frame e → (h e args s).1 = (h e args t).1

/-- The closures in what the procedure gives have numbers and scopes from among those in what it is given. -/
structure Confined (h : HostProcedure) : Prop extends KeepsStore h where
  among : ∀ numbers scopes e args s v, (∀ pair ∈ (s.frame e).bindings, pair.2.MadeOf numbers scopes) →
    (∀ w ∈ args, w.MadeOf numbers scopes) → (h e args s).1 = .ok v → v.MadeOf numbers scopes

theorem MakesNoClosure.confined {h : HostProcedure} (makes : h.MakesNoClosure) : h.Confined where
  keeps := makes.keeps
  among numbers scopes e args s v hb ha run id formals body d within := by
    rcases makes.drawn e args s v _ run (.intro id formals body d) within with ⟨w, mem, within⟩ | ⟨pair, mem, within⟩
    · exact ha w mem id formals body d within
    · exact hb pair mem id formals body d within

theorem constant_seesFrame {v : Value} (none : v.NoClosure) : (constant v).SeesFrame where
  keeps _ _ _ := rfl
  drawn e args s w c run closure within := by
    cases run
    exact (none c within closure).elim
  sees _ _ _ _ _ := rfl

theorem arguments_seesFrame : arguments.SeesFrame where
  keeps _ _ _ := rfl
  drawn e args s v c run closure within := by
    cases run
    cases within with
    | here => cases closure
    | item mem within => exact .inl ⟨_, mem, within⟩
  sees _ _ _ _ _ := rfl

end HostProcedure

namespace Primitive

/-- Every closure in a value that the result gives is in one of the arguments. -/
def DrawsOn (args : List Value) (r : Except Signal Value) : Prop :=
  ∀ v (c : Value), r = .ok v → c.IsClosure → c.Within v → ∃ w ∈ args, c.Within w

variable {args : List Value}

theorem drawsOn_plain {v : Value} (plain : v.IsPlain) : DrawsOn args (.ok v) := by
  rintro _ _ ⟨⟩ ⟨id, formals, body, d⟩ within
  have none : v.MadeOf (fun _ => False) fun _ => False := plain.madeOf
  exact (none id formals body d within).1.elim

theorem drawsOn_bind {α : Type} (r : Except Signal α) {k : α → Except Signal Value}
    (rest : ∀ a, DrawsOn args (k a)) : DrawsOn args (r >>= k) := by
  cases r with
  | error signal => exact nofun
  | ok a => exact rest a

theorem drawsOn_carOf (v : Value) : DrawsOn [v] (carOf v) := by
  unfold carOf
  split
  · rintro _ c ⟨⟩ _ within
    exact ⟨_, List.mem_singleton_self _, .item List.mem_cons_self within⟩
  · exact drawsOn_bind _ nofun

theorem drawsOn_cdrOf (v : Value) : DrawsOn [v] (cdrOf v) := by
  unfold cdrOf
  split
  · rintro _ c ⟨⟩ ⟨⟩ within
    cases within with
    | item mem within => exact ⟨_, List.mem_singleton_self _, .item (List.mem_cons_of_mem _ mem) within⟩
  · exact drawsOn_bind _ nofun

theorem drawsOn_consOf (head v : Value) : DrawsOn [head, v] (consOf head v) := by
  unfold consOf
  split
  · rintro _ c ⟨⟩ ⟨⟩ within
    cases within with
    | item mem within =>
      rcases List.mem_cons.1 mem with rfl | mem
      · exact ⟨_, List.mem_cons_self, within⟩
      · exact ⟨_, List.mem_cons_of_mem _ List.mem_cons_self, .item mem within⟩
  · exact drawsOn_bind _ nofun

theorem drawsOn_lengthOf (v : Value) : DrawsOn args (lengthOf v) := by
  unfold lengthOf
  split
  · exact drawsOn_plain trivial
  · exact drawsOn_plain trivial
  · exact drawsOn_bind _ nofun

theorem drawsOn_unary (p : Primitive) {f : Value → Except Signal Value} (each : ∀ v, DrawsOn [v] (f v)) :
    DrawsOn args (unary p f args) := by
  unfold unary
  split
  · exact each _
  · exact nofun

theorem drawsOn_binary (p : Primitive) {f : Value → Value → Except Signal Value}
    (each : ∀ v w, DrawsOn [v, w] (f v w)) : DrawsOn args (binary p f args) := by
  unfold binary
  split
  · exact each _ _
  · exact nofun

theorem drawsOn_reduce (alone : Number → Except ArithmeticFault Number)
    (op : Number → Number → Except ArithmeticFault Number) (p : Primitive) :
    DrawsOn args (reduce alone op p args) := by
  unfold reduce
  split
  · exact nofun
  · exact drawsOn_bind _ fun _ => drawsOn_bind _ fun _ => drawsOn_bind _ fun _ => drawsOn_plain trivial

theorem drawsOn_call (p : Primitive) (args : List Value) : DrawsOn args (p.call args) := by
  cases p with
  | add | multiply => exact drawsOn_bind _ fun _ => drawsOn_bind _ fun _ => drawsOn_plain trivial
  | less | greater => exact drawsOn_bind _ fun _ => drawsOn_plain trivial
  | subtract | divide => exact drawsOn_reduce _ _ _
  | equal => exact drawsOn_plain trivial
  | not => exact drawsOn_unary _ fun _ => drawsOn_plain trivial
  | length => exact drawsOn_unary _ fun v => drawsOn_lengthOf v
  | car => exact drawsOn_unary _ drawsOn_carOf
  | cdr => exact drawsOn_unary _ drawsOn_cdrOf
  | cons => exact drawsOn_binary _ drawsOn_consOf
  | list =>
    rintro _ c ⟨⟩ ⟨⟩ within
    cases within with
    | item mem within => exact ⟨_, mem, within⟩

end Primitive

end MicroScheme
