import MicroScheme.Proofs.Evaluation.Discipline
import MicroScheme.Proofs.Value.Closure

set_option autoImplicit false

namespace MicroScheme

namespace Value

/-- A list that would be a definition or an assignment if it were evaluated. -/
def IsWrite : Value → Prop
  | .list (.symbol n :: _) => n.name = Keyword.define.name ∨ n.name = Keyword.assign.name
  | _ => False

/-- No such list occurs in the value, the bodies of its closures included. -/
def ReadOnly (x : Value) : Prop := ∀ c : Value, c.Within x → ¬ c.IsWrite

/-- The bodies of all closures in the value are read-only. The lists in it that are no code need not be. -/
def RunsReadOnly (v : Value) : Prop :=
  ∀ id formals body d, (Value.closure id formals body d).Within v → body.ReadOnly

theorem ReadOnly.within {c x : Value} (h : x.ReadOnly) (hc : c.Within x) : c.ReadOnly :=
  fun w hw => h w (hw.trans hc)

theorem ReadOnly.runsReadOnly {x : Value} (h : x.ReadOnly) : x.RunsReadOnly :=
  fun _ _ _ _ hc => h.within (Within.trans (.body .here) hc)

theorem readOnly_list {items : List Value} :
    (Value.list items).ReadOnly ↔ ¬ (Value.list items).IsWrite ∧ ∀ x ∈ items, x.ReadOnly := by
  constructor
  · exact fun h => ⟨h _ .here, fun x mem => h.within (.item mem .here)⟩
  · rintro ⟨head, parts⟩ c hc
    cases hc with
    | here => exact head
    | item mem hc => exact parts _ mem c hc

theorem IsPlain.readOnly {v : Value} (h : v.IsPlain) : v.ReadOnly := by
  intro c hc
  cases hc with
  | here =>
    cases v with
    | list items => exact h.elim
    | number | bool | text | symbol | unspecified | closure | native => exact id
  | item => exact h.elim
  | body => exact h.elim

theorem IsPlain.runsReadOnly {v : Value} (h : v.IsPlain) : v.RunsReadOnly := h.readOnly.runsReadOnly

theorem runsReadOnly_of_closures {v : Value}
    (h : ∀ c : Value, c.IsClosure → c.Within v → ∃ w : Value, w.RunsReadOnly ∧ c.Within w) : v.RunsReadOnly := by
  intro id formals body d hc
  obtain ⟨w, readOnly, within⟩ := h _ (.intro id formals body d) hc
  exact readOnly id formals body d within

end Value

theorem SpecialForm.sequence_readOnly {xs : List Value} (h : ∀ x ∈ xs, x.ReadOnly) :
    (SpecialForm.sequence xs).ReadOnly := by
  unfold SpecialForm.sequence
  split
  · exact h _ List.mem_cons_self
  · refine Value.readOnly_list.2 ⟨?_, List.forall_mem_cons.2 ⟨Value.IsPlain.readOnly trivial, h⟩⟩
    simp [Value.IsWrite, Keyword.name]

/-- Every scope of the first store is in the second, with the same symbols in the same order, the same values and the
same scope around it. -/
structure Store.Untouched (s t : Store) : Prop where
  size : s.frames.size ≤ t.frames.size
  frames : ∀ d < s.frames.size, t.frame d = s.frame d

theorem Store.Untouched.addFrame {s t : Store} (h : s.Untouched t) (f : Frame) : s.Untouched (t.addFrame f) where
  size := by
    rw [size_addFrame]
    exact Nat.le_succ_of_le h.size
  frames d hd := by
    have old : d ≠ t.nextScope := Nat.ne_of_lt (Nat.lt_of_lt_of_le hd h.size)
    rw [frame_addFrame, if_neg old]
    exact h.frames d hd

def readOnly (s : Store) : Discipline where
  store t := s.Untouched t ∧ ∀ d, ∀ pair ∈ (t.frame d).bindings, pair.2.RunsReadOnly
  scope _ _ := True
  code _ x := x.ReadOnly
  value _ v := v.RunsReadOnly

theorem readOnly_kept {world : World} (hosts : ∀ id, (world.host id).MakesNoClosure) (s : Store) :
    (readOnly s).charter.Kept world where
  toLasts := (readOnly s).lasts
  forms := id
  item hx mem := hx.within (.item mem .here)
  literal hx := hx.runsReadOnly
  bool _ := Value.IsPlain.runsReadOnly trivial
  text _ := Value.IsPlain.runsReadOnly trivial
  unspecified := Value.IsPlain.runsReadOnly trivial
  lookup ht _ hv := Store.bound_lookup? ht.2 hv
  define _ _ hx _ := (hx _ .here (.inl rfl)).elim
  assign _ _ hx _ _ := (hx _ .here (.inr rfl)).elim
  closure {t e params x xs formals} ht _ hx _ := by
    refine Discipline.moves ⟨⟨⟨ht.1.size, ht.1.frames⟩, ht.2⟩, id, id, id⟩ ?_
    have body : (SpecialForm.sequence (x :: xs)).ReadOnly := SpecialForm.sequence_readOnly fun y mem =>
      hx.within (.item (List.mem_cons_of_mem _ (List.mem_cons_of_mem _ mem)) .here)
    rintro id formals inner d (_ | _ | within)
    · exact body
    · exact body.runsReadOnly id formals inner d within
  body hv := hv _ _ _ _ .here
  enter ht _ _ values :=
    Discipline.moves ⟨⟨ht.1.addFrame _, Store.bound_addFrame ht.2 values⟩, id, id, id⟩ trivial
  native {t e args} p ht _ ha := by
    refine Discipline.keptBy (fun id => (hosts id).toKeepsStore) ht fun v hv => ?_
    refine Value.runsReadOnly_of_closures fun c closure within => ?_
    rcases Native.call_ok hv with ⟨q, _, given⟩ | ⟨id, _, _, given⟩
    · obtain ⟨w, mem, inside⟩ := q.drawsOn_call args v c given closure within
      exact ⟨w, ha w mem, inside⟩
    · rcases (hosts id).drawn e args t v c given closure within with ⟨w, mem, inside⟩ | ⟨pair, mem, inside⟩
      · exact ⟨w, ha w mem, inside⟩
      · exact ⟨pair.2, ht.2 e pair mem, inside⟩
  own _ _ := trivial

/-- Evaluation of code that writes nothing leaves every scope as it was, however it ends. The values that the scopes
bind may hold definitions and assignments, as long as these are not in the body of a closure. -/
theorem evaluate_readOnly (world : World) (hosts : ∀ id, (world.host id).MakesNoClosure) (depth : Nat) (x : Value)
    (e : ScopeId) (s : Store) (code : x.ReadOnly)
    (bound : ∀ d, ∀ pair ∈ (s.frame d).bindings, pair.2.RunsReadOnly) :
    s.Untouched ((evaluate world depth x e).run s).2 := by
  have start : (readOnly s).store s := ⟨⟨Nat.le_refl _, fun _ _ => rfl⟩, bound⟩
  exact (Discipline.evaluate (readOnly_kept hosts s) depth start (e := e) trivial code).1.store.1

theorem evaluate_readOnly_of_data :
    let definition : Value := .list [.named "define", .named "n", .int 2]
    let assignment : Value := .list [.named "set!", .named "n", .int 3]
    let world : World := ⟨true, fun _ => .constant definition⟩
    let user : Value := .list [.named "lambda", .list [.named "k"], .list [.named "list", .named "k", .named "m"]]
    let x : Value := .list [.named "let", .list [.list [.named "m", .list [.named "make"]]], .list [user, .named "n"]]
    let s : Store := ⟨#[⟨[(⟨"n"⟩, assignment), (⟨"make"⟩, .native (.host 0 "make")),
      (⟨"list"⟩, .native (.primitive .list))], none⟩], 0⟩
    ((evaluate world 6 x 0).run s).1 = .ok (.list [assignment, definition]) ∧
      s.Untouched ((evaluate world 6 x 0).run s).2 := by
  intro definition assignment world user x s
  have name : ∀ n, (Value.named n).ReadOnly := fun n => Value.IsPlain.readOnly trivial
  have bare : ∀ n k, (Value.list [.named n, .named "n", .int k]).MadeOf (fun _ => False) fun _ => False := by
    intro n k
    refine Value.madeOf_list.2 fun item mem => Value.IsPlain.madeOf ?_
    simp only [List.mem_cons, List.not_mem_nil, or_false] at mem
    rcases mem with rfl | rfl | rfl <;> trivial
  have hosts : ∀ id, (world.host id).MakesNoClosure := fun _ =>
    (HostProcedure.constant_seesFrame (Value.noClosure_iff.2 (bare "define" 2))).toMakesNoClosure
  have code : x.ReadOnly := by simp [x, user, Value.readOnly_list, Value.IsWrite, Keyword.name, name]
  refine ⟨rfl, evaluate_readOnly world hosts 6 x 0 s code fun d pair mem => ?_⟩
  cases d with
  | zero =>
    rcases List.mem_cons.1 mem with rfl | mem
    · exact fun id formals body d within => (bare "set!" 3 id formals body d within).1.elim
    · have native : pair.2.IsPlain := by
        simp only [List.mem_cons, List.not_mem_nil, or_false] at mem
        rcases mem with rfl | rfl <;> trivial
      exact native.runsReadOnly
  | succ d => cases mem

end MicroScheme
