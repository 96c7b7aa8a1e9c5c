import Mathlib.Data.List.Basic
import MicroScheme.Proofs.Evaluation.Discipline

set_option autoImplicit false

namespace MicroScheme

/-- From the first store to the second, scope `e` may have gained names at the end; no other scope that there was
has gained or lost any, and each has the same scope around it. -/
structure Store.Grows (e : ScopeId) (s t : Store) : Prop where
  size : s.frames.size ≤ t.frames.size
  outer : ∀ d < s.frames.size, (t.frame d).outer = (s.frame d).outer
  others : ∀ d < s.frames.size, d ≠ e → (t.frame d).bindings.names = (s.frame d).bindings.names
  current : (s.frame e).bindings.names <+: (t.frame e).bindings.names

namespace Store.Grows

variable {s t : Store} {e d : ScopeId}

theorem refl (e : ScopeId) (s : Store) : Store.Grows e s s :=
  ⟨Nat.le_refl _, fun _ _ => rfl, fun _ _ _ => rfl, List.prefix_refl _⟩

theorem names_define_extends (t : Store) (e d : ScopeId) (n : Symbol) (v : Value) :
    (t.frame d).bindings.names <+: ((t.define e n v).frame d).bindings.names := by
  rw [frame_define]
  split
  · rw [Bindings.names_put]
    split
    · exact List.prefix_refl _
    · exact List.prefix_append _ _
  · exact List.prefix_refl _

theorem names_define_owned (t : Store) (e d : ScopeId) {n : Symbol} (v : Value)
    (owned : n ∈ (t.frame e).bindings.names) :
    ((t.define e n v).frame d).bindings.names = (t.frame d).bindings.names := by
  rw [frame_define]
  split
  · next same =>
    rw [same.1] at owned
    rw [Bindings.names_put, if_pos owned]
  · rfl

theorem define (h : Store.Grows e s t) (here : d = e ∨ s.frames.size ≤ d) (n : Symbol) (v : Value) :
    Store.Grows e s (t.define d n v) where
  size := by
    rw [size_define]
    exact h.size
  outer c hc := by
    rw [outer_define]
    exact h.outer c hc
  others c hc hne := by
    have different : d ≠ c := by
      rintro rfl
      rcases here with same | new
      · exact hne same
      · exact Nat.not_le_of_lt hc new
    rw [frame_define, if_neg fun both => different both.1]
    exact h.others c hc hne
  current := h.current.trans (names_define_extends t d e n v)

theorem assign (h : Store.Grows e s t) {n : Symbol} (v : Value) (owned : n ∈ (t.frame d).bindings.names) :
    Store.Grows e s (t.define d n v) where
  size := by
    rw [size_define]
    exact h.size
  outer c hc := by
    rw [outer_define]
    exact h.outer c hc
  others c hc hne := by
    rw [names_define_owned t d c v owned]
    exact h.others c hc hne
  current := by
    rw [names_define_owned t d e v owned]
    exact h.current

theorem addFrame (h : Store.Grows e s t) (f : Frame) : Store.Grows e s (t.addFrame f) := by
  have old : ∀ c < s.frames.size, (t.addFrame f).frame c = t.frame c := by
    intro c hc
    have hne : c ≠ t.nextScope := Nat.ne_of_lt (Nat.lt_of_lt_of_le hc h.size)
    rw [frame_addFrame, if_neg hne]
  refine ⟨?_, fun c hc => ?_, fun c hc hne => ?_, h.current.trans ?_⟩
  · rw [size_addFrame]
    exact Nat.le_succ_of_le h.size
  · rw [old c hc]
    exact h.outer c hc
  · rw [old c hc]
    exact h.others c hc hne
  · rw [frame_addFrame]
    split
    · next fresh =>
      rw [frame_of_ge (Nat.le_of_eq fresh.symm)]
      exact List.nil_prefix
    · exact List.prefix_refl _

end Store.Grows

/-- Code runs in one scope of a store or in scopes that are made later. -/
def growth (e : ScopeId) (s : Store) : Discipline where
  store := Store.Grows e s
  scope _ d := d = e ∨ s.frames.size ≤ d
  code _ _ := True
  value _ _ := True

theorem growth_kept {world : World} (hosts : ∀ id, (world.host id).KeepsStore) (e : ScopeId) (s : Store) :
    (growth e s).charter.Kept world where
  toLasts := (growth e s).lasts
  forms := id
  item _ _ := trivial
  literal _ := trivial
  bool _ := trivial
  text _ := trivial
  unspecified := trivial
  lookup _ _ _ := trivial
  define ht here _ _ := Discipline.moves ⟨Store.Grows.define ht here _ _, id, id, id⟩ trivial
  assign ht _ _ _ owner := Discipline.moves ⟨Store.Grows.assign ht _ (Store.owner?_binds owner), id, id, id⟩ trivial
  closure ht _ _ _ := Discipline.moves ⟨⟨ht.size, ht.outer, ht.others, ht.current⟩, id, id, id⟩ trivial
  body _ := trivial
  enter ht _ _ _ := Discipline.moves ⟨Store.Grows.addFrame ht _, id, id, id⟩ (.inr ht.size)
  native _ ht _ _ := Discipline.keptBy hosts ht fun _ _ => trivial
  own _ _ := trivial

/-- However an evaluation ends, it adds names to the scope in which it runs and to no other scope. -/
theorem evaluate_grows (world : World) (hosts : ∀ id, (world.host id).KeepsStore) (depth : Nat) (x : Value) (e : ScopeId)
    (s : Store) : Store.Grows e s ((evaluate world depth x e).run s).2 :=
  (Discipline.evaluate (growth_kept hosts e s) depth (Store.Grows.refl e s) (.inl rfl) trivial).1.store

theorem evaluate_grows_of_fault :
    let world : World := ⟨true, fun _ => .raising ⟨.key, "gone"⟩⟩
    let body : Value := .list [.named "begin", .list [.named "define", .named "m", .int 2],
      .list [.named "set!", .named "n", .named "m"], .list [.named "boom"]]
    let x : Value := .list [.named "begin", .list [.named "define", .named "k", .int 3],
      .list [.list [.named "lambda", .list [], body]]]
    let s : Store := ⟨#[⟨[(⟨"n"⟩, .int 1), (⟨"boom"⟩, .native (.host 0 "boom"))], none⟩], 0⟩
    let t : Store := ⟨#[⟨[(⟨"n"⟩, .int 2), (⟨"boom"⟩, .native (.host 0 "boom")), (⟨"k"⟩, .int 3)], none⟩,
      ⟨[(⟨"m"⟩, .int 2)], some 0⟩], 1⟩
    let ended : Except Failure Value × Store := (evaluate world 6 x 0).run s
    ended = (.error (.hostFault "boom" "gone"), t) ∧ Store.Grows 0 s t := by
  intro world body x s t ended
  have run : ended = (.error (.hostFault "boom" "gone"), t) := by decide +kernel
  have grows : Store.Grows 0 s ended.2 := evaluate_grows world (fun _ => ⟨fun _ _ _ => rfl⟩) 6 x 0 s
  rw [run] at grows
  exact ⟨run, grows⟩

end MicroScheme
