import MicroScheme.Proofs.Evaluation.Discipline
import MicroScheme.Proofs.Value.Closure

set_option autoImplicit false

/-!
Well-formed stores: scopes lie in scopes made before them, no scope binds a name twice, and every closure in a
bound value has captured a scope that there is. They are closed if moreover each of these closures has a number that
has been given out. Main statements: the chain of a scope then ends at a scope that lies in no other
(`WellFormed.chain_outward`), and evaluation keeps stores closed (`closed_kept`).
-/

namespace MicroScheme

abbrev Store.Covers (s : Store) (v : Value) : Prop := v.CapturesOnly (· < s.frames.size)

/-- All closures in the value have numbers that the store has given out, and have captured scopes of the store. -/
abbrev Store.Admits (s : Store) (v : Value) : Prop := v.MadeOf (· < s.closures) (· < s.frames.size)

structure Store.WellFormed (s : Store) : Prop where
  outer : ∀ d o, (s.frame d).outer = some o → o < d
  names : ∀ d, (s.frame d).bindings.names.Nodup
  values : ∀ d, ∀ pair ∈ (s.frame d).bindings, s.Covers pair.2

structure Store.Closed (s : Store) : Prop extends Store.WellFormed s where
  numbers : ∀ d, ∀ pair ∈ (s.frame d).bindings, pair.2.MadeOf (· < s.closures) fun _ => True

structure Store.Precedes (s t : Store) : Prop where
  size : s.frames.size ≤ t.frames.size
  closures : s.closures ≤ t.closures

/-- The scopes from a scope outward, up to one that lies in no other. -/
inductive Store.Outward (s : Store) : ScopeId → List ScopeId → Prop where
  | last {e : ScopeId} : (s.frame e).outer = none → Outward s e [e]
  | step {e o : ScopeId} {ds : List ScopeId} : (s.frame e).outer = some o → Outward s o ds → Outward s e (e :: ds)

namespace Store

variable {s t : Store} {e : ScopeId}

theorem Precedes.refl (s : Store) : s.Precedes s := ⟨Nat.le_refl _, Nat.le_refl _⟩

theorem Precedes.trans {s t u : Store} (first : s.Precedes t) (next : t.Precedes u) : s.Precedes u :=
  ⟨Nat.le_trans first.size next.size, Nat.le_trans first.closures next.closures⟩

theorem precedes_define (s : Store) (d : ScopeId) (n : Symbol) (v : Value) : s.Precedes (s.define d n v) :=
  ⟨Nat.le_of_eq (size_define s d n v).symm, Nat.le_refl _⟩

theorem precedes_addFrame (s : Store) (f : Frame) : s.Precedes (s.addFrame f) :=
  ⟨Nat.le_of_lt (size_addFrame s f ▸ Nat.lt_succ_self _), Nat.le_refl _⟩

theorem Admits.mono {v : Value} (h : s.Admits v) (later : s.Precedes t) : t.Admits v :=
  Value.MadeOf.mono h (fun _ hid => Nat.lt_of_lt_of_le hid later.closures) fun _ hd =>
    Nat.lt_of_lt_of_le hd later.size

namespace WellFormed

theorem chain_outward (h : s.WellFormed) (he : e < s.frames.size) : s.Outward e (s.chain e) := by
  have chains : ∀ fuel e, e < fuel → s.Outward e (s.chainFrom fuel e) := by
    intro fuel
    induction fuel with
    | zero => exact fun e he => absurd he (Nat.not_lt_zero e)
    | succ fuel ih =>
      intro e he
      rw [chainFrom]
      cases ho : (s.frame e).outer with
      | none => exact .last ho
      | some o => exact .step ho (ih o (Nat.lt_of_lt_of_le (h.outer e o ho) (Nat.le_of_lt_succ he)))
  exact chains _ e he

end WellFormed

namespace Closed

theorem of_admits (outer : ∀ d o, (s.frame d).outer = some o → o < d)
    (names : ∀ d, (s.frame d).bindings.names.Nodup)
    (admits : ∀ d, ∀ pair ∈ (s.frame d).bindings, s.Admits pair.2) : s.Closed where
  outer := outer
  names := names
  values d pair mem := (admits d pair mem).capturesOnly
  numbers d pair mem := Value.MadeOf.mono (admits d pair mem) (fun _ => id) fun _ _ => trivial

theorem admits (h : s.Closed) (d : ScopeId) : ∀ pair ∈ (s.frame d).bindings, s.Admits pair.2 :=
  fun pair mem id formals body c within =>
    ⟨(h.numbers d pair mem id formals body c within).1, h.values d pair mem c ⟨id, formals, body, within⟩⟩

theorem define (h : s.Closed) (d : ScopeId) (n : Symbol) {v : Value} (hv : s.Admits v) : (s.define d n v).Closed := by
  have later := precedes_define s d n v
  refine of_admits (fun c o ho => ?_) (fun c => ?_)
    (bound_define (fun c pair mem => (h.admits c pair mem).mono later) d n (Admits.mono hv later))
  · rw [outer_define] at ho
    exact h.outer c o ho
  · rw [frame_define]
    split
    · exact Bindings.nodup_put v (h.names c)
    · exact h.names c

theorem addFrame (h : s.Closed) {f : Frame} (outer : ∀ o, f.outer = some o → o < s.frames.size)
    (names : f.bindings.names.Nodup) (values : ∀ pair ∈ f.bindings, s.Admits pair.2) : (s.addFrame f).Closed := by
  have later := precedes_addFrame s f
  refine of_admits (fun d o ho => ?_) (fun d => ?_)
    (bound_addFrame (fun d pair mem => (h.admits d pair mem).mono later) fun pair mem => (values pair mem).mono later)
  · rw [frame_addFrame] at ho
    split at ho
    · next new => exact Nat.lt_of_lt_of_eq (outer o ho) new.symm
    · exact h.outer d o ho
  · rw [frame_addFrame]
    split
    · exact names
    · exact h.names d

theorem lookup? (h : s.Closed) {n : Symbol} {v : Value} (hv : s.lookup? e n = some v) : s.Admits v :=
  bound_lookup? h.admits hv

end Closed

end Store

section

variable {numbers : Nat → Prop} {scopes : ScopeId → Prop}

theorem Primitive.call_madeOf (p : Primitive) {args : List Value} {v : Value}
    (ha : ∀ w ∈ args, w.MadeOf numbers scopes) (hv : p.call args = .ok v) : v.MadeOf numbers scopes := by
  intro id formals body d within
  obtain ⟨w, mem, inside⟩ := p.drawsOn_call args v _ hv (.intro id formals body d) within
  exact ha w mem id formals body d inside

theorem Native.call_madeOf {world : World} (hosts : ∀ id, (world.host id).Confined) {p : Native} {e : ScopeId}
    {args : List Value} {s : Store} {v : Value} (hb : ∀ pair ∈ (s.frame e).bindings, pair.2.MadeOf numbers scopes)
    (ha : ∀ w ∈ args, w.MadeOf numbers scopes) (hv : (p.call world e args s).1 = .ok v) :
    v.MadeOf numbers scopes := by
  rcases Native.call_ok hv with ⟨q, _, given⟩ | ⟨id, _, _, given⟩
  · exact q.call_madeOf ha given
  · exact (hosts id).among numbers scopes e args s v hb ha given

theorem SpecialForm.sequence_madeOf {xs : List Value} (h : ∀ x ∈ xs, x.MadeOf numbers scopes) :
    (SpecialForm.sequence xs).MadeOf numbers scopes := by
  unfold SpecialForm.sequence
  split
  · exact h _ List.mem_cons_self
  · exact Value.madeOf_list.2 (List.forall_mem_cons.2 ⟨Value.IsPlain.madeOf trivial, h⟩)

end

/-- Code runs in scopes of a closed store, and all closures belong to the store. -/
def closed : Discipline where
  store s := s.Closed
  scope s e := e < s.frames.size
  code s x := s.Admits x
  value s v := s.Admits v

theorem closed_later {s t : Store} (ht : t.Closed) (later : s.Precedes t) : closed.Later s t :=
  ⟨ht, fun he => Nat.lt_of_lt_of_le he later.size, fun hx => hx.mono later, fun hv => hv.mono later⟩

theorem closed_define {s : Store} (hs : s.Closed) (d : ScopeId) (n : Symbol) {v : Value} (hv : s.Admits v) :
    closed.Later s (s.define d n v) :=
  closed_later (hs.define d n hv) (Store.precedes_define s d n v)

theorem closed_addFrame {s : Store} (hs : s.Closed) {f : Frame} (outer : ∀ o, f.outer = some o → o < s.frames.size)
    (names : f.bindings.names.Nodup) (values : ∀ pair ∈ f.bindings, s.Admits pair.2) : closed.Later s (s.addFrame f) :=
  closed_later (hs.addFrame outer names values) (Store.precedes_addFrame s f)

theorem closed_kept {world : World} (hosts : ∀ id, (world.host id).Confined) : closed.charter.Kept world where
  toLasts := closed.lasts
  forms := id
  item hx mem := Value.madeOf_list.1 hx _ mem
  literal hx := hx
  bool _ := Value.IsPlain.madeOf trivial
  text _ := Value.IsPlain.madeOf trivial
  unspecified := Value.IsPlain.madeOf trivial
  lookup hs _ hv := hs.lookup? hv
  define hs _ _ hv := Discipline.moves (closed_define hs _ _ hv) trivial
  assign hs _ _ hv _ := Discipline.moves (closed_define hs _ _ hv) trivial
  closure {s e _ x xs _} hs he hx _ := by
    have later : s.Precedes { s with closures := s.closures + 1 } := ⟨Nat.le_refl _, Nat.le_succ _⟩
    have parts := Value.madeOf_list.1 (Store.Admits.mono hx later)
    have body := SpecialForm.sequence_madeOf fun y mem =>
      parts y (List.mem_cons_of_mem _ (List.mem_cons_of_mem _ mem))
    exact Discipline.moves
      (closed_later (.of_admits hs.outer hs.names fun d pair mem => (hs.admits d pair mem).mono later) later)
      (Value.madeOf_closure.2 ⟨⟨Nat.lt_succ_self _, he⟩, body⟩)
  body hv := (Value.madeOf_closure.1 hv).2
  enter {s d bound} hs hd names values := by
    have outer : d < s.frames.size := by
      rcases hd with running | ⟨_, _, _, captured⟩
      · exact running
      · exact (Value.madeOf_closure.1 captured).1.2
    refine Discipline.moves (closed_addFrame hs ?_ names values) ?_
    · rintro o same
      exact Option.some.inj same ▸ outer
    · change s.frames.size < _
      rw [Store.size_addFrame]
      exact Nat.lt_succ_self _
  native {s e _} _ hs _ ha := Discipline.keptBy (fun id => (hosts id).toKeepsStore) hs fun _ hv =>
    Native.call_madeOf hosts (hs.admits e) ha hv
  own _ _ := trivial

end MicroScheme
