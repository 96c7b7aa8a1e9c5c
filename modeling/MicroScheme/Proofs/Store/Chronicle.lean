import MicroScheme.Proofs.Store.WellFormed

set_option autoImplicit false

/-!
Chronicles: a store with the evaluations of lambda forms that made its closures, in order. Main statements: evaluation
continues a chronicle, so that every closure it comes across is the one that a single evaluation of a lambda form gave
(`chronicle_kept`), and the evaluation of a lambda form gives a closure with a number of its own
(`Chronicle.Faithful.lt_of_records`).
-/

namespace MicroScheme

/-- An evaluation of a lambda form: its operands, its scope and the store in which it took place. -/
structure Making where
  operands : List Value
  scope : ScopeId
  store : Store

def Making.left (m : Making) : Store := { m.store with closures := m.store.closures + 1 }

def Making.Gives (m : Making) (c : Value) : Prop :=
  (SpecialForm.lambda m.scope m.operands).run m.store = (.ok c, m.left)

structure Chronicle where
  store : Store
  made : List Making

/-- Every closure in the value was given by the evaluation that has its number. -/
def Chronicle.Records (w : Chronicle) (v : Value) : Prop :=
  ∀ id formals body d, (Value.closure id formals body d).Within v →
    ∃ m : Making, w.made[id]? = some m ∧ m.Gives (.closure id formals body d)

/-- The evaluations took place one after the other, in stores that have come before, and all closures in bound values
are recorded. -/
structure Chronicle.Faithful (w : Chronicle) : Prop where
  count : w.made.length = w.store.closures
  times : ∀ (i : Nat) (m : Making), w.made[i]? = some m →
    m.store.closures = i ∧ m.left.Precedes w.store ∧ ∃ c, m.Gives c
  bound : ∀ d, ∀ pair ∈ (w.store.frame d).bindings, w.Records pair.2

structure Chronicle.Continues (w w' : Chronicle) : Prop where
  faithful : w'.Faithful
  made : w.made <+: w'.made
  precedes : w.store.Precedes w'.store

def Chronicle.after (w : Chronicle) (operands : List Value) (e : ScopeId) : Chronicle :=
  ⟨{ w.store with closures := w.store.closures + 1 }, w.made ++ [⟨operands, e, w.store⟩]⟩

theorem SpecialForm.run_lambda {operands : List Value} {e : ScopeId} {s t : Store} {c : Value}
    (run : (lambda e operands).run s = (.ok c, t)) :
    ∃ formals body, c = .closure s.closures formals body e ∧ t = { s with closures := s.closures + 1 } := by
  unfold lambda at run
  split at run
  · split at run
    · cases run
      exact ⟨_, _, rfl, rfl⟩
    · next params _ _ _ _ =>
      unfold Eval.malformedAt at run
      cases hd : params.describe? <;> rw [hd] at run <;> cases run
  · cases run

namespace Making

variable {m : Making} {c c' : Value}

theorem Gives.unique (h : m.Gives c) (h' : m.Gives c') : c = c' :=
  Except.ok.inj (congrArg Prod.fst (h.symm.trans h'))

theorem Gives.number (h : m.Gives c) : ∃ formals body, c = .closure m.store.closures formals body m.scope := by
  obtain ⟨formals, body, same, _⟩ := SpecialForm.run_lambda h
  exact ⟨formals, body, same⟩

end Making

namespace Chronicle

variable {w w' w'' : Chronicle} {v c : Value}

theorem Records.within (h : w.Records v) (within : c.Within v) : w.Records c :=
  fun id formals body d inside => h id formals body d (inside.trans within)

theorem Records.mono (h : w.Records v) (made : w.made <+: w'.made) : w'.Records v := by
  intro id formals body d within
  obtain ⟨m, found, gives⟩ := h id formals body d within
  obtain ⟨more, whole⟩ := made
  refine ⟨m, ?_, gives⟩
  rw [← whole, List.getElem?_append_left (List.getElem?_eq_some_iff.1 found).1]
  exact found

theorem Faithful.refl (h : w.Faithful) : w.Continues w := ⟨h, List.prefix_refl _, Store.Precedes.refl _⟩

theorem Continues.trans (first : w.Continues w') (next : w'.Continues w'') : w.Continues w'' :=
  ⟨next.faithful, first.made.trans next.made, first.precedes.trans next.precedes⟩

theorem Faithful.withStore (h : w.Faithful) {t : Store} (closures : t.closures = w.store.closures)
    (size : w.store.frames.size ≤ t.frames.size) (bound : ∀ d, ∀ pair ∈ (t.frame d).bindings, w.Records pair.2) :
    w.Continues ⟨t, w.made⟩ := by
  have precedes : w.store.Precedes t := ⟨size, Nat.le_of_eq closures.symm⟩
  refine ⟨⟨h.count.trans closures.symm, fun i m found => ?_, bound⟩, List.prefix_refl _, precedes⟩
  obtain ⟨number, before, gives⟩ := h.times i m found
  exact ⟨number, before.trans precedes, gives⟩

theorem Faithful.define (h : w.Faithful) (e : ScopeId) (n : Symbol) (hv : w.Records v) :
    w.Continues ⟨w.store.define e n v, w.made⟩ :=
  h.withStore rfl (Nat.le_of_eq (Store.size_define _ _ _ _).symm) (Store.bound_define h.bound e n hv)

theorem Faithful.addFrame (h : w.Faithful) {f : Frame} (hf : ∀ pair ∈ f.bindings, w.Records pair.2) :
    w.Continues ⟨w.store.addFrame f, w.made⟩ :=
  h.withStore rfl (Store.precedes_addFrame w.store f).size (Store.bound_addFrame h.bound hf)

theorem made_prefix_after (w : Chronicle) (operands : List Value) (e : ScopeId) :
    w.made <+: (w.after operands e).made :=
  List.prefix_append _ _

/-- The evaluation of a lambda form continues the chronicle by one entry. -/
theorem Faithful.after (h : w.Faithful) {operands : List Value} {e : ScopeId}
    (gives : ∃ c, (Making.mk operands e w.store).Gives c) : w.Continues (w.after operands e) := by
  have made := w.made_prefix_after operands e
  have precedes : w.store.Precedes (w.after operands e).store := ⟨Nat.le_refl _, Nat.le_succ _⟩
  refine ⟨⟨?_, fun i m found => ?_, fun d pair mem => (h.bound d pair mem).mono made⟩, made, precedes⟩
  · exact (List.length_append).trans (congrArg (· + 1) h.count)
  · rcases Nat.lt_or_ge i w.made.length with old | new
    · obtain ⟨number, before, given⟩ := h.times i m ((List.getElem?_append_left old).symm.trans found)
      exact ⟨number, before.trans precedes, given⟩
    · have last := (List.getElem?_append_right new).symm.trans found
      have here : i - w.made.length < 1 := (List.getElem?_eq_some_iff.1 last).1
      obtain rfl : i = w.made.length := Nat.le_antisymm (Nat.sub_eq_zero_iff_le.1 (Nat.lt_one_iff.1 here)) new
      rw [Nat.sub_self] at last
      cases last
      exact ⟨h.count.symm, Store.Precedes.refl _, gives⟩

theorem Faithful.lt_of_records (h : w.Faithful) {id : Nat} {formals : List Symbol} {body : Value} {d : ScopeId}
    (recorded : w.Records (.closure id formals body d)) : id < w.store.closures := by
  obtain ⟨m, found, _⟩ := recorded id formals body d .here
  exact h.count ▸ (List.getElem?_eq_some_iff.1 found).1

theorem Faithful.source (h : w.Faithful) (closure : c.IsClosure) (recorded : w.Records c) :
    ∃ (i : Nat) (m : Making), w.made[i]? = some m ∧ m.Gives c ∧
      ∀ (j : Nat) (m' : Making), w.made[j]? = some m' → m'.Gives c → j = i := by
  cases closure with
  | intro id formals body d =>
    obtain ⟨m, found, gives⟩ := recorded id formals body d .here
    refine ⟨id, m, found, gives, fun j m' found' gives' => ?_⟩
    obtain ⟨_, _, same⟩ := gives'.number
    cases same
    exact (h.times j m' found').1.symm

theorem Records.unique {id : Nat} {formals formals' : List Symbol} {body body' : Value} {d d' : ScopeId}
    (h : w.Records (.closure id formals body d)) (h' : w.Records (.closure id formals' body' d')) :
    Value.closure id formals body d = .closure id formals' body' d' := by
  obtain ⟨m, found, gives⟩ := h id formals body d .here
  obtain ⟨m', found', gives'⟩ := h' id formals' body' d' .here
  obtain rfl : m = m' := Option.some.inj (found.symm.trans found')
  exact gives.unique gives'

end Chronicle

end MicroScheme
