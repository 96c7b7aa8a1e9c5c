import Mathlib.Data.List.Forall2
import MicroScheme.Proofs.Number.Order
import MicroScheme.Proofs.Value.Closure

set_option autoImplicit false

/-!
Equality of values. What equality sees of a value is its key: two values are equal inside lists if they have a key in
common (`equalInside_iff`), and by themselves if besides both or none of them are booleans (`equal_iff`). Only a value
that holds NaN has no key. Main statement: of two equal lists the rests are equal, and the heads are but for a boolean
against the number it counts as (`Primitive.equal_parts`).
-/

namespace MicroScheme

/-- What equality inside lists sees of a value. -/
inductive Key where
  | number (place : Line)
  | text (s : String)
  | symbol (s : Symbol)
  | list (keys : List Key)
  | unspecified
  | closure (id : Nat)
  | native (p : Native)

namespace Value

/-- The value at a place inside nested lists. The place is given by the items that lead to it. -/
def part? : List Nat → Value → Option Value
  | [], v => some v
  | i :: path, .list items => items[i]?.bind (part? path)
  | _ :: _, _ => none

/-- No place inside the value holds NaN. What the body of a closure holds does not count, since closures are compared by
their numbers. -/
def NanFree (v : Value) : Prop := ∀ path, v.part? path ≠ some (.float .nan)

mutual

def key? : Value → Option Key
  | .number n => n.place?.map .number
  | .bool b => (truthNumber b).place?.map .number
  | .text s => some (.text s)
  | .symbol s => some (.symbol s)
  | .list items => (keys? items).map .list
  | .unspecified => some .unspecified
  | .closure id _ _ _ => some (.closure id)
  | .native p => some (.native p)

def keys? : List Value → Option (List Key)
  | [] => some []
  | v :: vs => do
    let k ← key? v
    let ks ← keys? vs
    some (k :: ks)

end

def isBool : Value → Bool
  | .bool _ => true
  | _ => false

variable {a b c x y : Value} {xs ys : List Value}

theorem equalLists_iff_forall₂ :
    equalLists xs ys = true ↔ List.Forall₂ (fun x y => x.equalInside y = true) xs ys := by
  induction xs generalizing ys with
  | nil => cases ys <;> simp [equalLists]
  | cons x xs ih => cases ys <;> simp [equalLists, ih]

theorem equal_truthNumber (s t : Bool) : (truthNumber s).equal (truthNumber t) = true ↔ s = t := by
  cases s <;> cases t <;> simp [Number.equal_iff, truthNumber, Number.place?, Line.ofRational_inj]

theorem equal_iff_key {m n : Number} :
    m.equal n = true ↔ ∃ k, m.place?.map Key.number = some k ∧ n.place?.map Key.number = some k := by
  simp [Number.equal_iff]

theorem equalLists_iff (each : ∀ x ∈ xs, ∀ y, x.equalInside y = true ↔ ∃ k, x.key? = some k ∧ y.key? = some k) :
    equalLists xs ys = true ↔ ∃ ks, keys? xs = some ks ∧ keys? ys = some ks := by
  induction xs generalizing ys with
  | nil => cases ys <;> simp [equalLists, keys?, Option.bind_eq_some_iff]
  | cons x xs ih =>
    obtain ⟨first, rest⟩ := List.forall_mem_cons.1 each
    cases ys with
    | nil => simp [equalLists, keys?, Option.bind_eq_some_iff]
    | cons y ys =>
      rw [equalLists, Bool.and_eq_true, first, ih rest]
      simp only [keys?, Option.bind_eq_bind, Option.bind_eq_some_iff, Option.some.injEq]
      constructor
      · rintro ⟨⟨k, hx, hy⟩, ks, hxs, hys⟩
        exact ⟨k :: ks, ⟨k, hx, ks, hxs, rfl⟩, k, hy, ks, hys, rfl⟩
      · rintro ⟨_, ⟨k, hx, ks, hxs, rfl⟩, _, hy, _, hys, same⟩
        obtain ⟨rfl, rfl⟩ := List.cons.inj same
        exact ⟨⟨_, hx, hy⟩, _, hxs, hys⟩

theorem equalInside_iff : a.equalInside b = true ↔ ∃ k, a.key? = some k ∧ b.key? = some k := by
  induction a generalizing b with
  | number m => cases b <;> simp [equalInside, key?, equal_iff_key]
  | bool t =>
    cases b with
    | bool u => rw [equalInside, decide_eq_true_eq, ← equal_truthNumber, equal_iff_key, key?, key?]
    | number | text | symbol | list | unspecified | closure | native => simp [equalInside, key?, equal_iff_key]
  | text s => cases b <;> simp [equalInside, key?, eq_comm]
  | symbol s => cases b <;> simp [equalInside, key?, eq_comm]
  | list xs ih =>
    cases b with
    | list ys => simp [equalInside, key?, equalLists_iff fun x mem y => ih x mem]
    | number n | bool t | text | symbol | unspecified | closure | native => simp [equalInside, key?]
  | unspecified => cases b <;> simp [equalInside, key?]
  | closure id formals body d _ => cases b <;> simp [equalInside, key?, eq_comm]
  | native p => cases b <;> simp [equalInside, key?, eq_comm]

theorem equalInside_comm : a.equalInside b = true ↔ b.equalInside a = true := by
  rw [equalInside_iff, equalInside_iff]
  exact exists_congr fun k => and_comm

theorem equalInside_trans (first : a.equalInside b = true) (next : b.equalInside c = true) :
    a.equalInside c = true := by
  obtain ⟨k, ha, hb⟩ := equalInside_iff.1 first
  obtain ⟨l, hb', hc⟩ := equalInside_iff.1 next
  obtain rfl : k = l := Option.some.inj (hb.symm.trans hb')
  exact equalInside_iff.2 ⟨k, ha, hc⟩

theorem nanFree_list : (Value.list xs).NanFree ↔ ∀ x ∈ xs, x.NanFree := by
  constructor
  · intro h x mem path
    obtain ⟨i, bound, rfl⟩ := List.mem_iff_getElem.1 mem
    have inside := h (i :: path)
    rwa [part?, List.getElem?_eq_getElem bound, Option.bind_some] at inside
  · rintro h (_ | ⟨i, path⟩) holds
    · cases holds
    · obtain ⟨x, item, holds⟩ := Option.bind_eq_some_iff.1 holds
      exact h x (List.mem_of_getElem? item) path holds

theorem keys?_isSome_iff : (keys? xs).isSome = true ↔ ∀ x ∈ xs, x.key?.isSome = true := by
  induction xs with
  | nil => simp [keys?]
  | cons x xs ih =>
    rw [List.forall_mem_cons, ← ih]
    cases hx : x.key? <;> cases hxs : keys? xs <;> simp [keys?, hx, hxs]

theorem nanFree_iff_key : a.NanFree ↔ a.key?.isSome = true := by
  induction a with
  | number n =>
    have free : (Value.number n).NanFree ↔ n ≠ .float .nan := by
      refine ⟨fun h same => h [] (same ▸ rfl), fun other path => ?_⟩
      cases path <;> simp [part?, other]
    rw [free, ne_eq, ← Number.place?_eq_none_iff, key?]
    cases n.place? <;> simp
  | list xs ih =>
    rw [nanFree_list, forall₂_congr ih, ← keys?_isSome_iff, key?, Option.isSome_map]
  | bool | text | symbol | unspecified | closure | native =>
    refine iff_of_true (fun path => ?_) rfl
    cases path <;> simp [part?]

instance (v : Value) : Decidable v.NanFree := decidable_of_iff _ nanFree_iff_key.symm

theorem equal_iff : a.equal b = true ↔ a.isBool = b.isBool ∧ a.equalInside b = true := by
  cases a <;> cases b <;> simp [equal, isBool, equalInside]

theorem NanFree.equal_self (h : a.NanFree) : a.equal a = true := by
  obtain ⟨k, hk⟩ := Option.isSome_iff_exists.1 (nanFree_iff_key.1 h)
  exact equal_iff.2 ⟨rfl, equalInside_iff.2 ⟨k, hk, hk⟩⟩

theorem equal_symm (h : a.equal b = true) : b.equal a = true :=
  equal_iff.2 ⟨(equal_iff.1 h).1.symm, equalInside_comm.1 (equal_iff.1 h).2⟩

theorem equal_trans (first : a.equal b = true) (next : b.equal c = true) : a.equal c = true :=
  equal_iff.2 ⟨(equal_iff.1 first).1.trans (equal_iff.1 next).1,
    equalInside_trans (equal_iff.1 first).2 (equal_iff.1 next).2⟩

def Opposed (t : Bool) (n : Number) (a b : Value) : Prop :=
  a = .bool t ∧ b = .number n ∨ a = .number n ∧ b = .bool t

variable {t : Bool} {n : Number}

theorem Opposed.not_equal (h : Opposed t n a b) : a.equal b = false := by
  rcases h with ⟨rfl, rfl⟩ | ⟨rfl, rfl⟩ <;> rfl

theorem Opposed.equalInside_iff (h : Opposed t n a b) : a.equalInside b = true ↔ n.equal (truthNumber t) = true := by
  rcases h with ⟨rfl, rfl⟩ | ⟨rfl, rfl⟩
  · exact equalInside_comm
  · rfl

/-- Inside lists only one more kind of values is equal: a boolean and the number it counts as. -/
theorem equalInside_iff_equal :
    a.equalInside b = true ↔ a.equal b = true ∨ ∃ t n, Opposed t n a b ∧ n.equal (truthNumber t) = true := by
  constructor
  · intro inside
    by_cases kind : a.isBool = b.isBool
    · exact .inl (equal_iff.2 ⟨kind, inside⟩)
    · have opposed : ∃ t n, Opposed t n a b := by
        cases a <;> cases b <;> simp_all [isBool, equalInside, Opposed]
      obtain ⟨t, n, opposed⟩ := opposed
      exact .inr ⟨t, n, opposed, opposed.equalInside_iff.1 inside⟩
  · rintro (equal | ⟨t, n, opposed, same⟩)
    · exact (equal_iff.1 equal).2
    · exact opposed.equalInside_iff.2 same

theorem equal_list_iff : (Value.list xs).equal (.list ys) = true ↔
    List.Forall₂ (fun x y => x.equal y = true ∨ ∃ t n, Opposed t n x y ∧ n.equal (truthNumber t) = true) xs ys := by
  simp only [← equalInside_iff_equal, ← equalLists_iff_forall₂]
  rfl

theorem equalInside_part (h : a.equalInside b = true) (path : List Nat) (hx : a.part? path = some x)
    (hy : b.part? path = some y) : x.equalInside y = true := by
  induction path generalizing a b with
  | nil =>
    cases hx
    cases hy
    exact h
  | cons i path ih =>
    cases a with
    | list xs =>
      cases b with
      | list ys =>
        obtain ⟨v, hv, hx⟩ := Option.bind_eq_some_iff.1 hx
        obtain ⟨w, hw, hy⟩ := Option.bind_eq_some_iff.1 hy
        obtain ⟨hi, rfl⟩ := List.getElem?_eq_some_iff.1 hv
        obtain ⟨hj, rfl⟩ := List.getElem?_eq_some_iff.1 hw
        exact ih ((equalLists_iff_forall₂.1 h).get hi hj) hx hy
      | _ => cases hy
    | _ => cases hx

end Value

namespace Primitive

open Value

def Affirms (p : Primitive) (args : List Value) : Prop := p.call args = .ok (.bool true)

instance (p : Primitive) (args : List Value) : Decidable (p.Affirms args) :=
  inferInstanceAs (Decidable (_ = _))

theorem call_equal_pair (a b : Value) : Primitive.equal.call [a, b] = .ok (.bool (a.equal b)) := by
  simp [call, chained, pure, Except.pure]

theorem affirms_equal_pair {a b : Value} : Primitive.equal.Affirms [a, b] ↔ a.equal b = true := by
  simp [Affirms, call_equal_pair]

/-- If = gives #t for values without NaN, a boolean in one stands where the other has a number only inside lists, and
only where the number is 1 for #t or 0 for #f. So the heads of two equal lists are equal but for a boolean against a
number, and the rests always are. -/
theorem equal_parts {a b : Value} (_ : a.NanFree) (_ : b.NanFree) (equal : Primitive.equal.Affirms [a, b]) :
    (∀ path x y t n, a.part? path = some x → b.part? path = some y → Opposed t n x y →
      path ≠ [] ∧ n.equal (truthNumber t) = true) ∧
    ∀ xs ys, a = .list xs → b = .list ys → xs ≠ [] → ys ≠ [] →
      ∃ x y xs' ys', Primitive.car.call [a] = .ok x ∧ Primitive.car.call [b] = .ok y ∧
        Primitive.cdr.call [a] = .ok xs' ∧ Primitive.cdr.call [b] = .ok ys' ∧
        Primitive.equal.Affirms [xs', ys'] ∧ (Primitive.equal.Affirms [x, y] ↔ ∀ t n, ¬ Opposed t n x y) := by
  simp only [affirms_equal_pair] at equal ⊢
  constructor
  · intro path x y t n hx hy opposed
    have inside := equalInside_part (equal_iff.1 equal).2 path hx hy
    refine ⟨?_, opposed.equalInside_iff.1 inside⟩
    rintro rfl
    cases hx
    cases hy
    rw [opposed.not_equal] at equal
    cases equal
  · rintro xs ys rfl rfl hxs hys
    cases equal_list_iff.1 equal with
    | nil => exact absurd rfl hxs
    | @cons x y xs ys first rest =>
      refine ⟨x, y, .list xs, .list ys, rfl, rfl, rfl, rfl, equal_list_iff.2 rest, ?_, fun none => ?_⟩
      · intro same t n opposed
        rw [opposed.not_equal] at same
        cases same
      · exact first.resolve_right fun ⟨t, n, opposed, _⟩ => none t n opposed

theorem equal_parts_of_nested :
    let one : Number := .float (Binary64.ofInt 1)
    let xs : List Value := [.list [.int 2], .text "x"]
    let ys : List Value := [.list [.float (Binary64.ofInt 2)], .text "x"]
    Primitive.equal.Affirms [.list (.bool true :: xs), .list (.number one :: ys)] ∧
      one.equal (truthNumber true) = true ∧ Primitive.equal.Affirms [.list xs, .list ys] ∧
      ¬ Primitive.equal.Affirms [.bool true, .number one] := by
  intro one xs ys
  have free : (Value.list (.bool true :: xs)).NanFree ∧ (Value.list (.number one :: ys)).NanFree := by decide +kernel
  have equal : Primitive.equal.Affirms [.list (.bool true :: xs), .list (.number one :: ys)] := by decide +kernel
  obtain ⟨places, lists⟩ := equal_parts free.1 free.2 equal
  have front := places [0] (.bool true) (.number one) true one rfl rfl (.inl ⟨rfl, rfl⟩)
  obtain ⟨x, y, xs', ys', ⟨⟩, ⟨⟩, ⟨⟩, ⟨⟩, rests, heads⟩ :=
    lists _ _ rfl rfl (List.cons_ne_nil _ _) (List.cons_ne_nil _ _)
  exact ⟨equal, front.2, rests, fun same => heads.1 same true one (.inl ⟨rfl, rfl⟩)⟩

/-- Two equal lists without NaN of which one has #t where the other has 1, and whose heads are not equal. -/
theorem heads_not_equal :
    let xs : Value := .list [.bool true]
    let ys : Value := .list [.int 1]
    xs.NanFree ∧ ys.NanFree ∧ Primitive.equal.Affirms [xs, ys] ∧
      xs.part? [0] = some (.bool true) ∧ ys.part? [0] = some (.int 1) ∧
      Primitive.car.call [xs] = .ok (.bool true) ∧ Primitive.car.call [ys] = .ok (.int 1) ∧
      ¬ Primitive.equal.Affirms [.bool true, .int 1] := by
  decide +kernel

end Primitive

end MicroScheme
