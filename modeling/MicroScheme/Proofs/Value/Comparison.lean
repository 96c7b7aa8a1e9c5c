import MicroScheme.Proofs.Value.Equality

set_option autoImplicit false

namespace MicroScheme.Primitive

section

variable {α : Type} {r : α → α → Bool}

theorem chained_iff_isChain (l : List α) : chained r l = true ↔ l.IsChain fun a b => r a b = true := by
  induction l with
  | nil => simp [chained]
  | cons a l ih =>
    cases l with
    | nil => simp [chained]
    | cons b l => rw [chained, Bool.and_eq_true, ih, List.isChain_cons_cons]

theorem chained_iff_pairwise (trans : ∀ a b c, r a b = true → r b c = true → r a c = true) (l : List α) :
    chained r l = true ↔ l.Pairwise fun a b => r a b = true := by
  have : Trans (fun a b => r a b = true) (fun a b => r a b = true) (fun a b => r a b = true) := ⟨trans _ _ _⟩
  rw [chained_iff_isChain, List.isChain_iff_pairwise]

theorem chained_reverse (l : List α) : chained r l.reverse = chained (fun a b => r b a) l := by
  rw [Bool.eq_iff_iff, chained_iff_isChain, chained_iff_isChain, List.isChain_reverse]

end

theorem chained_equal_iff {args : List Value} (free : ∀ v ∈ args, v.NanFree) :
    chained Value.equal args = true ↔ ∀ v ∈ args, ∀ w ∈ args, v.equal w = true := by
  rw [chained_iff_pairwise (r := Value.equal) fun _ _ _ => Value.equal_trans]
  constructor
  · intro pairs
    have : Std.Symm fun v w : Value => v.equal w = true := ⟨fun _ _ => Value.equal_symm⟩
    exact pairs.forall_of_forall fun v mem => (free v mem).equal_self
  · exact List.pairwise_of_forall_mem_list

/-- On values without NaN equality is an equivalence. So = gives #t or #f according to whether all its arguments are
equal to each other, in whatever order they stand. -/
theorem equal_arguments :
    (Equivalence fun a b : {v : Value // v.NanFree} => a.1.equal b.1 = true) ∧
      ∀ args : List Value, (∀ v ∈ args, v.NanFree) →
        Primitive.equal.call args = .ok (.bool (decide (∀ v ∈ args, ∀ w ∈ args, v.equal w = true))) ∧
          ∀ args', args.Perm args' → Primitive.equal.call args' = Primitive.equal.call args := by
  have result (args : List Value) (free : ∀ v ∈ args, v.NanFree) :
      Primitive.equal.call args = .ok (.bool (decide (∀ v ∈ args, ∀ w ∈ args, v.equal w = true))) := by
    have all : chained Value.equal args = decide (∀ v ∈ args, ∀ w ∈ args, v.equal w = true) := by
      rw [Bool.eq_iff_iff, chained_equal_iff free, decide_eq_true_eq]
    rw [call, all]
    rfl
  refine ⟨⟨fun a => a.2.equal_self, Value.equal_symm, Value.equal_trans⟩, fun args free => ⟨result args free, ?_⟩⟩
  intro args' perm
  rw [result args free, result args' fun v mem => free v (perm.mem_iff.2 mem)]
  simp only [perm.mem_iff]

theorem equal_arguments_of_ones :
    let one : Value := .float (Binary64.ofInt 1)
    let args : List Value := [.list [.int 1, .bool true], .list [one, .int 1], .list [.bool true, one]]
    (∀ v ∈ .bool true :: args, v.NanFree) ∧ Primitive.equal.call args = .ok (.bool true) ∧
      Primitive.equal.call [one, .bool true, .int 1] = .ok (.bool false) ∧
      Primitive.equal.call args.reverse = Primitive.equal.call args := by
  intro one args
  have free : ∀ v ∈ .bool true :: args, v.NanFree := by decide +kernel
  have free' : ∀ v ∈ [one, .bool true, .int 1], v.NanFree := by decide +kernel
  obtain ⟨result, order⟩ := equal_arguments.2 args (List.forall_mem_cons.1 free).2
  refine ⟨free, ?_, ?_, order _ args.reverse_perm.symm⟩
  · rw [result]
    decide +kernel
  · rw [(equal_arguments.2 _ free').1]
    decide +kernel

theorem numbers_map (p : Primitive) (ns : List Number) : numbers p (ns.map .number) = .ok ns := by
  induction ns with
  | nil => rfl
  | cons n ns ih =>
    rw [List.map_cons, numbers, ih]
    rfl

theorem mem_of_other {args : List Value} {v w : Value} {n : Number} (mem : v ∈ w :: args) (other : ∀ n, v ≠ .number n)
    (number : w.number? = some n) : v ∈ args := by
  rcases List.mem_cons.1 mem with rfl | later
  · cases v <;> simp_all [Value.number?]
  · exact later

theorem numbers_error (p : Primitive) {args : List Value} {v : Value} (mem : v ∈ args) (other : ∀ n, v ≠ .number n) :
    numbers p args = .error (.wrongKind (.notNumbers p)) := by
  induction args with
  | nil => cases mem
  | cons w args ih =>
    cases hw : w.number? with
    | none =>
      rw [numbers, numberArgument, hw]
      rfl
    | some n =>
      rw [numbers, numberArgument, hw, ih (mem_of_other mem other hw)]
      rfl

theorem call_less (ns : List Number) :
    Primitive.less.call (ns.map .number) = .ok (.bool (chained Number.less ns)) := by
  rw [call, numbers_map]
  rfl

theorem call_greater (ns : List Number) :
    Primitive.greater.call (ns.map .number) = .ok (.bool (chained Number.less ns.reverse)) := by
  rw [call, numbers_map, chained_reverse]
  rfl

theorem affirms_less (ns : List Number) :
    Primitive.less.Affirms (ns.map .number) ↔ ns.Pairwise fun a b => a.less b = true := by
  rw [Affirms, call_less, ← chained_iff_pairwise (r := Number.less) fun _ _ _ => Number.less_trans]
  simp

theorem call_less_pair (a b : Number) : Primitive.less.call [.number a, .number b] = .ok (.bool (a.less b)) := by
  simpa [chained] using call_less [a, b]

theorem call_greater_pair (a b : Number) :
    Primitive.greater.call [.number a, .number b] = .ok (.bool (b.less a)) := by
  rw [← call_less_pair]
  exact (call_greater [a, b]).trans (call_less [b, a]).symm

variable {a b : Number}

theorem affirms_less_pair : Primitive.less.Affirms [.number a, .number b] ↔ a.less b = true := by
  simp [Affirms, call_less_pair]

theorem affirms_greater_pair : Primitive.greater.Affirms [.number a, .number b] ↔ b.less a = true := by
  simp [Affirms, call_greater_pair]

theorem affirms_equal_numbers : Primitive.equal.Affirms [.number a, .number b] ↔ a.equal b = true :=
  affirms_equal_pair

theorem trichotomy (ha : a ≠ .float .nan) (hb : b ≠ .float .nan) :
    ∃! p, p ∈ [Primitive.less, .equal, .greater] ∧ p.Affirms [.number a, .number b] := by
  obtain ⟨p, hp⟩ := Option.ne_none_iff_exists'.1 (mt Number.place?_eq_none_iff.1 ha)
  obtain ⟨q, hq⟩ := Option.ne_none_iff_exists'.1 (mt Number.place?_eq_none_iff.1 hb)
  have less := affirms_less_pair.trans (Number.less_iff_lt hp hq)
  have equal := affirms_equal_numbers.trans (Number.equal_iff_eq hp hq)
  have greater := affirms_greater_pair.trans (Number.less_iff_lt hq hp)
  rcases lt_trichotomy p q with lower | rfl | higher
  · refine ⟨.less, by simp [less, lower], ?_⟩
    simp [less, equal, greater, lower.ne, lower.not_gt]
  · refine ⟨.equal, by simp [equal], ?_⟩
    simp [less, equal, greater]
  · refine ⟨.greater, by simp [greater, higher], ?_⟩
    simp [less, equal, greater, higher.ne', higher.not_gt]

/-- The primitives < and > order numbers by their exact places. Between two numbers that are not NaN exactly one of <, =
and > holds; many numbers are compared as all their pairs are; and an argument that is no number is refused wherever it
stands. -/
theorem compare_numbers :
    (∀ a b : Number,
      (Primitive.less.Affirms [.number a, .number b] ↔ ∃ p q, a.place? = some p ∧ b.place? = some q ∧ p < q) ∧
      (Primitive.equal.Affirms [.number a, .number b] ↔ ∃ p, a.place? = some p ∧ b.place? = some p) ∧
      (a ≠ .float .nan → b ≠ .float .nan →
        ∃! p, p ∈ [Primitive.less, .equal, .greater] ∧ p.Affirms [.number a, .number b])) ∧
    (∀ a b c : Number, Primitive.less.Affirms [.number a, .number b] → Primitive.less.Affirms [.number b, .number c] →
      Primitive.less.Affirms [.number a, .number c]) ∧
    (∀ ns : List Number, (∃ answer, Primitive.less.call (ns.map .number) = .ok (.bool answer)) ∧
      (Primitive.less.Affirms (ns.map .number) ↔ ns.Pairwise fun a b => Primitive.less.Affirms [.number a, .number b]) ∧
      Primitive.greater.call (ns.map .number) = Primitive.less.call (ns.reverse.map .number)) ∧
    ∀ (args : List Value) (v : Value), v ∈ args → (∀ n, v ≠ .number n) →
      Primitive.less.call args = .error (.wrongKind (.notNumbers .less)) ∧
      Primitive.greater.call args = .error (.wrongKind (.notNumbers .greater)) := by
  refine ⟨fun a b => ⟨?_, ?_, trichotomy⟩, fun a b c => ?_, fun ns => ⟨⟨_, call_less ns⟩, ?_, ?_⟩, ?_⟩
  · exact affirms_less_pair.trans Number.less_iff
  · exact affirms_equal_numbers.trans Number.equal_iff
  · simp only [affirms_less_pair]
    exact Number.less_trans
  · simp only [affirms_less, affirms_less_pair]
  · rw [call_greater, call_less]
  · intro args v mem other
    rw [call, call, numbers_error _ mem other, numbers_error _ mem other]
    exact ⟨rfl, rfl⟩

theorem compare_numbers_of_neighbours :
    let a : Number := .float (Binary64.ofInt (2 ^ 53))
    let b : Number := .int (2 ^ 53 + 1)
    let c : Number := .float (Binary64.ofInt (2 ^ 53 + 2))
    Primitive.less.Affirms [.number a, .number b] ∧ Primitive.less.Affirms [.number b, .number c] ∧
      Primitive.less.Affirms [.number a, .number c] ∧
      (∃! p, p ∈ [Primitive.less, .equal, .greater] ∧ p.Affirms [.number a, .number b]) ∧
      Primitive.less.call [.number b, .number c, .bool true] = .error (.wrongKind (.notNumbers .less)) := by
  intro a b c
  have lower : Primitive.less.Affirms [.number a, .number b] := by decide +kernel
  have upper : Primitive.less.Affirms [.number b, .number c] := by decide +kernel
  obtain ⟨pairs, trans, _, refused⟩ := compare_numbers
  refine ⟨lower, upper, trans a b c lower upper, (pairs a b).2.2 (by decide +kernel) nofun, ?_⟩
  exact (refused _ (.bool true) (by simp) nofun).1

end MicroScheme.Primitive
