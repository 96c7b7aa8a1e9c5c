import MicroScheme.Proofs.Value.Alike

set_option autoImplicit false

namespace MicroScheme

inductive Outcome {ε α β : Type} (post : α → β → Prop) : Except ε α → Except ε β → Prop where
  | ok {a : α} {b : β} : post a b → Outcome post (.ok a) (.ok b)
  | error (f : ε) : Outcome post (.error f) (.error f)

theorem outcome_self {ε α : Type} {post : α → α → Prop} (self : ∀ a, post a a) (r : Except ε α) : Outcome post r r := by
  cases r with
  | ok a => exact .ok (self a)
  | error f => exact .error f

theorem outcome_bind_self {ε α β γ : Type} {post : β → γ → Prop} (r : Except ε α) {k : α → Except ε β}
    {l : α → Except ε γ} (rest : ∀ a, Outcome post (k a) (l a)) : Outcome post (r >>= k) (r >>= l) := by
  cases r with
  | error f => exact .error f
  | ok a => exact rest a

theorem Outcome.mapError {ε φ α β : Type} {post : α → β → Prop} {r : Except ε α} {r' : Except ε β} (g : ε → φ)
    (h : Outcome post r r') : Outcome post (r.mapError g) (r'.mapError g) := by
  cases h with
  | ok hab => exact .ok hab
  | error f => exact .error (g f)

theorem Outcome.eq {ε α : Type} {post : α → α → Prop} {r r' : Except ε α} (h : Outcome post r r')
    (equal : ∀ a b, post a b → a = b) : r = r' := by
  cases h with
  | ok hab => rw [equal _ _ hab]
  | error f => rfl

variable {same : Nat → Nat → Prop} {allowed : ScopeId → Prop}

namespace Bindings

def Alike (same : Nat → Nat → Prop) (allowed : ScopeId → Prop) (b c : Bindings) : Prop :=
  List.Forall₂ (fun p q : Symbol × Value => p.1 = q.1 ∧ Value.Alike same allowed p.2 q.2) b c

theorem Alike.eq {b c : Bindings} (h : Alike same allowed b c) (equal : ∀ i j, same i j → i = j) : b = c := by
  induction h with
  | nil => rfl
  | cons hpq _ ih => rw [Prod.ext hpq.1 (hpq.2.eq equal), ih]

theorem Alike.madeOf {b c : Bindings} (h : Alike same allowed b c) :
    ∀ pair ∈ b, pair.2.MadeOf (fun i => ∃ j, same i j) allowed := by
  induction h with
  | nil => simp
  | cons hpq _ ih => exact List.forall_mem_cons.2 ⟨hpq.2.madeOf, ih⟩

end Bindings

namespace Primitive

open Value (Alike)

theorem numbers_alike (p : Primitive) {xs ys : List Value} (h : List.Forall₂ (Alike same allowed) xs ys) :
    numbers p xs = numbers p ys := by
  induction h with
  | nil => rfl
  | cons hxy _ ih => rw [numbers, numbers, numberArgument, numberArgument, hxy.number?, ih]

theorem chained_alike {r : Value → Value → Bool}
    (respects : ∀ {v v' w w'}, Alike same allowed v v' → Alike same allowed w w' → r v w = r v' w')
    {xs ys : List Value} (h : List.Forall₂ (Alike same allowed) xs ys) : chained r xs = chained r ys := by
  induction h with
  | nil => rfl
  | cons hxy hs ih =>
    cases hs with
    | nil => rfl
    | cons hzu hs => rw [chained, chained, respects hxy hzu, ih]

theorem shown_alike {α : Type} {v w : Value} (h : Alike same allowed v w) (fault : String → KindFault)
    {post : α → α → Prop} :
    Outcome post (do throw (.wrongKind (fault (← shown v))) : Except Signal α)
      (do throw (.wrongKind (fault (← shown w)))) := by
  rw [shown, shown, h.describe]
  exact outcome_bind_self _ fun _ => .error _

theorem reduce_alike (alone : Number → Except ArithmeticFault Number)
    (op : Number → Number → Except ArithmeticFault Number) (p : Primitive) {xs ys : List Value}
    (h : List.Forall₂ (Alike same allowed) xs ys) :
    Outcome (Alike same allowed) (reduce alone op p xs) (reduce alone op p ys) := by
  cases h with
  | nil => exact .error _
  | cons hxy hs =>
    rw [reduce, reduce, numberArgument, numberArgument, hxy.number?, numbers_alike p hs]
    exact outcome_bind_self _ fun _ => outcome_bind_self _ fun _ => outcome_bind_self _ fun n => .ok (.number n)

theorem lengthOf_alike {v w : Value} (h : Alike same allowed v w) :
    Outcome (Alike same allowed) (lengthOf v) (lengthOf w) := by
  have whole := h
  cases h with
  | text s => exact .ok (.number _)
  | list hs =>
    rw [lengthOf, lengthOf, hs.length_eq]
    exact .ok (.number _)
  | number | bool | symbol | unspecified | closure | native => exact shown_alike whole _

theorem carOf_alike {v w : Value} (h : Alike same allowed v w) :
    Outcome (Alike same allowed) (carOf v) (carOf w) := by
  have whole := h
  cases h with
  | list hs =>
    cases hs with
    | nil => exact shown_alike whole _
    | cons hxy _ => exact .ok hxy
  | number | bool | text | symbol | unspecified | closure | native => exact shown_alike whole _

theorem cdrOf_alike {v w : Value} (h : Alike same allowed v w) :
    Outcome (Alike same allowed) (cdrOf v) (cdrOf w) := by
  have whole := h
  cases h with
  | list hs =>
    cases hs with
    | nil => exact shown_alike whole _
    | cons _ hs => exact .ok (.list hs)
  | number | bool | text | symbol | unspecified | closure | native => exact shown_alike whole _

theorem consOf_alike {v v' w w' : Value} (hv : Alike same allowed v v') (hw : Alike same allowed w w') :
    Outcome (Alike same allowed) (consOf v w) (consOf v' w') := by
  have whole := hw
  cases hw with
  | list hs => exact .ok (.list (.cons hv hs))
  | number | bool | text | symbol | unspecified | closure | native => exact shown_alike whole _

theorem unary_alike (p : Primitive) {f : Value → Except Signal Value} {xs ys : List Value}
    (respects : ∀ {v w}, Alike same allowed v w → Outcome (Alike same allowed) (f v) (f w))
    (h : List.Forall₂ (Alike same allowed) xs ys) :
    Outcome (Alike same allowed) (unary p f xs) (unary p f ys) := by
  rcases h with _ | ⟨hxy, _ | ⟨_, _⟩⟩
  · exact .error _
  · exact respects hxy
  · exact .error _

theorem binary_alike (p : Primitive) {f : Value → Value → Except Signal Value} {xs ys : List Value}
    (respects : ∀ {v v' w w'}, Alike same allowed v v' → Alike same allowed w w' →
      Outcome (Alike same allowed) (f v w) (f v' w'))
    (h : List.Forall₂ (Alike same allowed) xs ys) :
    Outcome (Alike same allowed) (binary p f xs) (binary p f ys) := by
  rcases h with _ | ⟨hxy, _ | ⟨hzu, _ | ⟨_, _⟩⟩⟩
  · exact .error _
  · exact .error _
  · exact respects hxy hzu
  · exact .error _

/-- A primitive gives alike results for alike arguments, if equality cannot tell the arguments apart. -/
theorem call_alike (matched : Value.Matches same) (p : Primitive) {xs ys : List Value}
    (h : List.Forall₂ (Alike same allowed) xs ys) :
    Outcome (Alike same allowed) (p.call xs) (p.call ys) := by
  cases p with
  | add | multiply =>
    rw [call, call, numbers_alike _ h]
    exact outcome_bind_self _ fun _ => outcome_bind_self _ fun n => .ok (.number n)
  | less | greater =>
    rw [call, call, numbers_alike _ h]
    exact outcome_bind_self _ fun _ => .ok (.bool _)
  | subtract | divide => exact reduce_alike _ _ _ h
  | equal =>
    rw [call, call, chained_alike (fun hv hw => hv.equal matched hw) h]
    exact .ok (.bool _)
  | not =>
    refine unary_alike _ (fun hvw => ?_) h
    rw [hvw.isFalse]
    exact .ok (.bool _)
  | length => exact unary_alike _ lengthOf_alike h
  | car => exact unary_alike _ carOf_alike h
  | cdr => exact unary_alike _ cdrOf_alike h
  | cons => exact binary_alike _ consOf_alike h
  | list => exact .ok (.list h)

end Primitive

end MicroScheme
