import Mathlib.Data.List.Forall2
import MicroScheme.Proofs.Value.Closure

set_option autoImplicit false

namespace MicroScheme.Value

inductive Alike (same : Nat → Nat → Prop) (allowed : ScopeId → Prop) : Value → Value → Prop where
  | number (n : Number) : Alike same allowed (.number n) (.number n)
  | bool (b : Bool) : Alike same allowed (.bool b) (.bool b)
  | text (s : String) : Alike same allowed (.text s) (.text s)
  | symbol (s : Symbol) : Alike same allowed (.symbol s) (.symbol s)
  | list {xs ys : List Value} : List.Forall₂ (Alike same allowed) xs ys → Alike same allowed (.list xs) (.list ys)
  | unspecified : Alike same allowed .unspecified .unspecified
  | closure {i j : Nat} (formals : List Symbol) {x y : Value} {d : ScopeId} :
    same i j → allowed d → Alike same allowed x y →
      Alike same allowed (.closure i formals x d) (.closure j formals y d)
  | native (p : Native) : Alike same allowed (.native p) (.native p)

variable {same : Nat → Nat → Prop} {allowed : ScopeId → Prop}

@[elab_as_elim]
theorem Alike.induction {motive : ∀ v w, Alike same allowed v w → Prop} (number : ∀ n, motive _ _ (.number n))
    (bool : ∀ b, motive _ _ (.bool b)) (text : ∀ s, motive _ _ (.text s)) (symbol : ∀ s, motive _ _ (.symbol s))
    (list : ∀ xs ys (h : List.Forall₂ (Alike same allowed) xs ys),
      List.Forall₂ (fun x y => ∃ hxy, motive x y hxy) xs ys → motive _ _ (.list h))
    (unspecified : motive _ _ .unspecified)
    (closure : ∀ i j formals x y d (hij : same i j) (hd : allowed d) (hxy : Alike same allowed x y),
      motive x y hxy → motive _ _ (.closure formals hij hd hxy))
    (native : ∀ p, motive _ _ (.native p)) {v w : Value} (h : Alike same allowed v w) : motive v w h := by
  induction v generalizing w with
  | number n => cases h; exact number n
  | bool b => cases h; exact bool b
  | text s => cases h; exact text s
  | symbol s => cases h; exact symbol s
  | list xs ih =>
    cases h with
    | list h =>
      have both := (List.forall₂_and_left xs _).2 ⟨ih, h⟩
      exact list _ _ h (both.imp fun x y hxy => ⟨hxy.2, hxy.1 hxy.2⟩)
  | unspecified => cases h; exact unspecified
  | closure i formals x d ih =>
    cases h with
    | closure _ hij hd hxy => exact closure _ _ _ _ _ _ hij hd hxy (ih hxy)
  | native p => cases h; exact native p

theorem alike_self {v : Value}
    (h : ∀ id formals body d, (Value.closure id formals body d).Within v → same id id ∧ allowed d) :
    Alike same allowed v v := by
  induction v with
  | number n => exact .number n
  | bool b => exact .bool b
  | text s => exact .text s
  | symbol s => exact .symbol s
  | list items ih =>
    have each : ∀ x ∈ items, Alike same allowed x x := fun x hx =>
      ih x hx fun id formals body d hc => h id formals body d (.item hx hc)
    exact .list (List.forall₂_same.2 each)
  | unspecified => exact .unspecified
  | closure id formals body d ih =>
    obtain ⟨hid, hd⟩ := h id formals body d .here
    exact .closure formals hid hd (ih fun id formals body d hc => h id formals body d (.body hc))
  | native p => exact .native p

theorem Alike.eq {v w : Value} (h : Alike same allowed v w) (equal : ∀ i j, same i j → i = j) : v = w := by
  induction h using Alike.induction with
  | list xs ys _ ih =>
    have each : List.Forall₂ Eq xs ys := ih.imp fun x y hxy => hxy.2
    rw [List.forall₂_eq_eq_eq] at each
    rw [each]
  | closure i j formals x y d hij _ _ ih => rw [equal i j hij, ih]
  | number | bool | text | symbol | unspecified | native => rfl

theorem Alike.madeOf {v w : Value} (h : Alike same allowed v w) : v.MadeOf (fun i => ∃ j, same i j) allowed := by
  induction h using Alike.induction with
  | list xs ys _ ih =>
    have each : List.Forall₂ (fun x y => x.MadeOf (fun i => ∃ j, same i j) allowed ∧ True) xs ys :=
      ih.imp fun _ _ hxy => ⟨hxy.2, trivial⟩
    exact madeOf_list.2 ((List.forall₂_and_left xs ys).1 each).1
  | closure i j formals x y d hij hd _ ih => exact madeOf_closure.2 ⟨⟨⟨j, hij⟩, hd⟩, ih⟩
  | number | bool | text | symbol | unspecified | native => exact IsPlain.madeOf trivial

theorem alike_among {numbers : Nat → Prop} {v : Value} :
    Alike (fun i j => i = j ∧ numbers i) allowed v v ↔ v.MadeOf numbers allowed := by
  constructor
  · exact fun h => h.madeOf.mono (fun _ ⟨_, _, hi⟩ => hi) fun _ => id
  · exact fun h => alike_self fun id formals body d within =>
      ⟨⟨rfl, (h id formals body d within).1⟩, (h id formals body d within).2⟩

theorem printAll?_congr {readable : Bool} {xs ys : List Value}
    (h : List.Forall₂ (fun x y => print? readable x = print? readable y) xs ys) :
    printAll? readable xs = printAll? readable ys := by
  induction h with
  | nil => rfl
  | cons hxy _ ih => rw [printAll?, printAll?, hxy, ih]

theorem describeAll?_congr {xs ys : List Value}
    (h : List.Forall₂ (fun x y => describe? x = describe? y) xs ys) : describeAll? xs = describeAll? ys := by
  induction h with
  | nil => rfl
  | cons hxy _ ih => rw [describeAll?, describeAll?, hxy, ih]

theorem Alike.print {v w : Value} (h : Alike same allowed v w) (readable : Bool) :
    v.print? readable = w.print? readable := by
  induction h using Alike.induction with
  | list xs ys _ ih => rw [print?, print?, printAll?_congr (ih.imp fun _ _ hxy => hxy.2)]
  | closure => rfl
  | number | bool | text | symbol | unspecified | native => rfl

theorem Alike.describe {v w : Value} (h : Alike same allowed v w) : v.describe? = w.describe? := by
  induction h using Alike.induction with
  | list xs ys _ ih => rw [describe?, describe?, describeAll?_congr (ih.imp fun _ _ hxy => hxy.2)]
  | closure => rfl
  | number | bool | text | symbol | unspecified | native => rfl

/-- Under the relation equal numbers of closures stay equal and distinct ones distinct. -/
def Matches (same : Nat → Nat → Prop) : Prop := ∀ {i j k l}, same i j → same k l → (i = k ↔ j = l)

theorem matches_among (numbers : Nat → Prop) : Matches fun i j => i = j ∧ numbers i := by
  rintro i j k l ⟨rfl, _⟩ ⟨rfl, _⟩
  rfl

theorem Alike.isFalse {v w : Value} (h : Alike same allowed v w) : v.isFalse = w.isFalse := by
  cases h <;> rfl

theorem Alike.number? {v w : Value} (h : Alike same allowed v w) : v.number? = w.number? := by
  cases h <;> rfl

theorem equalLists_congr {xs ys zs us : List Value}
    (h : List.Forall₂ (fun x y => ∀ z u, Alike same allowed z u → x.equalInside z = y.equalInside u) xs ys)
    (hzs : List.Forall₂ (Alike same allowed) zs us) : equalLists xs zs = equalLists ys us := by
  induction h generalizing zs us with
  | nil => cases hzs <;> rfl
  | cons hxy _ ih =>
    cases hzs with
    | nil => rfl
    | cons hz hzs => rw [equalLists, equalLists, hxy _ _ hz, ih hzs]

theorem Alike.equalInside (matched : Matches same) {v v' w w' : Value} (hv : Alike same allowed v v')
    (hw : Alike same allowed w w') : v.equalInside w = v'.equalInside w' := by
  induction hv using Alike.induction generalizing w w' with
  | list xs ys _ ih =>
    cases hw with
    | list hzs =>
      rw [Value.equalInside, Value.equalInside]
      refine equalLists_congr (ih.imp fun x y hxy => ?_) hzs
      obtain ⟨_, hxy⟩ := hxy
      exact fun z u hzu => hxy hzu
    | _ => rfl
  | closure i j formals x y d hij _ _ _ =>
    cases hw with
    | closure _ hkl =>
      rw [Value.equalInside, Value.equalInside]
      exact decide_eq_decide.2 (matched hij hkl)
    | _ => rfl
  | number | bool | text | symbol | unspecified | native => cases hw <;> rfl

theorem Alike.equal (matched : Matches same) {v v' w w' : Value} (hv : Alike same allowed v v')
    (hw : Alike same allowed w w') : v.equal w = v'.equal w' := by
  have inside := hv.equalInside matched hw
  cases hv <;> cases hw <;> first | rfl | exact inside

end MicroScheme.Value
