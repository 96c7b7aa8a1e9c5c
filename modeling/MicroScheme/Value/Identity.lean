import MicroScheme.Value.Basic

set_option autoImplicit false

namespace MicroScheme.Value

mutual

def identical : Value → Value → Bool
  | .number m, .number n => m = n
  | .bool a, .bool b => a = b
  | .text s, .text t => s = t
  | .symbol s, .symbol t => s = t
  | .list xs, .list ys => allIdentical xs ys
  | .unspecified, .unspecified => true
  | .closure i fs x d, .closure j gs y e => i = j && fs = gs && identical x y && d = e
  | .native p, .native q => p = q
  | _, _ => false

def allIdentical : List Value → List Value → Bool
  | [], [] => true
  | x :: xs, y :: ys => identical x y && allIdentical xs ys
  | _, _ => false

end

mutual

theorem eq_of_identical : (a b : Value) → identical a b = true → a = b
  | .number _, b, h => by cases b <;> simp_all [identical]
  | .bool _, b, h => by cases b <;> simp_all [identical]
  | .text _, b, h => by cases b <;> simp_all [identical]
  | .symbol _, b, h => by cases b <;> simp_all [identical]
  | .list xs, b, h => by
    cases b <;> simp only [identical, Bool.false_eq_true] at h
    rw [eq_of_allIdentical _ _ h]
  | .unspecified, b, h => by cases b <;> simp_all [identical]
  | .closure _ _ x _, b, h => by
    cases b <;> simp only [identical, Bool.false_eq_true, Bool.and_eq_true, decide_eq_true_eq] at h
    obtain ⟨⟨⟨rfl, rfl⟩, h⟩, rfl⟩ := h
    rw [eq_of_identical _ _ h]
  | .native _, b, h => by cases b <;> simp_all [identical]

theorem eq_of_allIdentical : (xs ys : List Value) → allIdentical xs ys = true → xs = ys
  | [], [], _ => rfl
  | [], _ :: _, h => by simp [allIdentical] at h
  | _ :: _, [], h => by simp [allIdentical] at h
  | x :: xs, y :: ys, h => by
    simp only [allIdentical, Bool.and_eq_true] at h
    rw [eq_of_identical x y h.1, eq_of_allIdentical xs ys h.2]

end

mutual

theorem identical_self : (a : Value) → identical a a = true
  | .number _ => by simp [identical]
  | .bool _ => by simp [identical]
  | .text _ => by simp [identical]
  | .symbol _ => by simp [identical]
  | .list xs => by simp [identical, allIdentical_self xs]
  | .unspecified => by simp [identical]
  | .closure _ _ x _ => by simp [identical, identical_self x]
  | .native _ => by simp [identical]

theorem allIdentical_self : (xs : List Value) → allIdentical xs xs = true
  | [] => by simp [allIdentical]
  | x :: xs => by simp [allIdentical, identical_self x, allIdentical_self xs]

end

instance : DecidableEq Value := fun a b =>
  decidable_of_iff (identical a b = true) ⟨eq_of_identical a b, fun h => h ▸ identical_self a⟩

end MicroScheme.Value
