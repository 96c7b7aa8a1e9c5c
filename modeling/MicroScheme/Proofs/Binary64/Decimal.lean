import MicroScheme.Binary64.Decimal
import MicroScheme.Proofs.Binary64.Rounding

set_option autoImplicit false

namespace MicroScheme

open scoped Binary64

namespace Decimal

theorem length_pos (n : Nat) : 0 < length n := Nat.length_toDigits_pos

theorem length_le_iff {n k : Nat} (hk : 0 < k) : length n ≤ k ↔ n < 10 ^ k :=
  Nat.length_toDigits_le_iff (by decide) hk

theorem lt_pow_length (n : Nat) : n < 10 ^ length n := (length_le_iff (length_pos n)).1 (Nat.le_refl _)

theorem lt_length_iff {n k : Nat} (hk : 0 < k) : k < length n ↔ 10 ^ k ≤ n := by
  rw [← Nat.not_le, length_le_iff hk, Nat.not_lt]

theorem length_shift {n : Nat} (hn : n ≠ 0) (j : Nat) : length (n * 10 ^ j) = length n + j := by
  have positive := length_pos n
  refine Nat.le_antisymm ((length_le_iff (Nat.add_pos_left positive j)).2 ?_) ?_
  · rw [Nat.pow_add]
    exact Nat.mul_lt_mul_of_pos_right (lt_pow_length n) (Nat.pow_pos (by decide))
  · rcases Nat.lt_or_ge 1 (length n) with long | short
    · have lower : 10 ^ (length n - 1) ≤ n := (lt_length_iff (by omega)).1 (by omega)
      have shifted : 10 ^ (length n - 1 + j) ≤ n * 10 ^ j := by
        rw [Nat.pow_add]
        exact Nat.mul_le_mul_right _ lower
      have longer := (lt_length_iff (k := length n - 1 + j) (by omega)).2 shifted
      omega
    · rcases Nat.eq_zero_or_pos j with rfl | hj
      · exact Nat.le_of_eq (by rw [Nat.pow_zero, Nat.mul_one, Nat.add_zero])
      · have lower : 10 ^ j ≤ n * 10 ^ j := Nat.le_mul_of_pos_left _ (Nat.pos_of_ne_zero hn)
        have longer := (lt_length_iff hj).2 lower
        omega

end Decimal

namespace Binary64

theorem ofDecimal_shift (negative : Bool) (n j : Nat) (e : Int) :
    ofDecimal negative ⟨n * 10 ^ j, e - j⟩ = ofDecimal negative ⟨n, e⟩ := by
  unfold ofDecimal
  by_cases hn : n = 0
  · dsimp only
    rw [hn, Nat.zero_mul, if_pos rfl, if_pos rfl]
  · have shifted : n * 10 ^ j ≠ 0 := Nat.mul_ne_zero hn (Nat.ne_of_gt (Nat.pow_pos (by decide)))
    have points : Decimal.point ⟨n * 10 ^ j, e - j⟩ = Decimal.point ⟨n, e⟩ := by
      unfold Decimal.point
      dsimp only
      rw [Decimal.length_shift hn]
      omega
    have ratios : ofRatio negative (n * 10 ^ j * 10 ^ (e - j).toNat) (10 ^ (-(e - j)).toNat) =
        ofRatio negative (n * 10 ^ e.toNat) (10 ^ (-e).toNat) := by
      refine ofRatio_congr negative (Nat.pow_pos (by decide)) (Nat.pow_pos (by decide)) ?_
      have powers : j + (e - j).toNat + (-e).toNat = e.toNat + (-(e - j)).toNat := by omega
      calc
        n * 10 ^ j * 10 ^ (e - j).toNat * 10 ^ (-e).toNat = n * 10 ^ (j + (e - j).toNat + (-e).toNat) := by
          rw [Nat.pow_add, Nat.pow_add, Nat.mul_assoc n, Nat.mul_assoc n]
        _ = n * 10 ^ e.toNat * 10 ^ (-(e - j)).toNat := by rw [powers, Nat.pow_add, Nat.mul_assoc]
    rw [points, ratios]
    dsimp only
    rw [if_neg hn, if_neg shifted]

theorem ofDecimal_cutZeros (negative : Bool) (count : Nat) (d : Decimal) :
    ofDecimal negative (d.cutZeros count) = ofDecimal negative d := by
  induction count generalizing d with
  | zero => rfl
  | succ count ih =>
    rw [Decimal.cutZeros]
    split
    · next zero =>
      have whole : d.digits = d.digits / 10 * 10 ^ 1 := (Nat.div_mul_cancel (Nat.dvd_of_mod_eq_zero zero)).symm
      have shift := ofDecimal_shift negative (d.digits / 10) 1 (d.exponent + 1)
      rw [← whole, Int.natCast_one, Int.add_sub_cancel] at shift
      rw [ih]
      exact shift.symm
    · rfl

theorem ofDecimal_trimmed (negative : Bool) (d : Decimal) : ofDecimal negative d.trimmed = ofDecimal negative d :=
  ofDecimal_cutZeros negative _ d

theorem ofDecimal_zeros (negative : Bool) (d : Decimal) (j : Nat) :
    ofDecimal negative ⟨d.digits * 10 ^ j, d.exponent - j⟩ = ofDecimal negative d :=
  ofDecimal_shift negative d.digits j d.exponent

theorem ofDecimal_ne_nan (negative : Bool) (d : Decimal) : ofDecimal negative d ≠ .nan := by
  unfold ofDecimal
  split
  · exact fun same => nomatch same
  · split
    · exact fun same => nomatch same
    · split
      · exact fun same => nomatch same
      · exact round_ne_nan negative _ _

theorem ofDecimal_withSign (s t : Bool) (d : Decimal) : (ofDecimal s d).withSign t = ofDecimal t d := by
  unfold ofDecimal
  split
  · rfl
  · split
    · rfl
    · split
      · rfl
      · exact round_withSign s t _ _

theorem ofDecimal_signed (negative : Bool) {d : Decimal} {mantissa exponent : Nat}
    {h : Canonical mantissa exponent} (reads : ofDecimal false d = .finite false mantissa exponent h) :
    ofDecimal negative d = .finite negative mantissa exponent h := by
  rw [← ofDecimal_withSign false, reads, withSign]

theorem units_lt {mantissa exponent : Nat} (h : Canonical mantissa exponent) :
    mantissa * 2 ^ exponent < 2 ^ (1024 : Nat) * unitsInOne := by
  calc
    mantissa * 2 ^ exponent < 2 ^ (53 : Nat) * 2 ^ exponent :=
      Nat.mul_lt_mul_of_pos_right h.1 (Nat.two_pow_pos _)
    _ ≤ 2 ^ (53 : Nat) * 2 ^ (2045 : Nat) := Nat.mul_le_mul_left _ (Nat.pow_le_pow_right (by decide) h.2.1)
    _ ≤ 2 ^ (1024 : Nat) * unitsInOne := by decide +kernel

theorem ofDecimal_exactDecimal {mantissa exponent : Nat} (h : Canonical mantissa exponent) (nonzero : mantissa ≠ 0) :
    ofDecimal false (exactDecimal (mantissa * 2 ^ exponent)) = .finite false mantissa exponent h := by
  have positive : 0 < mantissa * 2 ^ exponent := Nat.mul_pos (Nat.pos_of_ne_zero nonzero) (Nat.two_pow_pos _)
  have bound := units_lt h
  rw [← round_canonical false h]
  generalize mantissa * 2 ^ exponent = units at positive bound
  have power : 0 < 5 ^ unitExponent := Nat.pow_pos (by decide)
  have lower : 743 < Decimal.length (units * 5 ^ unitExponent) := by
    refine (Decimal.lt_length_iff (by decide)).2 ?_
    calc
      10 ^ (743 : Nat) ≤ 5 ^ unitExponent := by decide +kernel
      _ ≤ units * 5 ^ unitExponent := Nat.le_mul_of_pos_left _ positive
  have upper : Decimal.length (units * 5 ^ unitExponent) ≤ 1383 := by
    refine (Decimal.length_le_iff (by decide)).2 ?_
    calc
      units * 5 ^ unitExponent < 2 ^ (1024 : Nat) * unitsInOne * 5 ^ unitExponent :=
        Nat.mul_lt_mul_of_pos_right bound power
      _ ≤ 10 ^ (1383 : Nat) := by decide +kernel
  have point : Decimal.point (exactDecimal units) = Decimal.length (units * 5 ^ unitExponent) - 1074 := rfl
  have high : ¬ 310 < Decimal.point (exactDecimal units) := by omega
  have low : ¬ Decimal.point (exactDecimal units) < -330 := by omega
  unfold ofDecimal
  rw [if_neg high, if_neg low]
  unfold exactDecimal
  dsimp only
  rw [if_neg (Nat.ne_of_gt (Nat.mul_pos positive power)), Int.neg_neg, Int.toNat_natCast, Int.toNat_neg_natCast]
  refine round_congr false (Nat.pow_pos (by decide)) (by decide) ?_
  rw [unitsInOne, Nat.pow_zero, Nat.mul_one, Nat.mul_one, Nat.mul_assoc, ← Nat.mul_pow]

/-- The shortest decimal of a double is read as the double. -/
theorem ofDecimal_shortest {mantissa exponent : Nat} (h : Canonical mantissa exponent) (nonzero : mantissa ≠ 0) :
    ofDecimal false (shortest mantissa exponent) = .finite false mantissa exponent h := by
  unfold shortest
  dsimp only
  rw [ofDecimal_trimmed]
  generalize hfound : (List.range 17).findSome? _ = found
  cases found with
  | none => exact ofDecimal_exactDecimal h nonzero
  | some d =>
    obtain ⟨n, _, hd⟩ := List.exists_of_findSome?_eq_some hfound
    have reads := List.find?_some hd
    rw [decide_eq_true_eq, ofParts_canonical false h] at reads
    exact reads

end Binary64

end MicroScheme
