import MicroScheme.Numeral
import MicroScheme.Number
import MicroScheme.Proofs.Binary64.Decimal

set_option autoImplicit false

namespace MicroScheme

open scoped Binary64

theorem Number.equal_int (m n : Int) : (Number.int m).equal (.int n) = decide (m = n) := by
  have units : (Binary64.unitsInOne : Int) ≠ 0 := Int.natCast_ne_zero.2 (Nat.ne_of_gt (Nat.two_pow_pos _))
  change decide (Position.units _ = Position.units _) = _
  rw [decide_eq_decide, Position.units.injEq, Int.mul_eq_mul_right_iff units]

/-- Some double is equal to the integer. -/
def Representable (n : Int) : Prop := ∃ x : Binary64, Number.equal (.float x) (.int n) = true

namespace Representable

open Binary64

theorem natAbs_signed (negative : Bool) (units : Nat) : (signed negative units).natAbs = units := by
  unfold signed
  split
  · rw [Int.natAbs_neg, Int.natAbs_natCast]
  · rw [Int.natAbs_natCast]

theorem equal_finite (negative : Bool) {mantissa exponent : Nat} (h : Canonical mantissa exponent) (n : Int) :
    Number.equal (.float (.finite negative mantissa exponent h)) (.int n) = true ↔
      signed negative (mantissa * 2 ^ exponent) = n * (unitsInOne : Int) := by
  change decide (Position.units _ = Position.units _) = true ↔ _
  rw [decide_eq_true_eq, Position.units.injEq]

theorem parts {n : Int} (h : Representable n) :
    ∃ mantissa exponent, Canonical mantissa exponent ∧ mantissa * 2 ^ exponent = n.natAbs * unitsInOne := by
  obtain ⟨x, equal⟩ := h
  cases x with
  | nan => cases equal
  | infinite negative => cases negative <;> cases equal
  | finite negative mantissa exponent canonical =>
    refine ⟨mantissa, exponent, canonical, ?_⟩
    have same := congrArg Int.natAbs ((equal_finite negative canonical n).1 equal)
    rw [natAbs_signed, Int.natAbs_mul, Int.natAbs_natCast] at same
    exact same

theorem natAbs_lt {n : Int} (h : Representable n) : n.natAbs < 2 ^ (1024 : Nat) := by
  obtain ⟨mantissa, exponent, canonical, same⟩ := h.parts
  refine Nat.lt_of_mul_lt_mul_right (a := unitsInOne) ?_
  rw [← same]
  exact units_lt canonical

theorem length_le {n : Int} (h : Representable n) : Decimal.length n.natAbs ≤ 309 := by
  refine (Decimal.length_le_iff (by decide)).2 ?_
  calc
    n.natAbs < 2 ^ (1024 : Nat) := h.natAbs_lt
    _ ≤ 10 ^ (309 : Nat) := by decide +kernel

theorem isWritable {n : Int} (h : Representable n) : Numeral.isWritable n = true := by
  have few : Decimal.length n.natAbs ≤ Numeral.digitLimit := Nat.le_trans h.length_le (by decide)
  exact decide_eq_true ((Decimal.length_le_iff (by decide)).1 few)

theorem signed_natAbs (n : Int) (units : Nat) : signed (n < 0) (n.natAbs * units) = n * (units : Int) := by
  unfold signed
  rw [Int.natCast_mul]
  split
  · next negative =>
    rw [decide_eq_true_eq] at negative
    have size : (n.natAbs : Int) = -n := by omega
    rw [size, Int.neg_mul, Int.neg_neg]
  · next positive =>
    rw [decide_eq_true_eq] at positive
    have size : (n.natAbs : Int) = n := by omega
    rw [size]

theorem equal_ofDecimal {n : Int} (h : Representable n) :
    Number.equal (.float (ofDecimal (n < 0) ⟨n.natAbs, 0⟩)) (.int n) = true := by
  by_cases zero : n = 0
  · have none : n.natAbs = 0 := Int.natAbs_eq_zero.2 zero
    have same : signed (n < 0) (0 * 2 ^ 0) = n * (unitsInOne : Int) := by
      rw [zero, Nat.zero_mul, Int.zero_mul]
      rfl
    rw [ofDecimal, if_pos none]
    exact (equal_finite _ (by decide : Canonical 0 0) n).2 same
  · obtain ⟨mantissa, exponent, canonical, same⟩ := h.parts
    have nonzero : n.natAbs ≠ 0 := Int.natAbs_ne_zero.2 zero
    have few := h.length_le
    have point : Decimal.point ⟨n.natAbs, 0⟩ = Decimal.length n.natAbs := Int.add_zero _
    have high : ¬ 310 < Decimal.point ⟨n.natAbs, 0⟩ := by omega
    have low : ¬ Decimal.point ⟨n.natAbs, 0⟩ < -330 := by omega
    have reads : ofDecimal (n < 0) ⟨n.natAbs, 0⟩ = .finite (n < 0) mantissa exponent canonical := by
      rw [ofDecimal, if_neg nonzero, if_neg high, if_neg low]
      dsimp only
      rw [Int.neg_zero, Int.toNat_zero, Nat.pow_zero, Nat.mul_one, ofRatio, ← same, round_canonical]
    rw [reads, equal_finite, same, signed_natAbs]

theorem equal_signed {negative : Bool} {m : Nat} (h : Representable (signed negative m)) :
    Number.equal (.float (ofDecimal negative ⟨m, 0⟩)) (.int (signed negative m)) = true := by
  rcases Nat.eq_zero_or_pos m with rfl | positive
  · have zero : signed negative 0 = 0 := by cases negative <;> rfl
    have same : signed negative (0 * 2 ^ 0) = signed negative 0 * (unitsInOne : Int) := by
      rw [Nat.zero_mul, zero, Int.zero_mul]
    rw [ofDecimal, if_pos rfl]
    exact (equal_finite negative (by decide : Canonical 0 0) _).2 same
  · have size : (signed negative m).natAbs = m := natAbs_signed negative m
    have sign : decide (signed negative m < 0) = negative := by
      cases negative
      · exact decide_eq_false (Int.not_lt.2 (Int.natCast_nonneg m))
      · exact decide_eq_true (Int.neg_neg_of_pos (Int.natCast_pos.2 positive))
    have equal := h.equal_ofDecimal
    rw [size, sign] at equal
    exact equal

end Representable

/-- The integer is below 2^1024 and has at most 53 bits before the zeros at its end. -/
def FitsDouble (n : Int) : Prop :=
  n.natAbs < 2 ^ (1024 : Nat) ∧ ∃ bits zeros : Nat, bits < 2 ^ (53 : Nat) ∧ n.natAbs = bits * 2 ^ zeros

namespace FitsDouble

open Binary64

theorem of_representable {n : Int} (h : Representable n) : FitsDouble n := by
  obtain ⟨mantissa, exponent, canonical, same⟩ := h.parts
  refine ⟨h.natAbs_lt, ?_⟩
  rcases Nat.le_total unitExponent exponent with whole | fractional
  · refine ⟨mantissa, exponent - unitExponent, canonical.1, ?_⟩
    refine Nat.eq_of_mul_eq_mul_right (Nat.two_pow_pos unitExponent) (same.symm.trans ?_)
    rw [Nat.mul_assoc, ← Nat.pow_add, Nat.sub_add_cancel whole]
  · have small : n.natAbs ≤ mantissa := by
      refine Nat.le_of_mul_le_mul_right ?_ (Nat.two_pow_pos exponent)
      calc
        n.natAbs * 2 ^ exponent ≤ n.natAbs * unitsInOne :=
          Nat.mul_le_mul_left _ (Nat.pow_le_pow_right (by decide) fractional)
        _ = mantissa * 2 ^ exponent := same.symm
    exact ⟨n.natAbs, 0, Nat.lt_of_le_of_lt small canonical.1, (Nat.mul_one _).symm⟩

theorem parts {n : Int} (h : FitsDouble n) :
    ∃ mantissa exponent, Canonical mantissa exponent ∧ mantissa * 2 ^ exponent = n.natAbs * unitsInOne := by
  obtain ⟨bound, bits, zeros, few, same⟩ := h
  rcases Nat.eq_zero_or_pos bits with rfl | positive
  · refine ⟨0, 0, by decide, ?_⟩
    rw [same, Nat.zero_mul, Nat.zero_mul, Nat.zero_mul]
  · have nonzero : bits ≠ 0 := Nat.ne_of_gt positive
    have short : bits.log2 < 53 := (Nat.log2_lt nonzero).2 few
    have lower : 2 ^ bits.log2 ≤ bits := Nat.log2_self_le nonzero
    have place : bits.log2 + zeros < 1024 := by
      refine (Nat.pow_lt_pow_iff_right (by decide : 1 < 2)).1 ?_
      calc
        2 ^ (bits.log2 + zeros) = 2 ^ bits.log2 * 2 ^ zeros := Nat.pow_add 2 _ _
        _ ≤ bits * 2 ^ zeros := Nat.mul_le_mul_right _ lower
        _ < 2 ^ (1024 : Nat) := same ▸ bound
    have upper : bits * 2 ^ (52 - bits.log2) < 2 ^ (53 : Nat) := by
      calc
        bits * 2 ^ (52 - bits.log2) < 2 ^ (bits.log2 + 1) * 2 ^ (52 - bits.log2) :=
          Nat.mul_lt_mul_of_pos_right Nat.lt_log2_self (Nat.two_pow_pos _)
        _ = 2 ^ (53 : Nat) := by rw [← Nat.pow_add]; congr 1; omega
    have leading : 2 ^ (52 : Nat) ≤ bits * 2 ^ (52 - bits.log2) := by
      calc
        2 ^ (52 : Nat) = 2 ^ bits.log2 * 2 ^ (52 - bits.log2) := by rw [← Nat.pow_add]; congr 1; omega
        _ ≤ bits * 2 ^ (52 - bits.log2) := Nat.mul_le_mul_right _ lower
    have scale : unitExponent = 1074 := rfl
    have canonical : Canonical (bits * 2 ^ (52 - bits.log2)) (zeros + unitExponent - (52 - bits.log2)) :=
      ⟨upper, by omega, fun _ => leading⟩
    refine ⟨_, _, canonical, ?_⟩
    rw [Nat.mul_assoc, ← Nat.pow_add, Nat.add_sub_cancel' (by omega), Nat.pow_add, ← Nat.mul_assoc, ← same, unitsInOne]

theorem representable {n : Int} (h : FitsDouble n) : Representable n := by
  obtain ⟨mantissa, exponent, canonical, same⟩ := h.parts
  refine ⟨.finite (n < 0) mantissa exponent canonical, ?_⟩
  rw [Representable.equal_finite, same, Representable.signed_natAbs]

end FitsDouble

theorem representable_iff {n : Int} : Representable n ↔ FitsDouble n :=
  ⟨.of_representable, FitsDouble.representable⟩

end MicroScheme
