import MicroScheme.Binary64.Basic

set_option autoImplicit false

namespace MicroScheme.Binary64

theorem roundQuotient_mul (n : Nat) {den : Nat} (hden : 0 < den) : roundQuotient (n * den) den = n := by
  have even : n * den % den = 0 := Nat.mul_mod_left n den
  rw [roundQuotient, even, if_pos hden, Nat.mul_div_cancel n hden]

theorem roundQuotient_scale {c : Nat} (hc : 0 < c) (num den : Nat) :
    roundQuotient (c * num) (c * den) = roundQuotient num den := by
  have below : 2 * (c * (num % den)) < c * den ↔ 2 * (num % den) < den := by
    rw [Nat.mul_left_comm, Nat.mul_lt_mul_left hc]
  have above : c * den < 2 * (c * (num % den)) ↔ den < 2 * (num % den) := by
    rw [Nat.mul_left_comm, Nat.mul_lt_mul_left hc]
  rw [roundQuotient, roundQuotient, Nat.mul_mod_mul_left, Nat.mul_div_mul_left num den hc]
  simp only [below, above]

theorem round_scale (negative : Bool) {c : Nat} (hc : 0 < c) (num den : Nat) :
    round negative (c * num) (c * den) = round negative num den := by
  have quotient := Nat.mul_div_mul_left num den hc
  unfold round
  dsimp only
  rw [quotient, Nat.mul_assoc c den, roundQuotient_scale hc]

theorem round_congr (negative : Bool) {num den num' den' : Nat} (hden : 0 < den) (hden' : 0 < den')
    (equal : num * den' = num' * den) : round negative num den = round negative num' den' := by
  calc
    round negative num den = round negative (den' * num) (den' * den) := (round_scale negative hden' num den).symm
    _ = round negative (den * num') (den * den') := by
      rw [Nat.mul_comm den' num, equal, Nat.mul_comm num' den, Nat.mul_comm den' den]
    _ = round negative num' den' := round_scale negative hden num' den'

theorem ofRatio_congr (negative : Bool) {num den num' den' : Nat} (hden : 0 < den) (hden' : 0 < den')
    (equal : num * den' = num' * den) : ofRatio negative num den = ofRatio negative num' den' := by
  refine round_congr negative hden hden' ?_
  rw [Nat.mul_right_comm, equal, Nat.mul_right_comm]

theorem binade_canonical {mantissa exponent : Nat} (h : Canonical mantissa exponent) :
    binade (mantissa * 2 ^ exponent) = exponent := by
  obtain ⟨upper, _, normal⟩ := h
  unfold binade
  rcases Nat.eq_zero_or_pos exponent with rfl | positive
  · rw [Nat.pow_zero, Nat.mul_one]
    rcases Nat.eq_zero_or_pos mantissa with rfl | nonzero
    · rfl
    · have bits := (Nat.log2_lt (Nat.ne_of_gt nonzero)).2 upper
      omega
  · have lower := normal (Nat.ne_of_gt positive)
    have power : 0 < 2 ^ exponent := Nat.two_pow_pos exponent
    have nonzero : mantissa * 2 ^ exponent ≠ 0 := by
      have units := Nat.mul_pos (Nat.lt_of_lt_of_le (Nat.two_pow_pos 52) lower) power
      exact Nat.ne_of_gt units
    have bits : (mantissa * 2 ^ exponent).log2 = 52 + exponent := by
      refine (Nat.log2_eq_iff nonzero).2 ⟨?_, ?_⟩
      · rw [Nat.pow_add]
        exact Nat.mul_le_mul_right _ lower
      · rw [Nat.add_right_comm, Nat.pow_add]
        exact Nat.mul_lt_mul_of_pos_right upper power
    rw [bits]
    exact Nat.add_sub_cancel_left 52 exponent

theorem ofParts_canonical (negative : Bool) {mantissa exponent : Nat} (h : Canonical mantissa exponent) :
    ofParts negative mantissa exponent = .finite negative mantissa exponent h := by
  rw [ofParts, dif_pos h]

/-- A double is rounded to itself. -/
theorem round_canonical (negative : Bool) {mantissa exponent : Nat} (h : Canonical mantissa exponent) :
    round negative (mantissa * 2 ^ exponent) 1 = .finite negative mantissa exponent h := by
  unfold round
  dsimp only
  rw [Nat.div_one, binade_canonical h, Nat.one_mul, roundQuotient_mul mantissa (Nat.two_pow_pos exponent)]
  rw [if_neg (Nat.ne_of_lt h.1), ofParts_canonical negative h]

theorem ofParts_ne_nan (negative : Bool) (mantissa exponent : Nat) : ofParts negative mantissa exponent ≠ .nan := by
  unfold ofParts
  split <;> exact fun same => nomatch same

theorem round_ne_nan (negative : Bool) (num den : Nat) : round negative num den ≠ .nan := by
  unfold round
  dsimp only
  split <;> exact ofParts_ne_nan negative _ _

theorem isZero_ofParts (negative : Bool) {mantissa exponent : Nat} (positive : 0 < mantissa) :
    (ofParts negative mantissa exponent).isZero = false := by
  unfold ofParts
  split
  · exact decide_eq_false (Nat.ne_of_gt positive)
  · rfl

theorem div_le_roundQuotient (num den : Nat) : num / den ≤ roundQuotient num den := by
  unfold roundQuotient
  split
  · exact Nat.le_refl _
  · split
    · exact Nat.le_succ _
    · exact Nat.le_add_right _ _

theorem isZero_round (negative : Bool) {units : Nat} (positive : 0 < units) :
    (round negative units 1).isZero = false := by
  unfold round
  dsimp only
  rw [Nat.div_one, Nat.one_mul]
  have power : 2 ^ binade units ≤ units := by
    calc
      2 ^ binade units ≤ 2 ^ units.log2 := Nat.pow_le_pow_right (by decide) (Nat.sub_le _ _)
      _ ≤ units := Nat.log2_self_le (Nat.ne_of_gt positive)
  have mantissa : 0 < roundQuotient units (2 ^ binade units) :=
    Nat.lt_of_lt_of_le (Nat.div_pos power (Nat.two_pow_pos _)) (div_le_roundQuotient _ _)
  split
  · exact isZero_ofParts negative (Nat.two_pow_pos 52)
  · exact isZero_ofParts negative mantissa

theorem isZero_ofInt {n : Int} (nonzero : n ≠ 0) : (ofInt n).isZero = false :=
  isZero_round _ (Nat.mul_pos (Int.natAbs_pos.2 nonzero) (Nat.two_pow_pos unitExponent))

theorem isZero_iff {x : Binary64} : x.isZero = true ↔ ∃ negative, x = zero negative := by
  cases x with
  | nan => simp [isZero, zero]
  | infinite => simp [isZero, zero]
  | finite negative mantissa exponent canonical =>
    rw [isZero, decide_eq_true_eq]
    constructor
    · rintro rfl
      have least : exponent = 0 := Decidable.byContradiction fun above => absurd (canonical.2.2 above) (by decide)
      subst least
      exact ⟨negative, rfl⟩
    · rintro ⟨_, same⟩
      exact (Binary64.finite.inj same).2.1

def withSign (negative : Bool) : Binary64 → Binary64
  | .nan => .nan
  | .infinite _ => .infinite negative
  | .finite _ mantissa exponent h => .finite negative mantissa exponent h

theorem ofParts_withSign (s t : Bool) (mantissa exponent : Nat) :
    (ofParts s mantissa exponent).withSign t = ofParts t mantissa exponent := by
  unfold ofParts
  split <;> rfl

theorem round_withSign (s t : Bool) (num den : Nat) : (round s num den).withSign t = round t num den := by
  unfold round
  dsimp only
  split <;> exact ofParts_withSign s t _ _

end MicroScheme.Binary64
