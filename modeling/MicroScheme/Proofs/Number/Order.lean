import Mathlib.Algebra.Order.Field.Rat
import Mathlib.Order.WithBot
import Mathlib.Tactic.Positivity
import MicroScheme.Number

set_option autoImplicit false

/-!
Order of numbers. Every number but NaN has an exact place on the rational line with an end on either side, and two
numbers are compared by these places, without any rounding (`less_iff`, `equal_iff`).
-/

namespace MicroScheme

open scoped Binary64

abbrev Line := WithBot (WithTop ℚ)

namespace Line

def ofRational (q : ℚ) : Line := ((q : WithTop ℚ) : Line)

variable {p q : ℚ}

theorem ofRational_lt_iff : ofRational p < ofRational q ↔ p < q := by
  rw [ofRational, ofRational, WithBot.coe_lt_coe, WithTop.coe_lt_coe]

theorem ofRational_inj : ofRational p = ofRational q ↔ p = q := by
  rw [ofRational, ofRational, WithBot.coe_inj, WithTop.coe_inj]

theorem bot_lt_ofRational (q : ℚ) : ⊥ < ofRational q := WithBot.bot_lt_coe _

theorem ofRational_lt_top (q : ℚ) : ofRational q < ⊤ := WithBot.coe_lt_coe.2 (WithTop.coe_lt_top q)

end Line

namespace Position

theorem scale_pos : (0 : ℚ) < 2 ^ 1074 := by positivity

def place : Position → Line
  | .below => ⊥
  | .units n => Line.ofRational (n / 2 ^ 1074)
  | .above => ⊤

theorem less_iff_place {p q : Position} : p.less q = true ↔ p.place < q.place := by
  cases p with
  | below =>
    cases q with
    | below => simp [less, place]
    | units n => simp [less, place, Line.bot_lt_ofRational]
    | above => simp [less, place]
  | units m =>
    cases q with
    | below => simp [less, place]
    | units n =>
      rw [less, place, place, Line.ofRational_lt_iff, div_lt_div_iff_of_pos_right scale_pos, Int.cast_lt,
        decide_eq_true_eq]
    | above => simp [less, place, Line.ofRational_lt_top]
  | above => cases q <;> simp [less, place]

theorem less_or_eq_or_less (p q : Position) : p.less q = true ∨ p = q ∨ q.less p = true := by
  cases p <;> cases q <;> simp [less]
  omega

theorem place_inj {p q : Position} : p.place = q.place ↔ p = q := by
  refine ⟨fun same => ?_, fun same => same ▸ rfl⟩
  rcases less_or_eq_or_less p q with less | equal | less
  · exact absurd same (ne_of_lt (less_iff_place.1 less))
  · exact equal
  · exact absurd same.symm (ne_of_lt (less_iff_place.1 less))

end Position

/-- The dyadic rational that a finite double denotes. -/
def Binary64.rational (negative : Bool) (mantissa exponent : Nat) : ℚ :=
  (if negative then -1 else 1) * mantissa * 2 ^ ((exponent : ℤ) - 1074)

theorem Binary64.rational_eq (negative : Bool) (mantissa exponent : Nat) :
    rational negative mantissa exponent = (signed negative (mantissa * 2 ^ exponent) : ℤ) / 2 ^ 1074 := by
  have power : (2 : ℚ) ^ ((exponent : ℤ) - 1074) = 2 ^ exponent / 2 ^ 1074 := by
    rw [zpow_sub₀ two_ne_zero, zpow_natCast]
    rfl
  rw [rational, power, ← mul_div_assoc, signed]
  cases negative <;> simp

namespace Number

/-- The exact place of a number. NaN has none. -/
def place? : Number → Option Line
  | .int n => some (Line.ofRational n)
  | .float .nan => none
  | .float (.infinite negative) => some (if negative then ⊥ else ⊤)
  | .float (.finite negative mantissa exponent _) =>
    some (Line.ofRational (Binary64.rational negative mantissa exponent))

theorem place?_eq (a : Number) : a.place? = a.position?.map Position.place := by
  cases a with
  | int n =>
    have units : ((n * (Binary64.unitsInOne : Int) : Int) : ℚ) / 2 ^ 1074 = n := by
      -- stated apart, since the power must not be computed
      have one : ((Binary64.unitsInOne : Int) : ℚ) = 2 ^ 1074 := by
        rw [Binary64.unitsInOne, Int.cast_natCast, Nat.cast_pow]
        rfl
      rw [Int.cast_mul, one, mul_div_cancel_right₀ _ Position.scale_pos.ne']
    rw [place?, position?, Option.map_some, Position.place, units]
  | float x =>
    cases x with
    | nan => rfl
    | infinite negative => cases negative <;> rfl
    | finite negative mantissa exponent canonical =>
      rw [place?, Binary64.rational_eq]
      rfl

variable {a b c : Number} {p q : Line}

theorem place?_eq_none_iff : a.place? = none ↔ a = .float .nan := by
  cases a with
  | int n => simp [place?]
  | float x => cases x <;> simp [place?]

theorem less_iff : a.less b = true ↔ ∃ p q, a.place? = some p ∧ b.place? = some q ∧ p < q := by
  rw [place?_eq, place?_eq, less]
  cases a.position? <;> cases b.position? <;> simp [Position.less_iff_place]

theorem equal_iff : a.equal b = true ↔ ∃ p, a.place? = some p ∧ b.place? = some p := by
  rw [place?_eq, place?_eq, equal]
  cases a.position? <;> cases b.position? <;> simp [Position.place_inj, eq_comm]

theorem less_trans (first : a.less b = true) (next : b.less c = true) : a.less c = true := by
  obtain ⟨p, q, ha, hb, lower⟩ := less_iff.1 first
  obtain ⟨q', r, hb', hc, higher⟩ := less_iff.1 next
  obtain rfl : q = q' := Option.some.inj (hb.symm.trans hb')
  exact less_iff.2 ⟨p, r, ha, hc, lower.trans higher⟩

section

variable (ha : a.place? = some p) (hb : b.place? = some q)
include ha hb

theorem less_iff_lt : a.less b = true ↔ p < q := by simp [less_iff, ha, hb]

theorem equal_iff_eq : a.equal b = true ↔ p = q := by
  simpa [equal_iff, ha, hb] using eq_comm

end

theorem equal_comm (a b : Number) : a.equal b = b.equal a := by
  rw [Bool.eq_iff_iff, equal_iff, equal_iff]
  exact exists_congr fun p => and_comm

theorem not_less_iff :
    a.less b = false ↔ b.less a = true ∨ a.equal b = true ∨ a = .float .nan ∨ b = .float .nan := by
  rw [← place?_eq_none_iff, ← place?_eq_none_iff]
  cases ha : a.place? with
  | none => simp [← Bool.not_eq_true, less_iff, ha]
  | some p =>
    cases hb : b.place? with
    | none => simp [← Bool.not_eq_true, less_iff, hb]
    | some q =>
      rw [← Bool.not_eq_true, less_iff_lt ha hb, less_iff_lt hb ha, equal_iff_eq ha hb, not_lt, le_iff_lt_or_eq]
      simp [eq_comm]

end Number

end MicroScheme
