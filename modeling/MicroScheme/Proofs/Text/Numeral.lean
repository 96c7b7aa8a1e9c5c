import MicroScheme.Proofs.Binary64.Decimal
import MicroScheme.Proofs.Text.Grammar

set_option autoImplicit false

namespace MicroScheme.Numeral

open Text
open scoped Binary64

def AllDigits (cs : List Char) : Prop := ∀ c ∈ cs, c.isDigit = true

theorem isDigit_iff (c : Char) : c.isDigit = true ↔ 48 ≤ c.toNat ∧ c.toNat ≤ 57 := by
  simp only [Char.isDigit, Bool.and_eq_true, decide_eq_true_eq, ge_iff_le, UInt32.le_iff_toNat_le]
  rfl

theorem digitValue?_of_isDigit {c : Char} (h : c.isDigit = true) : digitValue? c = some (c.toNat - 48) := by
  obtain ⟨lower, upper⟩ := (isDigit_iff c).1 h
  have first : (decide (0x30 ≤ c.toNat) && decide (c.toNat < 0x30 + 10)) = true := by
    rw [Bool.and_eq_true, decide_eq_true_eq, decide_eq_true_eq]
    omega
  have found : decimalZeros.find? (fun z => z ≤ c.toNat && c.toNat < z + 10) = some 0x30 :=
    List.find?_cons_of_pos first
  rw [digitValue?, found]
  rfl

theorem allDigits_toDigits (n : Nat) : AllDigits (Nat.toDigits 10 n) :=
  fun _ mem => Nat.isDigit_of_mem_toDigits (by decide) (by decide) mem

theorem AllDigits.append {cs ds : List Char} (hcs : AllDigits cs) (hds : AllDigits ds) : AllDigits (cs ++ ds) :=
  List.forall_mem_append.2 ⟨hcs, hds⟩

theorem AllDigits.zeros (n : Nat) : AllDigits (List.replicate n '0') := by
  intro c mem
  rw [List.eq_of_mem_replicate mem]
  rfl

theorem AllDigits.digits {cs : List Char} (h : AllDigits cs) (nonempty : cs ≠ []) :
    Digits cs (cs.map fun c => c.toNat - 48) := by
  induction cs with
  | nil => exact absurd rfl nonempty
  | cons c cs ih =>
    obtain ⟨hc, hcs⟩ := List.forall_mem_cons.1 h
    cases cs with
    | nil => exact .one (digitValue?_of_isDigit hc)
    | cons c' cs => exact .next (digitValue?_of_isDigit hc) (ih hcs (List.cons_ne_nil _ _))

theorem digits?_of_digits {cs : List Char} (h : AllDigits cs) (nonempty : cs ≠ []) :
    digits? cs = some (cs.map fun c => c.toNat - 48) :=
  (h.digits nonempty).reads

theorem run?_of_digits {cs : List Char} (h : AllDigits cs) : run? cs = some (cs.map fun c => c.toNat - 48) := by
  cases cs with
  | nil => rfl
  | cons c cs => exact digits?_of_digits h (List.cons_ne_nil c cs)

theorem ofDigits_map (cs : List Char) : ofDigits (cs.map fun c => c.toNat - 48) = Nat.ofDigitChars 10 cs 0 := by
  rw [ofDigits, List.foldl_map, Nat.ofDigitChars_eq_foldl]
  rfl

theorem ofDigits_toDigits (n : Nat) : ofDigits ((Nat.toDigits 10 n).map fun c => c.toNat - 48) = n := by
  rw [ofDigits_map, Nat.ofDigitChars_ten_toDigits]

theorem ofDigitChars_zeros_append (n : Nat) (cs : List Char) :
    Nat.ofDigitChars 10 (List.replicate n '0' ++ cs) 0 = Nat.ofDigitChars 10 cs 0 := by
  rw [Nat.ofDigitChars_append, Nat.ofDigitChars_replicate_zero, Nat.mul_zero]

theorem exponent?_nil : exponent? [] = some 0 := rfl

theorem decimal?_fraction {whole fraction tail : List Char} {e : Int} (hw : AllDigits whole)
    (hf : AllDigits fraction) (nonempty : whole ≠ []) (he : exponent? tail = some e) :
    decimal? (whole ++ '.' :: (fraction ++ tail)) =
      some ⟨Nat.ofDigitChars 10 (whole ++ fraction) 0, e - fraction.length⟩ := by
  have written : ¬ ((whole.map fun c => c.toNat - 48) = [] ∧ (fraction.map fun c => c.toNat - 48) = []) := fun none =>
    nonempty (List.map_eq_nil_iff.1 none.1)
  rw [decimal?_pointed (run?_of_digits hw) (run?_of_digits hf) written (exponent?_eq_some.1 he), ← List.map_append,
    ofDigits_map, List.length_map]

theorem decimal?_digits {whole tail : List Char} {e : Int} (hw : AllDigits whole) (nonempty : whole ≠ [])
    (he : exponent? tail = some e) : decimal? (whole ++ tail) = some ⟨Nat.ofDigitChars 10 whole 0, e⟩ := by
  rw [decimal?_whole (digits?_of_digits hw nonempty) (exponent?_eq_some.1 he), ofDigits_map]

theorem exponent?_exponentText (format : Binary64.Layout) (e : Int) :
    exponent? (Binary64.exponentText format e) = some e := by
  have digits : ∀ zeros, digits? (List.replicate zeros '0' ++ Nat.toDigits 10 e.natAbs) =
      some ((List.replicate zeros '0' ++ Nat.toDigits 10 e.natAbs).map fun c => c.toNat - 48) := fun zeros =>
    digits?_of_digits ((AllDigits.zeros zeros).append (allDigits_toDigits _)) fun empty =>
      Nat.toDigits_ne_nil (List.append_eq_nil_iff.1 empty).2
  have value : ∀ zeros, ofDigits ((List.replicate zeros '0' ++ Nat.toDigits 10 e.natAbs).map fun c => c.toNat - 48) =
      e.natAbs := fun zeros => by
    rw [ofDigits_map, ofDigitChars_zeros_append, Nat.ofDigitChars_ten_toDigits]
  have letter : (decide ('e' = 'e') || decide ('e' = 'E')) = true := rfl
  unfold Binary64.exponentText exponent?
  dsimp only
  rw [if_pos letter]
  by_cases negative : e < 0
  · rw [if_pos negative, splitSign]
    simp only [digits, value, Option.bind_eq_bind, Option.bind_some, if_true]
    exact congrArg some (by omega)
  · rw [if_neg negative, splitSign]
    simp only [digits, value, Option.bind_eq_bind, Option.bind_some, Bool.false_eq_true, if_false]
    exact congrArg some (by omega)

section Layouts

variable {ds : List Char} (digits : AllDigits ds)

include digits

theorem decimal?_scientific (nonempty : ds ≠ []) (format : Binary64.Layout) (point : Int) :
    decimal? (ds.take 1 ++ (if ds.length = 1 then [] else '.' :: ds.drop 1) ++
      Binary64.exponentText format (point - 1)) = some ⟨Nat.ofDigitChars 10 ds 0, point - ds.length⟩ := by
  have exponent := exponent?_exponentText format (point - 1)
  have first : AllDigits (ds.take 1) := fun c mem => digits c (List.mem_of_mem_take mem)
  have rest : AllDigits (ds.drop 1) := fun c mem => digits c (List.mem_of_mem_drop mem)
  have positive := List.length_pos_iff.2 nonempty
  have leading : ds.take 1 ≠ [] := fun empty => by
    have count := List.length_take_of_le positive
    rw [empty] at count
    cases count
  split
  · next sole =>
    have whole : ds.take 1 = ds := List.take_of_length_le (Nat.le_of_eq sole)
    rw [List.append_nil, decimal?_digits first leading exponent, whole, sole]
    rfl
  · have places : point - 1 - (ds.drop 1).length = point - ds.length := by
      rw [List.length_drop]
      omega
    rw [List.append_assoc, List.cons_append, decimal?_fraction first rest leading exponent,
      List.take_append_drop, places]

theorem decimal?_small (zeros : Nat) :
    decimal? ('0' :: '.' :: (List.replicate zeros '0' ++ ds)) =
      some ⟨Nat.ofDigitChars 10 ds 0, -(zeros : Int) - ds.length⟩ := by
  have fraction := (AllDigits.zeros zeros).append digits
  have split := decimal?_fraction (AllDigits.zeros 1) fraction (List.cons_ne_nil _ _) exponent?_nil
  have places : (0 : Int) - (List.replicate zeros '0' ++ ds).length = -(zeros : Int) - ds.length := by
    rw [List.length_append, List.length_replicate]
    omega
  rw [List.append_nil, ofDigitChars_zeros_append, ofDigitChars_zeros_append, places] at split
  exact split

theorem decimal?_large (nonempty : ds ≠ []) (zeros : Nat) :
    decimal? (ds ++ List.replicate zeros '0' ++ ['.', '0']) =
      some ⟨Nat.ofDigitChars 10 ds 0 * 10 ^ (zeros + 1), -1⟩ := by
  have whole := digits.append (AllDigits.zeros zeros)
  have leading : ds ++ List.replicate zeros '0' ≠ [] := fun empty => nonempty (List.append_eq_nil_iff.1 empty).1
  have split := decimal?_fraction whole (AllDigits.zeros 1) leading exponent?_nil
  have value : Nat.ofDigitChars 10 (ds ++ List.replicate zeros '0' ++ List.replicate 1 '0') 0 =
      Nat.ofDigitChars 10 ds 0 * 10 ^ (zeros + 1) := by
    rw [List.append_assoc, List.replicate_append_replicate, Nat.ofDigitChars_append,
      Nat.ofDigitChars_replicate_zero, Nat.mul_comm]
  rw [value] at split
  exact split

theorem decimal?_mixed {point : Nat} (positive : 0 < point) (within : point ≤ ds.length) :
    decimal? (ds.take point ++ '.' :: ds.drop point) =
      some ⟨Nat.ofDigitChars 10 ds 0, (point : Int) - ds.length⟩ := by
  have whole : AllDigits (ds.take point) := fun c mem => digits c (List.mem_of_mem_take mem)
  have fraction : AllDigits (ds.drop point) := fun c mem => digits c (List.mem_of_mem_drop mem)
  have leading : ds.take point ≠ [] := fun empty => by
    have count := List.length_take_of_le within
    rw [empty] at count
    exact Nat.ne_of_gt positive count.symm
  have split := decimal?_fraction whole fraction leading exponent?_nil
  have places : (0 : Int) - (ds.drop point).length = (point : Int) - ds.length := by
    rw [List.length_drop]
    omega
  rw [List.append_nil, List.take_append_drop, places] at split
  exact split

end Layouts

/-- However a decimal is laid out, it is read as the same number, perhaps with zeros at its end. -/
theorem decimal?_decimalText (format : Binary64.Layout) (d : Decimal) :
    ∃ j : Nat, decimal? (Binary64.decimalText format d) = some ⟨d.digits * 10 ^ j, d.exponent - j⟩ := by
  have digits := allDigits_toDigits d.digits
  have value : Nat.ofDigitChars 10 (Nat.toDigits 10 d.digits) 0 = d.digits := Nat.ofDigitChars_ten_toDigits
  have nonempty : Nat.toDigits 10 d.digits ≠ [] := Nat.toDigits_ne_nil
  have length : d.point = (Nat.toDigits 10 d.digits).length + d.exponent := rfl
  have unshifted : (⟨d.digits * 10 ^ 0, d.exponent - (0 : Nat)⟩ : Decimal) = d := by simp
  unfold Binary64.decimalText
  dsimp only
  generalize Nat.toDigits 10 d.digits = ds at digits value nonempty length
  have exponent : d.point - ds.length = d.exponent := by omega
  split
  · refine ⟨0, ?_⟩
    rw [decimal?_scientific digits nonempty, value, exponent, unshifted]
  · split
    · refine ⟨0, ?_⟩
      have places : -((-d.point).toNat : Int) - ds.length = d.exponent := by omega
      rw [decimal?_small digits, value, places, unshifted]
    · split
      · next long =>
        refine ⟨d.point.toNat - ds.length + 1, ?_⟩
        have places : d.exponent - (d.point.toNat - ds.length + 1 : Nat) = -1 := by omega
        rw [decimal?_large digits nonempty, value, places]
      · refine ⟨0, ?_⟩
        have places : (d.point.toNat : Int) - ds.length = d.exponent := by omega
        rw [decimal?_mixed digits (by omega) (by omega), value, places, unshifted]

end MicroScheme.Numeral
