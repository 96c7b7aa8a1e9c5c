import MicroScheme.Proofs.Text.Word

set_option autoImplicit false

namespace MicroScheme.Numeral

open Text

theorem isBlank_of_visible {c : Char} (above : 0x20 < c.toNat) (below : c.toNat < 0x85) : isBlank c = false := by
  unfold isBlank
  simp only [Bool.or_eq_false_iff, Bool.and_eq_false_iff, decide_eq_false_iff_not, beq_eq_false_iff_ne]
  omega

def IsNumeralChar (c : Char) : Prop := c.isDigit = true ∨ c = '.' ∨ c = 'e' ∨ c = '+' ∨ c = '-'

theorem IsNumeralChar.visible {c : Char} (h : IsNumeralChar c) : 0x20 < c.toNat ∧ c.toNat < 0x85 := by
  rcases h with digit | rfl | rfl | rfl | rfl
  · have bounds := (isDigit_iff c).1 digit
    omega
  all_goals decide

theorem AllDigits.numeral {cs : List Char} (h : AllDigits cs) : ∀ c ∈ cs, IsNumeralChar c :=
  fun c mem => .inl (h c mem)

theorem exponentText_numeral (format : Binary64.Layout) (e : Int) :
    ∀ c ∈ Binary64.exponentText format e, IsNumeralChar c := by
  have digits := ((AllDigits.zeros (format.exponentWidth - (Nat.toDigits 10 e.natAbs).length)).append
    (allDigits_toDigits e.natAbs)).numeral
  unfold Binary64.exponentText
  refine List.forall_mem_cons.2 ⟨.inr (.inr (.inl rfl)), List.forall_mem_cons.2 ⟨?_, digits⟩⟩
  split
  · exact .inr (.inr (.inr (.inr rfl)))
  · exact .inr (.inr (.inr (.inl rfl)))

theorem decimalText_numeral (format : Binary64.Layout) (d : Decimal) :
    ∀ c ∈ Binary64.decimalText format d, IsNumeralChar c := by
  have digits := (allDigits_toDigits d.digits).numeral
  have zeros := fun n => (AllDigits.zeros n).numeral
  have point : IsNumeralChar '.' := .inr (.inl rfl)
  have zero : IsNumeralChar '0' := .inl rfl
  unfold Binary64.decimalText
  dsimp only
  generalize Nat.toDigits 10 d.digits = ds at digits
  have taken : ∀ n, ∀ c ∈ ds.take n, IsNumeralChar c := fun n c mem => digits c (List.mem_of_mem_take mem)
  have dropped : ∀ n, ∀ c ∈ ds.drop n, IsNumeralChar c := fun n c mem => digits c (List.mem_of_mem_drop mem)
  split
  · refine List.forall_mem_append.2 ⟨List.forall_mem_append.2 ⟨taken 1, ?_⟩, exponentText_numeral format _⟩
    split
    · simp
    · exact List.forall_mem_cons.2 ⟨point, dropped 1⟩
  · split
    · refine List.forall_mem_cons.2 ⟨zero, List.forall_mem_cons.2 ⟨point, ?_⟩⟩
      exact List.forall_mem_append.2 ⟨zeros _, digits⟩
    · split
      · refine List.forall_mem_append.2 ⟨List.forall_mem_append.2 ⟨digits, zeros _⟩, ?_⟩
        exact List.forall_mem_cons.2 ⟨point, List.forall_mem_cons.2 ⟨zero, by simp⟩⟩
      · exact List.forall_mem_append.2 ⟨taken _, List.forall_mem_cons.2 ⟨point, dropped _⟩⟩

theorem decimalText_shape (format : Binary64.Layout) (d : Decimal) :
    (∃ c cs, Binary64.decimalText format d = c :: cs ∧ c.isDigit = true) ∧
      ∃ c ∈ Binary64.decimalText format d, isRunChar c = false := by
  have digits := allDigits_toDigits d.digits
  have nonempty : Nat.toDigits 10 d.digits ≠ [] := Nat.toDigits_ne_nil
  unfold Binary64.decimalText
  dsimp only
  generalize Nat.toDigits 10 d.digits = ds at digits nonempty
  cases ds with
  | nil => exact absurd rfl nonempty
  | cons c ds =>
    have first : c.isDigit = true := digits c List.mem_cons_self
    split
    · refine ⟨⟨c, _, rfl, first⟩, 'e', ?_, by decide⟩
      exact List.mem_append_right _ List.mem_cons_self
    · split
      · exact ⟨⟨'0', _, rfl, by decide⟩, '.', List.mem_cons_of_mem _ List.mem_cons_self, by decide⟩
      · split
        · exact ⟨⟨c, _, rfl, first⟩, '.', List.mem_append_right _ List.mem_cons_self, by decide⟩
        · next positive _ =>
          obtain ⟨n, hn⟩ : ∃ n, d.point.toNat = n + 1 := ⟨d.point.toNat - 1, by omega⟩
          rw [hn]
          exact ⟨⟨c, _, rfl, first⟩, '.', List.mem_append_right _ List.mem_cons_self, by decide⟩

def signedText (negative : Bool) (cs : List Char) : List Char := if negative then '-' :: cs else cs

theorem trim_eq_self {cut : Char → Bool} {cs : List Char} (h : ∀ c ∈ cs, cut c = false) : trim cut cs = cs := by
  have keeps : ∀ ds : List Char, (∀ c ∈ ds, cut c = false) → ds.dropWhile cut = ds := by
    intro ds hds
    cases ds with
    | nil => rfl
    | cons c ds =>
      have first := hds c List.mem_cons_self
      exact List.dropWhile_cons_of_neg (by rw [first]; exact Bool.false_ne_true)
  rw [trim, keeps cs h, keeps cs.reverse fun c mem => h c (List.mem_reverse.1 mem), List.reverse_reverse]

theorem isMargin_of_visible {c : Char} (above : 0x20 < c.toNat) (below : c.toNat < 0x85) : isMargin c = false := by
  rw [isMargin, isBlank_of_visible above below]
  rfl

theorem splitSign_digit {c : Char} {cs : List Char} (hc : c.isDigit = true) :
    splitSign (c :: cs) = (false, c :: cs) := by
  unfold splitSign
  split
  · next same => exact absurd ((List.cons.inj same).1 ▸ hc) (by decide)
  · next same => exact absurd ((List.cons.inj same).1 ▸ hc) (by decide)
  · rfl

theorem splitSign_trim (negative : Bool) {c : Char} {cs : List Char} (hc : c.isDigit = true)
    (h : ∀ d ∈ c :: cs, IsNumeralChar d) :
    splitSign (trim isMargin (signedText negative (c :: cs))) = (negative, c :: cs) := by
  have visible : ∀ d ∈ signedText negative (c :: cs), isMargin d = false := by
    have magnitude : ∀ d ∈ c :: cs, isMargin d = false := fun d mem =>
      isMargin_of_visible (h d mem).visible.1 (h d mem).visible.2
    unfold signedText
    split
    · exact List.forall_mem_cons.2 ⟨by decide, magnitude⟩
    · exact magnitude
  rw [trim_eq_self visible]
  cases negative with
  | false => exact splitSign_digit hc
  | true => rfl

theorem double?_signed (negative : Bool) {c : Char} {cs : List Char} {d : Decimal} (hc : c.isDigit = true)
    (h : ∀ d ∈ c :: cs, IsNumeralChar d) (hd : decimal? (c :: cs) = some d) :
    double? (signedText negative (c :: cs)) = some (Binary64.ofDecimal negative d) := by
  rw [double?, splitSign_trim negative hc h]
  dsimp only
  rw [word?_eq_none negative List.mem_cons_self (toLower_of_isDigit (isDigit_of_isDigit hc)), hd]
  rfl

theorem toText_eq (negative : Bool) {mantissa exponent : Nat} (h : Binary64.Canonical mantissa exponent) :
    ∃ c cs d, (Binary64.toText (.finite negative mantissa exponent h)).toList = signedText negative (c :: cs) ∧
      c.isDigit = true ∧ (∀ d ∈ c :: cs, IsNumeralChar d) ∧ (∃ d ∈ c :: cs, isRunChar d = false) ∧
      decimal? (c :: cs) = some d ∧ Binary64.ofDecimal negative d = .finite negative mantissa exponent h := by
  unfold Binary64.toText
  dsimp only
  by_cases zero : mantissa = 0
  · subst zero
    have least : exponent = 0 := Decidable.byContradiction fun large => absurd (h.2.2 large) (by decide)
    subst least
    rw [if_pos rfl]
    have value : Binary64.ofDecimal negative ⟨0, -1⟩ = .finite negative 0 0 h := by
      rw [Binary64.ofDecimal, if_pos rfl]
      rfl
    refine ⟨'0', ['.', '0'], ⟨0, -1⟩, String.toList_ofList, by decide, ?_, ⟨'.', by simp, by decide⟩, by decide,
      value⟩
    intro c mem
    rcases List.mem_cons.1 mem with rfl | mem
    · exact .inl rfl
    · rcases List.mem_cons.1 mem with rfl | mem
      · exact .inr (.inl rfl)
      · exact .inl (List.mem_singleton.1 mem ▸ rfl)
  · rw [if_neg zero]
    have reads := Binary64.ofDecimal_shortest h zero
    generalize Binary64.shortest mantissa exponent = d at reads
    have numeral := decimalText_numeral Binary64.layout d
    obtain ⟨⟨c, cs, shape, digit⟩, letter⟩ := decimalText_shape Binary64.layout d
    obtain ⟨j, parsed⟩ := decimal?_decimalText Binary64.layout d
    rw [shape] at numeral letter parsed
    refine ⟨c, cs, _, ?_, digit, numeral, letter, parsed, ?_⟩
    · rw [shape]
      exact String.toList_ofList
    · exact (Binary64.ofDecimal_zeros negative d j).trans (Binary64.ofDecimal_signed negative reads)

theorem double?_toText (negative : Bool) {mantissa exponent : Nat} (h : Binary64.Canonical mantissa exponent) :
    double? (Binary64.toText (.finite negative mantissa exponent h)).toList =
      some (.finite negative mantissa exponent h) := by
  obtain ⟨c, cs, d, text, digit, numeral, _, parsed, reads⟩ := toText_eq negative h
  rw [text, double?_signed negative digit numeral parsed, reads]

theorem integer?_toText (negative : Bool) {mantissa exponent : Nat} (h : Binary64.Canonical mantissa exponent) :
    integer? (Binary64.toText (.finite negative mantissa exponent h)).toList = none := by
  obtain ⟨c, cs, _, text, digit, numeral, ⟨letter, mem, notRun⟩, _, _⟩ := toText_eq negative h
  have none : digits? (c :: cs) = none := by
    cases parsed : digits? (c :: cs) with
    | none => rfl
    | some ds =>
      have run := (digits?_eq_some.1 parsed).run letter mem
      rw [notRun] at run
      cases run
  rw [text, integer?, splitSign_trim negative digit numeral]
  dsimp only
  rw [none]
  rfl

theorem integerDigits_eq (n : Int) :
    ∃ c cs, integerDigits n = signedText (n < 0) (c :: cs) ∧ Nat.toDigits 10 n.natAbs = c :: cs ∧
      AllDigits (c :: cs) := by
  have digits := allDigits_toDigits n.natAbs
  cases shape : Nat.toDigits 10 n.natAbs with
  | nil => exact absurd shape Nat.toDigits_ne_nil
  | cons c cs =>
    rw [shape] at digits
    refine ⟨c, cs, ?_, rfl, digits⟩
    unfold integerDigits signedText
    rw [shape]
    simp only [decide_eq_true_eq]

/-- The digits of an integer are read as the integer, if there are not too many. -/
theorem integer?_digits {n : Int} (writable : isWritable n = true) : integer? (integerDigits n) = some n := by
  obtain ⟨c, cs, text, shape, digits⟩ := integerDigits_eq n
  have few : ¬ digitLimit < ((c :: cs).map fun c => c.toNat - 48).length := by
    rw [List.length_map, ← shape, Nat.not_lt]
    exact (Decimal.length_le_iff (by decide)).2 (of_decide_eq_true writable)
  have value : ofDigits ((c :: cs).map fun c => c.toNat - 48) = n.natAbs := by
    rw [← shape, ofDigits_toDigits]
  rw [text, integer?, splitSign_trim _ (digits c List.mem_cons_self) digits.numeral]
  dsimp only
  rw [digits?_of_digits digits (List.cons_ne_nil c cs)]
  simp only [Option.bind_eq_bind, Option.bind_some, if_neg few, value, decide_eq_true_eq]
  split <;> exact congrArg some (by omega)

theorem double?_digits (n : Int) :
    double? (integerDigits n) = some (Binary64.ofDecimal (n < 0) ⟨n.natAbs, 0⟩) := by
  obtain ⟨c, cs, text, shape, digits⟩ := integerDigits_eq n
  have parsed := decimal?_digits digits (List.cons_ne_nil c cs) exponent?_nil
  rw [List.append_nil, ← shape, Nat.ofDigitChars_ten_toDigits, shape] at parsed
  rw [text, double?_signed _ (digits c List.mem_cons_self) digits.numeral parsed]

end MicroScheme.Numeral
