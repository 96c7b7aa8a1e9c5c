import MicroScheme.Proofs.Text.Word

set_option autoImplicit false

namespace MicroScheme.Numeral

open Text

/-- The token is a sign and a body, between characters that are cut off. -/
def HasBody (cut : Char → Bool) (token : List Char) (negative : Bool) (body : List Char) : Prop :=
  ∃ sign, Sign sign negative ∧ trim cut token = sign ++ body

section

variable (cut : Char → Bool) (token : List Char)

def WritesInteger (n : Int) : Prop :=
  ∃ negative body ds, HasBody cut token negative body ∧ Digits body ds ∧ ds.length ≤ 4300 ∧
    n = Binary64.signed negative (ofDigits ds)

def WritesDecimal (x : Binary64) : Prop :=
  ∃ negative body d, HasBody cut token negative body ∧ Magnitude body d ∧ x = Binary64.ofDecimal negative d

def WritesWord (x : Binary64) : Prop :=
  ∃ negative body, HasBody cut token negative body ∧ Word negative body x

def WritesDouble (x : Binary64) : Prop := WritesDecimal cut token x ∨ WritesWord cut token x

end

theorem isDigit_of_digitValue? {c : Char} {d : Nat} (h : digitValue? c = some d) : isDigit c = true := by
  rw [isDigit, h]
  rfl

theorem Digits.digit {cs : List Char} {ds : List Nat} (h : Digits cs ds) : ∃ c ∈ cs, isDigit c = true := by
  obtain ⟨c, rest, d, rfl, hd⟩ := h.head
  exact ⟨c, List.mem_cons_self, isDigit_of_digitValue? hd⟩

theorem Magnitude.digit {cs : List Char} {d : Decimal} (h : Magnitude cs d) : ∃ c ∈ cs, isDigit c = true := by
  obtain ⟨mantissa, exponent⟩ := h
  cases mantissa with
  | whole digits =>
    obtain ⟨c, mem, digit⟩ := digits.digit
    exact ⟨c, List.mem_append_left _ mem, digit⟩
  | pointed digits | mixed digits =>
    obtain ⟨c, mem, digit⟩ := digits.digit
    exact ⟨c, List.mem_append_left _ (List.mem_append_left _ mem), digit⟩
  | fraction digits =>
    obtain ⟨c, mem, digit⟩ := digits.digit
    exact ⟨c, List.mem_append_left _ (List.mem_cons_of_mem _ mem), digit⟩

theorem Unsigned.append {c : Char} {cs : List Char} (h : Unsigned (c :: cs)) (tail : List Char) :
    Unsigned (c :: cs ++ tail) := by
  intro c' rest same
  rw [← (List.cons.inj same).1]
  exact h c cs rfl

theorem Magnitude.unsigned {cs : List Char} {d : Decimal} (h : Magnitude cs d) : Unsigned cs := by
  have goesOn : ∀ {cs : List Char} {ds : List Nat} (tail : List Char), Digits cs ds → Unsigned (cs ++ tail) := by
    intro cs ds tail digits
    have unsigned := digits.unsigned
    obtain ⟨c, rest, _, rfl, _⟩ := digits.head
    exact unsigned.append tail
  obtain ⟨mantissa, exponent⟩ := h
  cases mantissa with
  | whole digits => exact goesOn _ digits
  | pointed digits | mixed digits =>
    rw [List.append_assoc]
    exact goesOn _ digits
  | fraction digits =>
    rintro c rest same
    rw [← (List.cons.inj same).1]
    decide

theorem Word.unsigned {negative : Bool} {cs : List Char} {x : Binary64} (h : Word negative cs x) : Unsigned cs := by
  rintro c rest rfl
  have letter := h.letters c List.mem_cons_self
  constructor
  · rintro rfl
    exact absurd letter (by decide)
  · rintro rfl
    exact absurd letter (by decide)

theorem Word.not_digit {negative : Bool} {cs : List Char} {x : Binary64} (h : Word negative cs x) :
    ∀ c ∈ cs, isDigit c = false :=
  fun c mem => isDigit_of_toLower (h.letters c mem)

theorem mem_trim {cut : Char → Bool} {c : Char} {cs : List Char} (mem : c ∈ cs) (kept : cut c = false) :
    c ∈ trim cut cs := by
  have keeps : ∀ ds : List Char, c ∈ ds → c ∈ ds.dropWhile cut := by
    intro ds mem
    rw [← List.takeWhile_append_dropWhile (p := cut) (l := ds)] at mem
    refine (List.mem_append.1 mem).resolve_left fun dropped => ?_
    have isCut := List.all_eq_true.1 List.all_takeWhile c dropped
    rw [kept] at isCut
    cases isCut
  exact List.mem_reverse.2 (keeps _ (List.mem_reverse.2 (keeps cs mem)))

theorem mem_of_mem_trim {cut : Char → Bool} {c : Char} {cs : List Char} (mem : c ∈ trim cut cs) : c ∈ cs :=
  (List.dropWhile_sublist cut).mem
    (List.mem_reverse.1 ((List.dropWhile_sublist cut).mem (List.mem_reverse.1 mem)))

theorem hasBody_splitSign (cut : Char → Bool) (token : List Char) :
    HasBody cut token (splitSign (trim cut token)).1 (splitSign (trim cut token)).2 :=
  sign_splitSign _

namespace HasBody

variable {cut : Char → Bool} {token body : List Char} {negative : Bool} (h : HasBody cut token negative body)

include h

theorem splitSign_trim (unsigned : Unsigned body) : splitSign (trim cut token) = (negative, body) := by
  obtain ⟨sign, hsign, text⟩ := h
  rw [text, splitSign_append hsign unsigned]

theorem mem {c : Char} (mem : c ∈ body) : c ∈ token := by
  obtain ⟨sign, _, text⟩ := h
  exact mem_of_mem_trim (text ▸ List.mem_append_right sign mem)

theorem digit_mem (margin : ∀ c, cut c = true → isDigit c = false) {c : Char} (mem : c ∈ token)
    (digit : isDigit c = true) : c ∈ body := by
  obtain ⟨sign, hsign, text⟩ := h
  have kept : cut c = false := by
    refine Bool.eq_false_iff.2 fun isCut => ?_
    rw [margin c isCut] at digit
    cases digit
  have inside := mem_trim mem kept
  rw [text] at inside
  refine (List.mem_append.1 inside).resolve_left fun inSign => ?_
  cases hsign with
  | absent => cases inSign
  | plus | minus =>
    rw [List.mem_singleton.1 inSign] at digit
    exact absurd digit (by decide)

end HasBody

theorem integer?_eq_some {token : List Char} {n : Int} :
    integer? token = some n ↔ WritesInteger isMargin token n := by
  constructor
  · intro h
    have body := hasBody_splitSign isMargin token
    unfold integer? at h
    generalize splitSign (trim isMargin token) = parts at h body
    simp only [Option.bind_eq_bind, Option.bind_eq_some_iff] at h
    obtain ⟨ds, hds, h⟩ := h
    split at h
    · cases h
    · next few =>
      exact ⟨_, _, ds, body, digits?_eq_some.1 hds, Nat.not_lt.1 few, (Option.some.inj h).symm⟩
  · rintro ⟨negative, body, ds, hbody, digits, few, rfl⟩
    unfold integer?
    rw [hbody.splitSign_trim digits.unsigned]
    dsimp only
    rw [digits.reads]
    exact if_neg (Nat.not_lt.2 few)

theorem double?_eq_some {token : List Char} {x : Binary64} :
    double? token = some x ↔ WritesDouble isMargin token x := by
  constructor
  · intro h
    have body := hasBody_splitSign isMargin token
    unfold double? at h
    generalize splitSign (trim isMargin token) = parts at h body
    dsimp only at h
    split at h
    · next word =>
      rw [← Option.some.inj h]
      exact .inr ⟨_, _, body, word?_eq_some.1 word⟩
    · obtain ⟨d, hd, rfl⟩ := Option.map_eq_some_iff.1 h
      exact .inl ⟨_, _, d, body, decimal?_eq_some.1 hd, rfl⟩
  · rintro (⟨negative, body, d, hbody, magnitude, rfl⟩ | ⟨negative, body, hbody, word⟩)
    · obtain ⟨c, mem, digit⟩ := magnitude.digit
      unfold double?
      rw [hbody.splitSign_trim magnitude.unsigned]
      dsimp only
      rw [word?_eq_none negative mem (toLower_of_isDigit digit), magnitude.reads]
      rfl
    · unfold double?
      rw [hbody.splitSign_trim word.unsigned]
      dsimp only
      rw [word?_eq_some.2 word]

theorem WritesInteger.decimal {cut : Char → Bool} {token : List Char} {n : Int} (h : WritesInteger cut token n) :
    ∃ negative m, n = Binary64.signed negative m ∧ WritesDecimal cut token (Binary64.ofDecimal negative ⟨m, 0⟩) := by
  obtain ⟨negative, body, ds, hbody, digits, _, rfl⟩ := h
  have magnitude := Magnitude.mk (.whole digits) .absent
  rw [List.append_nil, List.append_nil] at magnitude
  exact ⟨negative, ofDigits ds, rfl, negative, body, _, hbody, magnitude, rfl⟩

theorem WritesDecimal.digit {cut : Char → Bool} {token : List Char} {x : Binary64} (h : WritesDecimal cut token x) :
    ∃ c ∈ token, isDigit c = true := by
  obtain ⟨_, _, _, body, magnitude, _⟩ := h
  obtain ⟨c, mem, digit⟩ := magnitude.digit
  exact ⟨c, body.mem mem, digit⟩

theorem WritesWord.not_digit {token : List Char} {x : Binary64} (h : WritesWord isMargin token x) :
    ∀ c ∈ token, isDigit c = false := by
  obtain ⟨_, _, body, word⟩ := h
  intro c mem
  refine Bool.eq_false_iff.2 fun digit => ?_
  have letter := word.not_digit c (body.digit_mem (fun _ => isDigit_of_isMargin) mem digit)
  rw [digit] at letter
  cases letter

theorem digitless_iff {token : List Char} {x : Binary64} (h : double? token = some x) :
    (∀ c ∈ token, isDigit c = false) ↔ ∃ y, WritesWord isMargin token y := by
  constructor
  · intro none
    rcases double?_eq_some.1 h with decimal | word
    · obtain ⟨c, mem, digit⟩ := decimal.digit
      rw [none c mem] at digit
      cases digit
    · exact ⟨x, word⟩
  · rintro ⟨y, word⟩
    exact word.not_digit

end MicroScheme.Numeral
