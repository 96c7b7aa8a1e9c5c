import MicroScheme.Numeral

set_option autoImplicit false

namespace MicroScheme.Numeral

open Text

/-- One or more decimal digits of any script, with single underscores only between them. -/
inductive Digits : List Char → List Nat → Prop where
  | one {c : Char} {d : Nat} : digitValue? c = some d → Digits [c] [d]
  | next {c : Char} {d : Nat} {cs : List Char} {ds : List Nat} :
      digitValue? c = some d → Digits cs ds → Digits (c :: cs) (d :: ds)
  | apart {c : Char} {d : Nat} {cs : List Char} {ds : List Nat} :
      digitValue? c = some d → Digits cs ds → Digits (c :: '_' :: cs) (d :: ds)

inductive Sign : List Char → Bool → Prop where
  | absent : Sign [] false
  | plus : Sign ['+'] false
  | minus : Sign ['-'] true

/-- The digits before and after the point. There is at least one, and a point need not be written. -/
inductive Mantissa : List Char → List Nat → List Nat → Prop where
  | whole {cs : List Char} {ds : List Nat} : Digits cs ds → Mantissa cs ds []
  | pointed {cs : List Char} {ds : List Nat} : Digits cs ds → Mantissa (cs ++ ['.']) ds []
  | fraction {fs : List Char} {es : List Nat} : Digits fs es → Mantissa ('.' :: fs) [] es
  | mixed {cs fs : List Char} {ds es : List Nat} :
      Digits cs ds → Digits fs es → Mantissa (cs ++ '.' :: fs) ds es

inductive Exponent : List Char → Int → Prop where
  | absent : Exponent [] 0
  | power {letter : Char} {sign cs : List Char} {negative : Bool} {ds : List Nat} :
      letter = 'e' ∨ letter = 'E' → Sign sign negative → Digits cs ds →
        Exponent (letter :: (sign ++ cs)) (Binary64.signed negative (ofDigits ds))

inductive Magnitude : List Char → Decimal → Prop where
  | mk {cs tail : List Char} {ds es : List Nat} {e : Int} :
      Mantissa cs ds es → Exponent tail e → Magnitude (cs ++ tail) ⟨ofDigits (ds ++ es), e - es.length⟩

section Digit

variable {c : Char} {d : Nat} (h : digitValue? c = some d)

include h

theorem digit_ne {other : Char} (none : digitValue? other = none) : c ≠ other := by
  rintro rfl
  rw [none] at h
  cases h

theorem isRunChar_digit : isRunChar c = true := by
  rw [isRunChar, h]
  rfl

theorem digits?_digit (cs : List Char) : digits? (c :: cs) = (moreDigits? cs).map (d :: ·) := by
  rw [digits?, h]
  cases moreDigits? cs <;> rfl

theorem moreDigits?_digit (cs : List Char) : moreDigits? (c :: cs) = (moreDigits? cs).map (d :: ·) := by
  rw [moreDigits?, h]
  · cases moreDigits? cs <;> rfl
  · exact fun _ _ same _ => digit_ne h (by decide) same

theorem Digits.of_moreDigits? {cs : List Char} {ds : List Nat} (more : moreDigits? cs = some ds) :
    Digits (c :: cs) (d :: ds) := by
  induction cs using moreDigits?.induct generalizing c d ds with
  | case1 =>
    cases more
    exact .one h
  | case2 c' cs ih =>
    simp only [moreDigits?, Option.bind_eq_bind, Option.bind_eq_some_iff, Option.some.injEq] at more
    obtain ⟨d', hd', es, hes, rfl⟩ := more
    exact .apart h (ih hd' hes)
  | case3 c' cs notUnderscore ih =>
    rw [moreDigits?] at more
    · simp only [Option.bind_eq_bind, Option.bind_eq_some_iff, Option.some.injEq] at more
      obtain ⟨d', hd', es, hes, rfl⟩ := more
      exact .next h (ih hd' hes)
    · exact notUnderscore

end Digit

theorem Digits.of_digits? {cs : List Char} {ds : List Nat} (h : digits? cs = some ds) : Digits cs ds := by
  cases cs with
  | nil => cases h
  | cons c cs =>
    simp only [digits?, Option.bind_eq_bind, Option.bind_eq_some_iff, Option.some.injEq] at h
    obtain ⟨d, hd, es, hes, rfl⟩ := h
    exact .of_moreDigits? hd hes

namespace Digits

variable {cs : List Char} {ds : List Nat} (h : Digits cs ds)

include h

theorem head : ∃ c rest d, cs = c :: rest ∧ digitValue? c = some d := by
  cases h with
  | one hd | next hd | apart hd => exact ⟨_, _, _, rfl, hd⟩

theorem values_ne_nil : ds ≠ [] := by
  cases h <;> exact List.cons_ne_nil _ _

theorem run : ∀ c ∈ cs, isRunChar c = true := by
  induction h with
  | one hd => exact List.forall_mem_singleton.2 (isRunChar_digit hd)
  | next hd _ ih => exact List.forall_mem_cons.2 ⟨isRunChar_digit hd, ih⟩
  | apart hd _ ih => exact List.forall_mem_cons.2 ⟨isRunChar_digit hd, List.forall_mem_cons.2 ⟨rfl, ih⟩⟩

theorem reads : digits? cs = some ds := by
  have goesOn : ∀ {fs : List Char} {es : List Nat}, Digits fs es → digits? fs = some es →
      moreDigits? fs = some es ∧ moreDigits? ('_' :: fs) = some es := by
    intro fs es run parsed
    obtain ⟨c, rest, d, rfl, hd⟩ := run.head
    exact ⟨by rw [moreDigits?_digit hd, ← digits?_digit hd, parsed], by rw [← parsed]; rfl⟩
  induction h with
  | one hd => rw [digits?_digit hd]; rfl
  | next hd run ih => rw [digits?_digit hd, (goesOn run ih).1]; rfl
  | apart hd run ih => rw [digits?_digit hd, (goesOn run ih).2]; rfl

end Digits

theorem digits?_eq_some {cs : List Char} {ds : List Nat} : digits? cs = some ds ↔ Digits cs ds :=
  ⟨.of_digits?, Digits.reads⟩

theorem run?_eq_some {cs : List Char} {ds : List Nat} :
    run? cs = some ds ↔ cs = [] ∧ ds = [] ∨ Digits cs ds := by
  cases cs with
  | nil =>
    have empty : ¬ Digits [] ds := fun h => nomatch h
    simp only [run?, Option.some.injEq, true_and, empty, or_false, eq_comm]
  | cons c cs => simp only [run?, digits?_eq_some, reduceCtorEq, false_and, false_or]

theorem run?_run {cs : List Char} {ds : List Nat} (h : run? cs = some ds) : ∀ c ∈ cs, isRunChar c = true := by
  rcases run?_eq_some.1 h with ⟨rfl, _⟩ | digits
  · exact List.forall_mem_nil _
  · exact digits.run

def Unsigned (cs : List Char) : Prop := ∀ c rest, cs = c :: rest → c ≠ '+' ∧ c ≠ '-'

theorem Digits.unsigned {cs : List Char} {ds : List Nat} (h : Digits cs ds) : Unsigned cs := by
  obtain ⟨c, rest, d, rfl, hd⟩ := h.head
  rintro c' rest' same
  rw [← (List.cons.inj same).1]
  exact ⟨digit_ne hd (by decide), digit_ne hd (by decide)⟩

theorem sign_splitSign (cs : List Char) : ∃ sign, Sign sign (splitSign cs).1 ∧ cs = sign ++ (splitSign cs).2 := by
  unfold splitSign
  split
  · exact ⟨_, .minus, rfl⟩
  · exact ⟨_, .plus, rfl⟩
  · exact ⟨_, .absent, rfl⟩

theorem splitSign_append {sign cs : List Char} {negative : Bool} (h : Sign sign negative) (unsigned : Unsigned cs) :
    splitSign (sign ++ cs) = (negative, cs) := by
  cases h with
  | plus | minus => rfl
  | absent =>
    rw [List.nil_append]
    unfold splitSign
    split
    · exact absurd rfl (unsigned _ _ rfl).2
    · exact absurd rfl (unsigned _ _ rfl).1
    · rfl

theorem exponent?_eq_some {cs : List Char} {e : Int} : exponent? cs = some e ↔ Exponent cs e := by
  constructor
  · intro h
    cases cs with
    | nil =>
      cases h
      exact .absent
    | cons letter cs =>
      obtain ⟨sign, hsign, text⟩ := sign_splitSign cs
      rw [exponent?] at h
      generalize splitSign cs = parts at h hsign text
      split at h
      · next isLetter =>
        simp only [Option.bind_eq_bind, Option.bind_eq_some_iff, Option.some.injEq] at h
        obtain ⟨ds, hds, rfl⟩ := h
        rw [Bool.or_eq_true, decide_eq_true_eq, decide_eq_true_eq] at isLetter
        rw [text]
        exact .power isLetter hsign (.of_digits? hds)
      · cases h
  · intro h
    cases h with
    | absent => rfl
    | @power letter _ _ _ _ isLetter hsign digits =>
      have known : (decide (letter = 'e') || decide (letter = 'E')) = true := by
        rw [Bool.or_eq_true, decide_eq_true_eq, decide_eq_true_eq]
        exact isLetter
      rw [exponent?, if_pos known, splitSign_append hsign digits.unsigned]
      dsimp only
      rw [digits.reads]
      rfl

def Stops (cs : List Char) : Prop := ∀ c rest, cs = c :: rest → isRunChar c = false

theorem stops_nil : Stops [] := fun _ _ absurd => nomatch absurd

theorem stops_point (cs : List Char) : Stops ('.' :: cs) := by
  rintro c rest same
  rw [← (List.cons.inj same).1]
  decide

theorem Exponent.stops {cs : List Char} {e : Int} (h : Exponent cs e) : Stops cs := by
  cases h with
  | absent => exact stops_nil
  | power isLetter =>
    rintro c rest same
    rw [← (List.cons.inj same).1]
    rcases isLetter with rfl | rfl <;> decide

theorem takeWhile_run {cs rest : List Char} (h : ∀ c ∈ cs, isRunChar c = true) (stops : Stops rest) :
    (cs ++ rest).takeWhile isRunChar = cs := by
  rw [List.takeWhile_append_of_pos h]
  cases rest with
  | nil => exact List.append_nil cs
  | cons c rest =>
    rw [List.takeWhile_cons_of_neg (by rw [stops c rest rfl]; exact Bool.false_ne_true), List.append_nil]

theorem dropWhile_run {cs rest : List Char} (h : ∀ c ∈ cs, isRunChar c = true) (stops : Stops rest) :
    (cs ++ rest).dropWhile isRunChar = rest := by
  rw [List.dropWhile_append_of_pos h]
  cases rest with
  | nil => rfl
  | cons c rest => rw [List.dropWhile_cons_of_neg (by rw [stops c rest rfl]; exact Bool.false_ne_true)]

theorem splitFraction_exponent {cs : List Char} {e : Int} (h : Exponent cs e) : splitFraction cs = ([], cs) := by
  cases h with
  | absent => rfl
  | power isLetter => rcases isLetter with rfl | rfl <;> rfl

theorem decimal?_iff {cs whole fraction tail : List Char} {d : Decimal} (hw : cs.takeWhile isRunChar = whole)
    (hf : splitFraction (cs.dropWhile isRunChar) = (fraction, tail)) :
    decimal? cs = some d ↔ ∃ ds es e, run? whole = some ds ∧ run? fraction = some es ∧ ¬ (ds = [] ∧ es = []) ∧
      exponent? tail = some e ∧ ⟨ofDigits (ds ++ es), e - es.length⟩ = d := by
  rw [decimal?, hw, hf]
  simp only [Option.bind_eq_bind, Option.bind_eq_some_iff]
  constructor
  · rintro ⟨ds, hds, es, hes, h⟩
    split at h
    · cases h
    · next written =>
      simp only [Option.bind_eq_some_iff, Option.some.injEq] at h
      obtain ⟨e, he, same⟩ := h
      rw [Bool.and_eq_true, List.isEmpty_iff, List.isEmpty_iff] at written
      exact ⟨ds, es, e, hds, hes, written, he, same⟩
  · rintro ⟨ds, es, e, hds, hes, written, he, same⟩
    refine ⟨ds, hds, es, hes, ?_⟩
    rw [← List.isEmpty_iff, ← List.isEmpty_iff, ← Bool.and_eq_true] at written
    rw [if_neg written, he, ← same]
    rfl

theorem Mantissa.of_run? {whole fraction : List Char} {ds es : List Nat} (hds : run? whole = some ds)
    (hes : run? fraction = some es) (written : ¬ (ds = [] ∧ es = [])) : Mantissa (whole ++ '.' :: fraction) ds es := by
  rcases run?_eq_some.1 hds with ⟨rfl, rfl⟩ | digits
  · rcases run?_eq_some.1 hes with ⟨_, rfl⟩ | fractionDigits
    · exact absurd ⟨rfl, rfl⟩ written
    · exact .fraction fractionDigits
  · rcases run?_eq_some.1 hes with ⟨rfl, rfl⟩ | fractionDigits
    · exact .pointed digits
    · exact .mixed digits fractionDigits

theorem Magnitude.of_decimal? {cs : List Char} {d : Decimal} (h : decimal? cs = some d) : Magnitude cs d := by
  have text := List.takeWhile_append_dropWhile (p := isRunChar) (l := cs)
  rcases hf : splitFraction (cs.dropWhile isRunChar) with ⟨fraction, tail⟩
  obtain ⟨ds, es, e, hds, hes, written, he, rfl⟩ := (decimal?_iff rfl hf).1 h
  have exponent := exponent?_eq_some.1 he
  generalize cs.takeWhile isRunChar = whole at text hds
  generalize cs.dropWhile isRunChar = rest at text hf
  rw [← text]
  unfold splitFraction at hf
  split at hf
  · next after =>
    obtain ⟨rfl, rfl⟩ := Prod.mk.inj hf
    have mantissa := Mantissa.of_run? hds hes written
    have point : whole ++ '.' :: after = whole ++ '.' :: after.takeWhile isRunChar ++ after.dropWhile isRunChar := by
      rw [List.append_assoc, List.cons_append, List.takeWhile_append_dropWhile]
    rw [point]
    exact .mk mantissa exponent
  · obtain ⟨rfl, rfl⟩ := Prod.mk.inj hf
    cases hes
    rcases run?_eq_some.1 hds with ⟨_, rfl⟩ | digits
    · exact absurd ⟨rfl, rfl⟩ written
    · exact .mk (.whole digits) exponent

theorem decimal?_whole {whole tail : List Char} {ds : List Nat} {e : Int} (hw : digits? whole = some ds)
    (exponent : Exponent tail e) : decimal? (whole ++ tail) = some ⟨ofDigits ds, e⟩ := by
  have digits := digits?_eq_some.1 hw
  have rest : splitFraction ((whole ++ tail).dropWhile isRunChar) = ([], tail) := by
    rw [dropWhile_run digits.run exponent.stops, splitFraction_exponent exponent]
  refine (decimal?_iff (takeWhile_run digits.run exponent.stops) rest).2
    ⟨ds, [], e, run?_eq_some.2 (.inr digits), rfl, ?_, exponent?_eq_some.2 exponent, ?_⟩
  · exact fun none => digits.values_ne_nil none.1
  · rw [List.append_nil, List.length_nil, Int.natCast_zero, Int.sub_zero]

theorem decimal?_pointed {whole fraction tail : List Char} {ds es : List Nat} {e : Int} (hw : run? whole = some ds)
    (hf : run? fraction = some es) (written : ¬ (ds = [] ∧ es = [])) (exponent : Exponent tail e) :
    decimal? (whole ++ '.' :: (fraction ++ tail)) = some ⟨ofDigits (ds ++ es), e - es.length⟩ := by
  have rest : splitFraction ((whole ++ '.' :: (fraction ++ tail)).dropWhile isRunChar) = (fraction, tail) := by
    rw [dropWhile_run (run?_run hw) (stops_point _), splitFraction, takeWhile_run (run?_run hf) exponent.stops,
      dropWhile_run (run?_run hf) exponent.stops]
  exact (decimal?_iff (takeWhile_run (run?_run hw) (stops_point _)) rest).2
    ⟨ds, es, e, hw, hf, written, exponent?_eq_some.2 exponent, rfl⟩

theorem Magnitude.reads {cs : List Char} {d : Decimal} (h : Magnitude cs d) : decimal? cs = some d := by
  obtain ⟨mantissa, exponent⟩ := h
  have run : ∀ {cs : List Char} {ds : List Nat}, Digits cs ds → run? cs = some ds := fun digits =>
    run?_eq_some.2 (.inr digits)
  cases mantissa with
  | whole digits =>
    rw [List.append_nil, List.length_nil, Int.natCast_zero, Int.sub_zero]
    exact decimal?_whole digits.reads exponent
  | pointed digits =>
    rw [List.append_assoc]
    exact decimal?_pointed (run digits) rfl (fun none => digits.values_ne_nil none.1) exponent
  | fraction digits =>
    have noWhole : run? [] = some [] := rfl
    exact decimal?_pointed noWhole (run digits) (fun none => digits.values_ne_nil none.2) exponent
  | mixed digits fractionDigits =>
    rw [List.append_assoc, List.cons_append]
    exact decimal?_pointed (run digits) (run fractionDigits) (fun none => digits.values_ne_nil none.1) exponent

theorem decimal?_eq_some {cs : List Char} {d : Decimal} : decimal? cs = some d ↔ Magnitude cs d :=
  ⟨.of_decimal?, Magnitude.reads⟩

end MicroScheme.Numeral
