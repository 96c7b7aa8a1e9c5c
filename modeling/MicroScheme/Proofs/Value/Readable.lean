import MicroScheme.Value.Printer
import MicroScheme.Proofs.Text.NumberText
import MicroScheme.Proofs.Text.Scan
import MicroScheme.Proofs.Value.Classification

set_option autoImplicit false

namespace MicroScheme

namespace Value

/-- Values that are made of what tokens denote and how it is written. -/
inductive Readable : Value → Prop where
  | bool (b : Bool) : Readable (.bool b)
  | float {x : Binary64} : x.isFinite = true → Readable (.float x)
  | int {n : Int} : Representable n → Readable (.int n)
  | text {s : String} : (∀ c ∈ s.toList, Token.PlainChar c) → Readable (.text s)
  | symbol {s : Symbol} : Token.Plain s.name.toList → Atom.ofToken s.name = .symbol s → Readable (.symbol s)
  | list {items : List Value} : (∀ x ∈ items, Readable x) → Readable (.list items)

def Written (v w : Value) : Prop :=
  ∃ t : String, v.print? true = some t ∧ Token.Plain t.toList ∧ Atom.ofToken t = w

end Value

namespace Atom

open Numeral

theorem plainChar_of_visible {c : Char} (above : 0x20 < c.toNat) (below : c.toNat < 0x85)
    (notParenthesis : Token.isParenthesis c = false) (notComment : c ≠ ';') : Token.PlainChar c :=
  ⟨isBlank_of_visible above below, notParenthesis, notComment⟩

theorem plainChar_of_numeral {c : Char} (h : IsNumeralChar c) : Token.PlainChar c := by
  have apart : Token.isParenthesis c = false ∧ c ≠ ';' := by
    rcases h with digit | rfl | rfl | rfl | rfl
    · have differs : ∀ d : Char, d.isDigit = false → c ≠ d := by
        rintro d hd rfl
        rw [hd] at digit
        cases digit
      refine ⟨?_, differs ';' rfl⟩
      rw [Token.isParenthesis, decide_eq_false (differs '(' rfl), decide_eq_false (differs ')' rfl)]
      rfl
    all_goals decide
  exact plainChar_of_visible h.visible.1 h.visible.2 apart.1 apart.2

theorem plain_signed (negative : Bool) {c : Char} {cs : List Char} (h : ∀ d ∈ c :: cs, IsNumeralChar d) :
    Token.Plain (signedText negative (c :: cs)) := by
  have magnitude : ∀ d ∈ c :: cs, Token.PlainChar d := fun d mem => plainChar_of_numeral (h d mem)
  unfold signedText
  split
  · exact ⟨List.cons_ne_nil _ _, List.forall_mem_cons.2 ⟨by decide, magnitude⟩⟩
  · exact ⟨List.cons_ne_nil _ _, magnitude⟩

theorem mem_signedText (negative : Bool) (c : Char) (cs : List Char) : c ∈ signedText negative (c :: cs) := by
  unfold signedText
  split <;> simp

theorem integer?_integerDigits {n : Int} (h : Representable n) : integer? (integerDigits n) = some n := by
  rw [integer?, integer?_digits h.isWritable, double?_digits n]
  exact if_pos h.equal_ofDecimal

end Atom

namespace Value

open Numeral

theorem Written.int {n : Int} (h : Representable n) : Written (.int n) (.int n) := by
  obtain ⟨c, cs, text, _, digits⟩ := integerDigits_eq n
  refine ⟨String.ofList (integerDigits n), ?_, ?_, ?_⟩
  · rw [print?, Number.digits?, integerText?, if_pos h.isWritable]
  · rw [String.toList_ofList, text]
    exact Atom.plain_signed _ digits.numeral
  · rw [Atom.ofToken, String.toList_ofList]
    exact Atom.ofChars_int (Atom.integer?_integerDigits h)

theorem Written.float {x : Binary64} (h : x.isFinite = true) : Written (.float x) (.float x) := by
  cases x with
  | nan => cases h
  | infinite negative => cases h
  | finite negative mantissa exponent canonical =>
    obtain ⟨c, cs, _, text, digit, numeral, _⟩ := toText_eq negative canonical
    refine ⟨_, rfl, ?_, ?_⟩
    · rw [text]
      exact Atom.plain_signed _ numeral
    · have someDigit : ∃ d ∈ (Binary64.toText (.finite negative mantissa exponent canonical)).toList,
          Text.isDigit d = true := by
        rw [text]
        exact ⟨c, Atom.mem_signedText negative c cs, isDigit_of_isDigit digit⟩
      exact Atom.ofChars_float (Atom.integer?_eq_none (integer?_toText negative canonical))
        (Atom.double?_eq_some someDigit (double?_toText negative canonical))

theorem Written.infinite (negative : Bool) :
    Written (.float (.infinite negative)) (.named (Binary64.infinite negative).toText) := by
  cases negative
  · exact ⟨"inf", rfl, by decide, rfl⟩
  · exact ⟨"-inf", rfl, by decide, rfl⟩

theorem Written.bool (b : Bool) : Written (.bool b) (.bool b) := by
  cases b
  · exact ⟨"#f", rfl, by decide, rfl⟩
  · exact ⟨"#t", rfl, by decide, rfl⟩

theorem quotation_ofChars {cs : List Char} (h : ∀ c ∈ cs, Token.PlainChar c) :
    Atom.ofChars ('"' :: (cs ++ ['"'])) = .text (String.ofList cs) := by
  have margins : ∀ c ∈ '"' :: (cs ++ ['"']), Text.isMargin c = false := by
    have inner : ∀ c ∈ cs, Text.isMargin c = false := by
      intro c mem
      rw [Text.isMargin, (h c mem).1]
      rfl
    exact List.forall_mem_cons.2 ⟨by decide,
      List.forall_mem_append.2 ⟨inner, List.forall_mem_singleton.2 (by decide)⟩⟩
  have noInteger : Numeral.integer? ('"' :: (cs ++ ['"'])) = none := by
    rw [Numeral.integer?, trim_eq_self margins]
    rfl
  have noDouble : Numeral.double? ('"' :: (cs ++ ['"'])) = none := by
    rw [Numeral.double?, trim_eq_self margins, splitSign]
    dsimp only
    rw [word?_eq_none false List.mem_cons_self (by decide)]
    · rfl
    all_goals exact fun _ same => absurd (List.cons.inj same).1 (by decide)
  have noFloat : Atom.double? ('"' :: (cs ++ ['"'])) = none := by
    rw [Atom.double?, noDouble]
    split <;> rfl
  have noBoolean : Atom.boolean? ('"' :: (cs ++ ['"'])) = none := by
    have other : ∀ d ds, d ≠ '"' → ('"' :: (cs ++ ['"'])).map Char.toLower ≠ d :: ds := fun d ds differs same =>
      differs (List.cons.inj same).1.symm
    rw [Atom.boolean?, if_neg (other '#' _ (by decide)), if_neg (other '#' _ (by decide))]
  exact Atom.ofChars_text (Atom.integer?_eq_none noInteger) noFloat noBoolean (Atom.quotation?_eq_some.2 rfl)

theorem Written.text {s : String} (h : ∀ c ∈ s.toList, Token.PlainChar c) : Written (.text s) (.text s) := by
  have chars : ("\"" ++ s ++ "\"").toList = '"' :: (s.toList ++ ['"']) := by
    rw [String.toList_append, String.toList_append]
    rfl
  refine ⟨"\"" ++ s ++ "\"", rfl, ?_, ?_⟩
  · rw [chars]
    have closing : ∀ c ∈ ['"'], Token.PlainChar c := List.forall_mem_singleton.2 (by decide)
    exact ⟨List.cons_ne_nil _ _, List.forall_mem_cons.2 ⟨by decide, List.forall_mem_append.2 ⟨h, closing⟩⟩⟩
  · rw [Atom.ofToken, chars, quotation_ofChars h, String.ofList_toList]

theorem Written.symbol {s : Symbol} (plain : Token.Plain s.name.toList) (same : Atom.ofToken s.name = .symbol s) :
    Written (.symbol s) (.symbol s) :=
  ⟨_, rfl, plain, same⟩

theorem readable_of_noNumber {t : String} {v : Value} (plain : Token.Plain t.toList)
    (h : Atom.NoNumber t.toList v) (denotes : Atom.ofToken t = v) : Readable v := by
  generalize chars : t.toList = cs at h
  cases h with
  | true | false => exact .bool _
  | text cs =>
    refine .text fun c mem => plain.2 c ?_
    rw [String.toList_ofList] at mem
    rw [chars]
    exact List.mem_cons_of_mem _ (List.mem_append_left _ mem)
  | symbol =>
    obtain rfl : String.ofList cs = t := by rw [← chars, String.ofList_toList]
    exact .symbol plain denotes

theorem readable_ofToken {t : String} (plain : Token.Plain t.toList) :
    Readable (Atom.ofToken t) ∨ ∃ negative, Atom.ofToken t = .float (.infinite negative) := by
  have whole : Atom.ofToken t = Atom.ofChars t.toList := rfl
  rw [whole]
  rcases Atom.ofChars_cases t.toList with ⟨n, read, same⟩ | ⟨_, ⟨x, read, same⟩ | ⟨_, other⟩⟩
  · rw [same]
    exact .inl (.int (Atom.read_of_integer? read).2)
  · rw [same]
    cases x with
    | finite negative mantissa exponent canonical => exact .inl (.float rfl)
    | infinite negative => exact .inr ⟨negative, rfl⟩
    | nan => exact absurd rfl (Atom.double?_ne_nan read)
  · exact .inl (readable_of_noNumber plain other whole)

end Value

end MicroScheme
