import MicroScheme.Proofs.Binary64.Integer
import MicroScheme.Proofs.Text.Spelling

set_option autoImplicit false

namespace MicroScheme.Atom

open Text Numeral

inductive NoNumber : List Char → Value → Prop where
  | true {c : Char} : c = 't' ∨ c = 'T' → NoNumber ['#', c] (.bool true)
  | false {c : Char} : c = 'f' ∨ c = 'F' → NoNumber ['#', c] (.bool false)
  | text (cs : List Char) : NoNumber ('"' :: (cs ++ ['"'])) (.text (String.ofList cs))
  | symbol {token : List Char} : (∀ c, token = ['#', c] → c ∉ ['t', 'T', 'f', 'F']) →
      (∀ cs, token ≠ '"' :: (cs ++ ['"'])) → NoNumber token (.named (String.ofList token))

/-- How a token is classified, if `cut` is what may stand around a numeral. -/
structure Classified (cut : Char → Bool) (token : List Char) : Prop where
  int_iff : ∀ n, ofChars token = .int n ↔ WritesInteger cut token n ∧ FitsDouble n
  float_iff : ∀ x, ofChars token = .float x ↔
    (¬ ∃ n, WritesInteger cut token n ∧ FitsDouble n) ∧ WritesDouble cut token x ∧ ¬ ∃ y, WritesWord cut token y
  noNumber : (∀ n, ofChars token ≠ .int n) → (∀ x, ofChars token ≠ .float x) → NoNumber token (ofChars token)
  /-- So an integer can be compared with the double of its token. -/
  double_of_integer : ∀ n, Numeral.integer? token = some n → ∃ x, Numeral.double? token = some x
  /-- The test for a digit leaves out just the words. -/
  digitless_iff : ∀ x, Numeral.double? token = some x →
    ((∀ c ∈ token, isDigit c = false) ↔ ∃ y, WritesWord cut token y)

theorem ofChars_int {cs : List Char} {n : Int} (h : integer? cs = some n) : ofChars cs = .int n := by
  rw [ofChars, h]

theorem ofChars_float {cs : List Char} {x : Binary64} (noInteger : integer? cs = none) (h : double? cs = some x) :
    ofChars cs = .float x := by
  rw [ofChars, noInteger, h]

section

variable {cs ds : List Char} {b : Bool} (noInteger : integer? cs = none) (noDouble : double? cs = none)

include noInteger noDouble

theorem ofChars_bool (h : boolean? cs = some b) : ofChars cs = .bool b := by
  rw [ofChars, noInteger, noDouble, h]

theorem ofChars_text (noBoolean : boolean? cs = none) (h : quotation? cs = some ds) :
    ofChars cs = .text (String.ofList ds) := by
  rw [ofChars, noInteger, noDouble, noBoolean, h]

theorem ofChars_symbol (noBoolean : boolean? cs = none) (h : quotation? cs = none) :
    ofChars cs = .named (String.ofList cs) := by
  rw [ofChars, noInteger, noDouble, noBoolean, h]

end

theorem integer?_eq_none {cs : List Char} (h : Numeral.integer? cs = none) : integer? cs = none := by
  rw [integer?, h]
  rfl

theorem double?_eq_some {cs : List Char} {x : Binary64} (digit : ∃ c ∈ cs, isDigit c = true)
    (h : Numeral.double? cs = some x) : double? cs = some x := by
  rw [double?, if_pos (List.any_eq_true.2 digit), h]

theorem read_of_integer? {token : List Char} {n : Int} (h : integer? token = some n) :
    Numeral.integer? token = some n ∧ Representable n := by
  simp only [integer?, Option.bind_eq_bind, Option.bind_eq_some_iff] at h
  obtain ⟨m, read, x, _, equal⟩ := h
  split at equal
  · next same =>
    rw [← Option.some.inj equal]
    exact ⟨read, x, same⟩
  · cases equal

theorem integer?_eq_some {token : List Char} {n : Int} :
    integer? token = some n ↔ WritesInteger isMargin token n ∧ FitsDouble n := by
  constructor
  · intro h
    obtain ⟨read, equal⟩ := read_of_integer? h
    exact ⟨Numeral.integer?_eq_some.1 read, representable_iff.1 equal⟩
  · rintro ⟨written, fits⟩
    obtain ⟨negative, m, rfl, decimal⟩ := written.decimal
    rw [integer?, Numeral.integer?_eq_some.2 written, Numeral.double?_eq_some.2 (.inl decimal)]
    exact if_pos (representable_iff.2 fits).equal_signed

theorem double?_iff {token : List Char} {x : Binary64} :
    double? token = some x ↔ WritesDouble isMargin token x ∧ ¬ ∃ y, WritesWord isMargin token y := by
  constructor
  · intro h
    unfold double? at h
    split at h
    · next digits =>
      obtain ⟨c, mem, digit⟩ := List.any_eq_true.1 digits
      refine ⟨Numeral.double?_eq_some.1 h, ?_⟩
      rintro ⟨y, word⟩
      rw [word.not_digit c mem] at digit
      cases digit
    · cases h
  · rintro ⟨decimal | word, noWord⟩
    · exact double?_eq_some decimal.digit (Numeral.double?_eq_some.2 (.inl decimal))
    · exact absurd ⟨x, word⟩ noWord

theorem double?_ne_nan {token : List Char} {x : Binary64} (h : double? token = some x) : x ≠ .nan := by
  obtain ⟨⟨negative, _, d, _, _, rfl⟩ | word, noWord⟩ := double?_iff.1 h
  · exact Binary64.ofDecimal_ne_nan negative d
  · exact absurd ⟨x, word⟩ noWord

theorem quotation?_eq_some {token cs : List Char} : quotation? token = some cs ↔ token = '"' :: (cs ++ ['"']) := by
  constructor
  · intro h
    unfold quotation? at h
    split at h
    · split at h
      · next closed =>
        obtain ⟨inner, rfl⟩ := List.getLast?_eq_some_iff.1 closed
        rw [List.dropLast_concat] at h
        rw [Option.some.inj h]
      · cases h
    · cases h
  · rintro rfl
    rw [quotation?, if_pos List.getLast?_concat, List.dropLast_concat]

theorem toLower_eq {c d : Char} (h : c.toLower = d) :
    c = d ∨ 65 ≤ c.toNat ∧ c.toNat ≤ 90 ∧ c.toNat + 32 = d.toNat := by
  unfold Char.toLower at h
  split at h
  · next upper =>
    have lowest : 65 ≤ c.val.toNat := UInt32.le_iff_toNat_le.1 upper.1
    have highest : c.val.toNat ≤ 90 := UInt32.le_iff_toNat_le.1 upper.2
    have shifted : (c.val + 32).toNat = d.val.toNat := congrArg (fun e : Char => e.val.toNat) h
    have distance : (32 : UInt32).toNat = 32 := rfl
    rw [UInt32.toNat_add] at shifted
    refine .inr ⟨lowest, highest, ?_⟩
    change c.val.toNat + 32 = d.val.toNat
    omega
  · exact .inl h

theorem eq_or_capital {c letter capital : Char} (h : c.toLower = letter) (shift : capital.toNat + 32 = letter.toNat) :
    c = letter ∨ c = capital := by
  refine (toLower_eq h).imp_right fun upper => ?_
  have code : c.toNat = capital.toNat := by omega
  have same := congrArg Char.ofNat code
  rwa [Char.ofNat_toNat, Char.ofNat_toNat] at same

theorem hash_of_toLower {token : List Char} {d : Char} (h : token.map Char.toLower = ['#', d]) :
    ∃ c, token = ['#', c] ∧ c.toLower = d := by
  obtain ⟨a, rest, rfl, hash, other⟩ := List.map_eq_cons_iff.1 h
  obtain ⟨c, rfl, lower⟩ := List.map_eq_singleton_iff.1 other
  refine ⟨c, ?_, lower⟩
  rcases toLower_eq hash with rfl | ⟨above, _, code⟩
  · rfl
  · have number : '#'.toNat = 35 := rfl
    omega

theorem noNumber_boolean {token : List Char} {b : Bool} (h : boolean? token = some b) : NoNumber token (.bool b) := by
  unfold boolean? at h
  split at h
  · next same =>
    obtain ⟨c, rfl, lower⟩ := hash_of_toLower same
    cases h
    exact .true (eq_or_capital lower rfl)
  · split at h
    · next same =>
      obtain ⟨c, rfl, lower⟩ := hash_of_toLower same
      cases h
      exact .false (eq_or_capital lower rfl)
    · cases h

theorem noNumber_symbol {token : List Char} (noBoolean : boolean? token = none) (noText : quotation? token = none) :
    NoNumber token (.named (String.ofList token)) := by
  refine .symbol ?_ ?_
  · rintro c rfl letter
    simp only [List.mem_cons, List.not_mem_nil, or_false] at letter
    rcases letter with rfl | rfl | rfl | rfl <;> cases noBoolean
  · rintro cs rfl
    rw [quotation?_eq_some.2 rfl] at noText
    cases noText

theorem ofChars_cases (token : List Char) :
    (∃ n, integer? token = some n ∧ ofChars token = .int n) ∨
      integer? token = none ∧ ((∃ x, double? token = some x ∧ ofChars token = .float x) ∨
        double? token = none ∧ NoNumber token (ofChars token)) := by
  cases integer : integer? token with
  | some n => exact .inl ⟨n, rfl, ofChars_int integer⟩
  | none =>
    refine .inr ⟨rfl, ?_⟩
    cases double : double? token with
    | some x => exact .inl ⟨x, rfl, ofChars_float integer double⟩
    | none =>
      refine .inr ⟨rfl, ?_⟩
      cases boolean : boolean? token with
      | some b =>
        rw [ofChars_bool integer double boolean]
        exact noNumber_boolean boolean
      | none =>
        cases text : quotation? token with
        | some cs =>
          rw [ofChars_text integer double boolean text, quotation?_eq_some.1 text]
          exact .text cs
        | none =>
          rw [ofChars_symbol integer double boolean text]
          exact noNumber_symbol boolean text

theorem NoNumber.not_number {token : List Char} {v : Value} (h : NoNumber token v) :
    (∀ n, v ≠ .int n) ∧ ∀ x, v ≠ .float x := by
  cases h <;> exact ⟨fun _ same => Value.noConfusion same, fun _ same => Value.noConfusion same⟩

theorem ofChars_eq_int {token : List Char} {n : Int} : ofChars token = .int n ↔ integer? token = some n := by
  refine ⟨fun denotes => ?_, ofChars_int⟩
  rcases ofChars_cases token with ⟨m, read, same⟩ | ⟨_, ⟨x, _, same⟩ | ⟨_, other⟩⟩
  · rw [denotes] at same
    cases same
    exact read
  · exact nomatch same.symm.trans denotes
  · exact absurd denotes (other.not_number.1 n)

theorem ofChars_eq_float {token : List Char} {x : Binary64} :
    ofChars token = .float x ↔ integer? token = none ∧ double? token = some x := by
  refine ⟨fun denotes => ?_, fun read => ofChars_float read.1 read.2⟩
  rcases ofChars_cases token with ⟨m, _, same⟩ | ⟨noInteger, ⟨y, read, same⟩ | ⟨_, other⟩⟩
  · exact nomatch same.symm.trans denotes
  · rw [denotes] at same
    cases same
    exact ⟨noInteger, read⟩
  · exact absurd denotes (other.not_number.2 x)

theorem integer?_eq_none_iff {token : List Char} :
    integer? token = none ↔ ¬ ∃ n, WritesInteger isMargin token n ∧ FitsDouble n := by
  rw [Option.eq_none_iff_forall_ne_some, not_exists]
  exact forall_congr' fun n => not_congr integer?_eq_some

/-- Margins of numerals are white space other than information separators. -/
theorem ofChars_classified (token : List Char) : Classified isMargin token where
  int_iff _ := ofChars_eq_int.trans integer?_eq_some
  float_iff _ := ofChars_eq_float.trans (and_congr integer?_eq_none_iff double?_iff)
  noNumber noInteger noDouble := by
    rcases ofChars_cases token with ⟨n, _, same⟩ | ⟨_, ⟨x, _, same⟩ | ⟨_, other⟩⟩
    · exact absurd same (noInteger n)
    · exact absurd same (noDouble x)
    · exact other
  double_of_integer n read := by
    obtain ⟨_, _, _, decimal⟩ := (Numeral.integer?_eq_some.1 read).decimal
    exact ⟨_, Numeral.double?_eq_some.2 (.inl decimal)⟩
  digitless_iff _ := Numeral.digitless_iff

/-- An information separator before a digit makes a symbol, though it is white space. -/
theorem not_classified_separator : ¬ Classified isBlank ['\x1c', '5'] := by
  intro classified
  have written : WritesInteger isBlank ['\x1c', '5'] 5 := by
    have digits : Digits ['5'] [5] := .one (by decide)
    exact ⟨false, ['5'], [5], ⟨[], .absent, rfl⟩, digits, by decide, rfl⟩
  have fits : FitsDouble 5 := ⟨by decide +kernel, 5, 0, by decide, rfl⟩
  have denotes := (classified.int_iff 5).2 ⟨written, fits⟩
  have symbol : ofChars ['\x1c', '5'] = .named (String.ofList ['\x1c', '5']) := rfl
  rw [symbol] at denotes
  cases denotes

end MicroScheme.Atom
