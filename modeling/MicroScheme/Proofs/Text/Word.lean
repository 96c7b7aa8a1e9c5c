import MicroScheme.Atom
import MicroScheme.Proofs.Text.Numeral

set_option autoImplicit false

namespace MicroScheme.Numeral

open Text

def wordLetters : List Char := ['i', 'n', 'f', 't', 'y', 'a']

inductive Word (negative : Bool) : List Char → Binary64 → Prop where
  | infinity {cs : List Char} :
      cs.map Char.toLower = ['i', 'n', 'f'] ∨ cs.map Char.toLower = ['i', 'n', 'f', 'i', 'n', 'i', 't', 'y'] →
        Word negative cs (.infinite negative)
  | nan {cs : List Char} : cs.map Char.toLower = ['n', 'a', 'n'] → Word negative cs .nan

theorem word?_eq_some {negative : Bool} {cs : List Char} {x : Binary64} :
    word? negative cs = some x ↔ Word negative cs x := by
  have spelled : ∀ ds : List Char, String.ofList (cs.map Char.toLower) = String.ofList ds ↔ cs.map Char.toLower = ds :=
    fun ds => ⟨fun same => String.ofList_injective same, congrArg String.ofList⟩
  have inf := spelled ['i', 'n', 'f']
  have infinity := spelled ['i', 'n', 'f', 'i', 'n', 'i', 't', 'y']
  have nan := spelled ['n', 'a', 'n']
  unfold word?
  dsimp only
  constructor
  · intro h
    split at h
    · next same =>
      rw [Bool.or_eq_true, decide_eq_true_eq, decide_eq_true_eq] at same
      rw [← Option.some.inj h]
      exact .infinity (same.imp inf.1 infinity.1)
    · split at h
      · next same =>
        rw [← Option.some.inj h]
        exact .nan (nan.1 same)
      · cases h
  · rintro (same | same)
    · rw [if_pos]
      rw [Bool.or_eq_true, decide_eq_true_eq, decide_eq_true_eq]
      exact same.imp inf.2 infinity.2
    · rw [if_neg, if_pos (nan.2 same)]
      rw [Bool.or_eq_true, decide_eq_true_eq, decide_eq_true_eq]
      rintro (other | other)
      · exact absurd (same.symm.trans (inf.1 other)) (by decide)
      · exact absurd (same.symm.trans (infinity.1 other)) (by decide)

theorem Word.letters {negative : Bool} {cs : List Char} {x : Binary64} (h : Word negative cs x) :
    ∀ c ∈ cs, c.toLower ∈ wordLetters := by
  have spelled : ∀ ds : List Char, cs.map Char.toLower = ds → ds.all (· ∈ wordLetters) = true →
      ∀ c ∈ cs, c.toLower ∈ wordLetters := by
    intro ds same letters c mem
    exact of_decide_eq_true (List.all_eq_true.1 letters _ (same ▸ List.mem_map_of_mem mem))
  cases h with
  | infinity same =>
    rcases same with same | same
    · exact spelled _ same (by decide)
    · exact spelled _ same (by decide)
  | nan same => exact spelled _ same (by decide)

theorem word?_eq_none (negative : Bool) {c : Char} {cs : List Char} (mem : c ∈ cs)
    (notLetter : c.toLower ∉ wordLetters) : word? negative cs = none :=
  Option.eq_none_iff_forall_not_mem.2 fun _ word => notLetter ((word?_eq_some.1 word).letters c mem)

theorem isDigit_of_code {codes : List Nat} (noDigit : ∀ n ∈ codes, isDigit (Char.ofNat n) = false) {c : Char}
    (h : c.toNat ∈ codes) : isDigit c = false := by
  have code := noDigit c.toNat h
  rwa [Char.ofNat_toNat] at code

theorem isDigit_of_isMargin {c : Char} (h : isMargin c = true) : isDigit c = false := by
  have codes : c.toNat ∈ List.range' 0x09 24 ++ List.range' 0x2000 11 ++
      [0x85, 0xA0, 0x1680, 0x2028, 0x2029, 0x202F, 0x205F, 0x3000] := by
    have blank := isBlank_of_isMargin h
    simp only [isBlank, Bool.or_eq_true, Bool.and_eq_true, decide_eq_true_eq, beq_iff_eq] at blank
    simp only [List.mem_append, List.mem_range'_1, List.mem_cons, List.not_mem_nil, or_false]
    omega
  exact isDigit_of_code (by decide +kernel) codes

theorem isDigit_of_toLower {c : Char} (h : c.toLower ∈ wordLetters) : isDigit c = false := by
  unfold Char.toLower at h
  split at h
  · next upper =>
    have lowest := UInt32.le_iff_toNat_le.1 upper.1
    have highest := UInt32.le_iff_toNat_le.1 upper.2
    have codes : c.toNat ∈ List.range' 65 26 :=
      List.mem_range'_1.2 ⟨lowest, Nat.lt_of_le_of_lt highest (by decide)⟩
    exact isDigit_of_code (by decide +kernel) codes
  · have codes : c.toNat ∈ wordLetters.map Char.toNat := List.mem_map_of_mem h
    exact isDigit_of_code (by decide +kernel) codes

theorem isDigit_of_isDigit {c : Char} (h : c.isDigit = true) : isDigit c = true := by
  rw [isDigit, digitValue?_of_isDigit h]
  rfl

theorem toLower_of_isDigit {c : Char} (h : isDigit c = true) : c.toLower ∉ wordLetters := fun letter =>
  Bool.false_ne_true ((isDigit_of_toLower letter).symm.trans h)

end MicroScheme.Numeral
