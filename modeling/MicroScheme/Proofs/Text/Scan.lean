import MicroScheme.Token

set_option autoImplicit false

namespace MicroScheme.Token

/-- What the scanner emits where a word ends. It has read the word last character first. -/
def emit : (word : List Char) → List (List Char)
  | [] => []
  | c :: cs => [(c :: cs).reverse]

/-- Scans a text. A comment ends the word before it; with `inside` set one is being skipped. -/
def scan : (inside : Bool) → (word : List Char) → List Char → List (List Char)
  | _, word, [] => emit word
  | true, word, c :: cs => if c = '\n' then scan false word cs else scan true word cs
  | false, word, c :: cs =>
    if c = ';' then emit word ++ scan true [] cs
    else if isParenthesis c then emit word ++ [c] :: scan false [] cs
    else if Text.isBlank c then emit word ++ scan false [] cs
    else scan false (c :: word) cs

def PlainChar (c : Char) : Prop := Text.isBlank c = false ∧ isParenthesis c = false ∧ c ≠ ';'

/-- A word that is one token. -/
def Plain (cs : List Char) : Prop := cs ≠ [] ∧ ∀ c ∈ cs, PlainChar c

instance (c : Char) : Decidable (PlainChar c) := inferInstanceAs (Decidable (_ ∧ _ ∧ _))

instance (cs : List Char) : Decidable (Plain cs) :=
  decidable_of_iff (cs ≠ [] ∧ cs.all (decide <| PlainChar ·) = true) (by simp [Plain])

theorem plainChar_of_not {c : Char} (notComment : c ≠ ';') (notParenthesis : ¬ isParenthesis c = true)
    (notBlank : ¬ Text.isBlank c = true) : PlainChar c :=
  ⟨Bool.eq_false_iff.2 notBlank, Bool.eq_false_iff.2 notParenthesis, notComment⟩

theorem isParenthesis_iff (c : Char) : isParenthesis c = true ↔ c = '(' ∨ c = ')' := by
  rw [isParenthesis, Bool.or_eq_true, decide_eq_true_eq, decide_eq_true_eq]

theorem finish_eq_emit (word : List Char) : finish word = emit word := by
  cases word <;> rfl

theorem emit_of_ne_nil {word : List Char} (h : word ≠ []) : emit word = [word.reverse] := by
  cases word with
  | nil => exact absurd rfl h
  | cons c cs => rfl

theorem padParentheses_cons (c : Char) (cs : List Char) :
    padParentheses (c :: cs) = (if isParenthesis c then [' ', c, ' '] else [c]) ++ padParentheses cs := by
  rw [padParentheses, List.flatMap_cons]
  rfl

theorem not_special_of_parenthesis {c : Char} (h : isParenthesis c = true) :
    c ≠ ';' ∧ c ≠ '\n' ∧ Text.isBlank c = false := by
  rcases (isParenthesis_iff c).1 h with rfl | rfl <;> decide

theorem words_eq_scan (cs : List Char) :
    (∀ word, words word (blankComments false (padParentheses cs)) = scan false word cs) ∧
      words [] (blankComments true (padParentheses cs)) = scan true [] cs := by
  induction cs with
  | nil => exact ⟨finish_eq_emit, rfl⟩
  | cons c cs ih =>
    obtain ⟨outside, inside⟩ := ih
    rw [padParentheses_cons]
    by_cases parenthesis : isParenthesis c = true
    · obtain ⟨notComment, notNewline, notBlank⟩ := not_special_of_parenthesis parenthesis
      rw [if_pos parenthesis]
      refine ⟨fun word => ?_, ?_⟩
      · have split : words word (' ' :: c :: ' ' :: blankComments false (padParentheses cs)) =
            emit word ++ [c] :: words [] (blankComments false (padParentheses cs)) := by
          rw [words, if_pos (by decide), words, if_neg (by rw [notBlank]; decide), words, if_pos (by decide),
            finish_eq_emit]
          rfl
        rw [scan, if_neg notComment, if_pos parenthesis, ← outside, ← split]
        simp [blankComments, notComment]
      · rw [scan, if_neg notNewline, ← inside]
        simp [blankComments, notNewline]
    · rw [if_neg parenthesis]
      refine ⟨fun word => ?_, ?_⟩
      · rw [List.singleton_append, blankComments, scan, if_neg parenthesis]
        split
        · rw [words, if_pos (by decide), inside, finish_eq_emit]
        · rw [words, outside, outside, finish_eq_emit]
      · rw [List.singleton_append, blankComments, scan]
        split
        · next newline =>
          rw [newline, words, if_pos (by decide), outside]
          rfl
        · exact inside

theorem ofText_eq_scan (text : String) : ofText text = (scan false [] text.toList).map String.ofList := by
  rw [ofText, (words_eq_scan text.toList).1]

theorem emit_plain {word : List Char} (h : ∀ c ∈ word, PlainChar c) :
    ∀ t ∈ emit word, t = ['('] ∨ t = [')'] ∨ Plain t := by
  intro t mem
  cases word with
  | nil => cases mem
  | cons c word =>
    rw [List.mem_singleton.1 mem]
    exact .inr (.inr ⟨by simp, fun d hd => h d (List.mem_reverse.1 hd)⟩)

theorem scan_plain (cs : List Char) (inside : Bool) {word : List Char} (h : ∀ c ∈ word, PlainChar c) :
    ∀ t ∈ scan inside word cs, t = ['('] ∨ t = [')'] ∨ Plain t := by
  induction cs generalizing inside word with
  | nil =>
    cases inside <;> exact emit_plain h
  | cons c cs ih =>
    cases inside with
    | true =>
      rw [scan]
      split
      · exact ih false h
      · exact ih true h
    | false =>
      rw [scan]
      split
      · exact List.forall_mem_append.2 ⟨emit_plain h, ih true (by simp)⟩
      · next notComment =>
        split
        · next parenthesis =>
          refine List.forall_mem_append.2 ⟨emit_plain h, List.forall_mem_cons.2 ⟨?_, ih false (by simp)⟩⟩
          rcases (isParenthesis_iff c).1 parenthesis with rfl | rfl
          · exact .inl rfl
          · exact .inr (.inl rfl)
        · next notParenthesis =>
          split
          · exact List.forall_mem_append.2 ⟨emit_plain h, ih false (by simp)⟩
          · next notBlank =>
            have plain := plainChar_of_not notComment notParenthesis notBlank
            exact ih false (List.forall_mem_cons.2 ⟨plain, h⟩)

theorem ofText_token {text : String} {t : Token} (h : t ∈ ofText text) :
    t = opening ∨ t = closing ∨ Plain t.toList := by
  rw [ofText_eq_scan] at h
  obtain ⟨cs, scanned, rfl⟩ := List.mem_map.1 h
  rcases scan_plain text.toList false (List.forall_mem_nil _) cs scanned with rfl | rfl | plain
  · exact .inl rfl
  · exact .inr (.inl rfl)
  · exact .inr (.inr (String.toList_ofList.symm ▸ plain))

theorem getD_ofText? (text : String) : (ofText? text).getD [] = ofText text := by
  rw [ofText?]
  cases ofText text <;> rfl

theorem ofText?_eq_none_iff (text : String) : ofText? text = none ↔ ofText text = [] := by
  rw [ofText?]
  cases ofText text <;> simp

theorem ofText?_eq_some_iff (text : String) (ts : List Token) :
    ofText? text = some ts ↔ ts ≠ [] ∧ ofText text = ts := by
  rw [ofText?]
  cases ofText text with
  | nil => simp [eq_comm]
  | cons u us =>
    rw [Option.some.injEq]
    exact ⟨fun same => ⟨same ▸ List.cons_ne_nil u us, same⟩, And.right⟩

/-- A text has the tokens that one scan of it from left to right emits, and none exactly if the scan emits none. So no
token is empty, holds white space or a semicolon, or holds a parenthesis beside another character. -/
theorem ofText?_scan (text : String) :
    (ofText? text).getD [] = (scan false [] text.toList).map String.ofList ∧
      (ofText? text = none ↔ scan false [] text.toList = []) ∧
      ∀ t ∈ (ofText? text).getD [], t ≠ "" ∧ ∀ c ∈ t.toList, Text.isBlank c = false ∧ c ≠ ';' ∧
        (isParenthesis c = true → t.toList = [c]) := by
  rw [getD_ofText?, ofText?_eq_none_iff]
  refine ⟨ofText_eq_scan text, ?_, fun t mem => ?_⟩
  · rw [ofText_eq_scan, List.map_eq_nil_iff]
  · rcases ofText_token mem with rfl | rfl | ⟨nonempty, plain⟩
    · refine ⟨by decide, fun c hc => ?_⟩
      obtain rfl : c = '(' := List.mem_singleton.1 hc
      exact ⟨by decide, by decide, fun _ => rfl⟩
    · refine ⟨by decide, fun c hc => ?_⟩
      obtain rfl : c = ')' := List.mem_singleton.1 hc
      exact ⟨by decide, by decide, fun _ => rfl⟩
    · refine ⟨?_, fun c hc => ?_⟩
      · rintro rfl
        exact nonempty rfl
      · obtain ⟨notBlank, notParenthesis, notComment⟩ := plain c hc
        refine ⟨notBlank, notComment, fun parenthesis => ?_⟩
        rw [notParenthesis] at parenthesis
        cases parenthesis

/-- The comment goes on past the line separator U+2028. -/
example : ofText? "a;(b)\u2028c\n(d;e" = some ["a", "(", "d"] := by decide +kernel

def Ends (cs : List Char) : Prop := ∀ c rest, cs = c :: rest → ¬ PlainChar c

theorem ends_cons {c : Char} (special : ¬ PlainChar c) (rest : List Char) : Ends (c :: rest) :=
  fun _ _ same => (List.cons.inj same).1 ▸ special

theorem scan_ends {rest : List Char} (ends : Ends rest) (word : List Char) :
    scan false word rest = emit word ++ scan false [] rest := by
  cases rest with
  | nil => exact (List.append_nil _).symm
  | cons c rest =>
    have special := ends c rest rfl
    rw [scan, scan]
    split
    · rfl
    · next notComment =>
      split
      · rfl
      · next notParenthesis =>
        split
        · rfl
        · next notBlank => exact absurd (plainChar_of_not notComment notParenthesis notBlank) special

theorem scan_append {cs : List Char} (h : ∀ c ∈ cs, PlainChar c) (word rest : List Char) :
    scan false word (cs ++ rest) = scan false (cs.reverse ++ word) rest := by
  induction cs generalizing word with
  | nil => rfl
  | cons c cs ih =>
    obtain ⟨⟨notBlank, notParenthesis, notComment⟩, hcs⟩ := List.forall_mem_cons.1 h
    rw [List.cons_append, scan, if_neg notComment, notParenthesis, notBlank, List.reverse_cons, List.append_assoc]
    exact ih hcs (c :: word)

theorem scan_word {cs rest : List Char} (plain : Plain cs) (ends : Ends rest) :
    scan false [] (cs ++ rest) = cs :: scan false [] rest := by
  have nonempty : cs.reverse ++ [] ≠ [] := by
    rw [List.append_nil]
    exact fun empty => plain.1 (List.reverse_eq_nil_iff.1 empty)
  rw [scan_append plain.2, scan_ends ends, emit_of_ne_nil nonempty, List.append_nil, List.reverse_reverse]
  rfl

theorem scan_newline (cs rest : List Char) :
    (∀ word, scan false word (cs ++ '\n' :: rest) = scan false word cs ++ scan false [] rest) ∧
      scan true [] (cs ++ '\n' :: rest) = scan true [] cs ++ scan false [] rest := by
  induction cs with
  | nil => exact ⟨fun _ => rfl, rfl⟩
  | cons c cs ih =>
    obtain ⟨outside, inside⟩ := ih
    refine ⟨fun word => ?_, ?_⟩
    · rw [List.cons_append, scan, scan]
      split
      · rw [inside, List.append_assoc]
      · split
        · rw [outside, List.append_assoc, List.cons_append]
        · split
          · rw [outside, List.append_assoc]
          · exact outside _
    · rw [List.cons_append, scan, scan]
      split
      · exact outside []
      · exact inside

theorem ofText_append_newline (a b : String) : ofText (a ++ "\n" ++ b) = ofText a ++ ofText b := by
  have chars : (a ++ "\n" ++ b).toList = a.toList ++ '\n' :: b.toList := by
    rw [String.toList_append, String.toList_append, List.append_assoc]
    rfl
  rw [ofText_eq_scan, ofText_eq_scan, ofText_eq_scan, chars, (scan_newline a.toList b.toList).1, List.map_append]

end MicroScheme.Token
