import MicroScheme.Proofs.Text.Scan

set_option autoImplicit false

/-!
Layouts of tokens. Any white space and any comments may stand before, between and after the tokens of a text, and need
not where one of two neighbours is a parenthesis. Main statement: a text has these tokens exactly if it is a layout of
them (`ofText?_iff_layout`).
-/

namespace MicroScheme.Token

/-- White space and comments, each comment with the newline that ends it. -/
inductive Gap : List Char → Prop where
  | nothing : Gap []
  | blank {c : Char} {cs : List Char} : Text.isBlank c = true → Gap cs → Gap (c :: cs)
  | comment {body cs : List Char} : '\n' ∉ body → Gap cs → Gap (';' :: (body ++ '\n' :: cs))

/-- A gap at the end of a text, where the last comment may lack its newline. -/
inductive LastGap : List Char → Prop where
  | closed {cs : List Char} : Gap cs → LastGap cs
  | comment {cs body : List Char} : Gap cs → '\n' ∉ body → LastGap (cs ++ ';' :: body)

def IsBracket (t : Token) : Prop := t = opening ∨ t = closing

def IsToken (t : Token) : Prop := IsBracket t ∨ Plain t.toList

/-- The tokens in order, each with the gap after it. A gap between two tokens is empty only if one of them is a
parenthesis. -/
inductive Sequence : List Token → List Char → Prop where
  | last {t : Token} {gap : List Char} : IsToken t → LastGap gap → Sequence [t] (t.toList ++ gap)
  | before {t u : Token} {ts : List Token} {gap cs : List Char} : IsToken t → Gap gap →
    (gap = [] → IsBracket t ∨ IsBracket u) → Sequence (u :: ts) cs → Sequence (t :: u :: ts) (t.toList ++ (gap ++ cs))

/-- The text is the tokens in order, at least one, with gaps before, between and after them. -/
def Layout (ts : List Token) (text : String) : Prop :=
  ∃ gap cs, Gap gap ∧ Sequence ts cs ∧ text.toList = gap ++ cs

theorem special_of_isBlank {c : Char} (blank : Text.isBlank c = true) :
    c ≠ ';' ∧ ¬ isParenthesis c = true ∧ ¬ PlainChar c := by
  refine ⟨?_, fun parenthesis => ?_, fun plain => ?_⟩
  · rintro rfl
    exact absurd blank (by decide)
  · rw [(not_special_of_parenthesis parenthesis).2.2] at blank
    cases blank
  · rw [plain.1] at blank
    cases blank

theorem scan_comment {body : List Char} (noNewline : '\n' ∉ body) :
    (∀ cs, scan true [] (body ++ '\n' :: cs) = scan false [] cs) ∧ scan true [] body = [] := by
  induction body with
  | nil => exact ⟨fun _ => rfl, rfl⟩
  | cons c body ih =>
    obtain ⟨other, more⟩ := not_or.1 (mt List.mem_cons.2 noNewline)
    have skipped : ∀ cs, scan true [] (c :: cs) = scan true [] cs := fun cs => by rw [scan, if_neg (Ne.symm other)]
    exact ⟨fun cs => (skipped _).trans ((ih more).1 cs), (skipped _).trans (ih more).2⟩

theorem Gap.append {gap more : List Char} (h : Gap gap) (next : Gap more) : Gap (gap ++ more) := by
  induction h with
  | nothing => exact next
  | blank isBlank _ ih => exact .blank isBlank ih
  | comment noNewline _ ih =>
    rw [List.cons_append, List.append_assoc]
    exact .comment noNewline ih

theorem Gap.append_last {gap more : List Char} (h : Gap gap) (next : LastGap more) : LastGap (gap ++ more) := by
  cases next with
  | closed next => exact .closed (h.append next)
  | comment next noNewline =>
    rw [← List.append_assoc]
    exact .comment (h.append next) noNewline

theorem Gap.scan_append {gap : List Char} (h : Gap gap) (cs : List Char) :
    scan false [] (gap ++ cs) = scan false [] cs := by
  induction h with
  | nothing => rfl
  | blank isBlank _ ih =>
    obtain ⟨notComment, notParenthesis, _⟩ := special_of_isBlank isBlank
    rw [List.cons_append, scan, if_neg notComment, if_neg notParenthesis, if_pos isBlank]
    exact ih
  | comment noNewline _ ih =>
    rw [List.cons_append, List.append_assoc, scan, if_pos rfl]
    exact ((scan_comment noNewline).1 _).trans ih

theorem LastGap.scan {gap : List Char} (h : LastGap gap) : scan false [] gap = [] := by
  cases h with
  | closed h =>
    have scanned := h.scan_append []
    rwa [List.append_nil] at scanned
  | comment h noNewline =>
    rw [h.scan_append, Token.scan, if_pos rfl]
    exact (scan_comment noNewline).2

theorem Gap.ends {gap : List Char} (h : Gap gap) (nonempty : gap ≠ []) (cs : List Char) : Ends (gap ++ cs) := by
  cases h with
  | nothing => exact absurd rfl nonempty
  | blank isBlank _ => exact ends_cons (special_of_isBlank isBlank).2.2 _
  | comment _ _ => exact ends_cons (by decide) _

theorem LastGap.ends {gap : List Char} (h : LastGap gap) : Ends gap := by
  cases h with
  | @closed gap h =>
    cases gap with
    | nil => exact fun _ _ same => nomatch same
    | cons c cs =>
      have ends := h.ends (List.cons_ne_nil c cs) []
      rwa [List.append_nil] at ends
  | @comment cs body h _ =>
    cases cs with
    | nil => exact ends_cons (by decide) _
    | cons c cs => exact h.ends (List.cons_ne_nil c cs) _

theorem not_plain_of_bracket {t : Token} (h : IsBracket t) : ¬ Plain t.toList := by
  rcases h with rfl | rfl <;> decide

theorem IsBracket.ends {t : Token} (h : IsBracket t) (rest : List Char) : Ends (t.toList ++ rest) := by
  rcases h with rfl | rfl
  · exact ends_cons (by decide) rest
  · exact ends_cons (by decide) rest

theorem IsToken.scan_append {t : Token} (h : IsToken t) {rest : List Char} (ends : Plain t.toList → Ends rest) :
    scan false [] (t.toList ++ rest) = t.toList :: scan false [] rest := by
  rcases h with (rfl | rfl) | plain
  · rfl
  · rfl
  · exact scan_word plain (ends plain)

theorem Sequence.head {u : Token} {us : List Token} {cs : List Char} (h : Sequence (u :: us) cs) :
    IsToken u ∧ ∃ rest, cs = u.toList ++ rest := by
  cases h with
  | last token _ => exact ⟨token, _, rfl⟩
  | before token _ _ _ => exact ⟨token, _, rfl⟩

theorem Sequence.ends {t u : Token} {us : List Token} {gap cs : List Char} (h : Sequence (u :: us) cs)
    (hgap : Gap gap) (apart : gap = [] → IsBracket t ∨ IsBracket u) (plain : Plain t.toList) : Ends (gap ++ cs) := by
  by_cases empty : gap = []
  · obtain ⟨_, rest, rfl⟩ := h.head
    rw [empty]
    exact ((apart empty).resolve_left fun bracket => not_plain_of_bracket bracket plain).ends rest
  · exact hgap.ends empty cs

theorem Sequence.scan {ts : List Token} {cs : List Char} (h : Sequence ts cs) :
    Token.scan false [] cs = ts.map String.toList := by
  induction h with
  | last token gap => rw [token.scan_append fun _ => gap.ends, gap.scan, List.map_singleton]
  | before token gap apart next ih =>
    rw [token.scan_append (next.ends gap apart), gap.scan_append, ih]
    rfl

theorem Layout.ofText {ts : List Token} {text : String} (h : Layout ts text) : ofText text = ts := by
  obtain ⟨gap, cs, hgap, sequence, split⟩ := h
  have inverse : String.ofList ∘ String.toList = id := funext fun _ => String.ofList_toList
  rw [ofText_eq_scan, split, hgap.scan_append, sequence.scan, List.map_map, inverse, List.map_id]

theorem Layout.ne_nil {ts : List Token} {text : String} (h : Layout ts text) : ts ≠ [] := by
  obtain ⟨_, _, _, sequence, _⟩ := h
  cases sequence <;> exact List.cons_ne_nil _ _

def LaidOut (cs : List Char) : Prop := LastGap cs ∨ ∃ gap u us body, Gap gap ∧ Sequence (u :: us) body ∧ cs = gap ++ body

theorem LaidOut.after_gap {gap cs : List Char} (hgap : Gap gap) (h : LaidOut cs) : LaidOut (gap ++ cs) := by
  rcases h with last | ⟨more, u, us, body, hmore, sequence, rfl⟩
  · exact .inl (hgap.append_last last)
  · exact .inr ⟨gap ++ more, u, us, body, hgap.append hmore, sequence, (List.append_assoc gap more body).symm⟩

theorem LaidOut.after_token {t : Token} {cs : List Char} (token : IsToken t) (ends : Plain t.toList → Ends cs)
    (h : LaidOut cs) : LaidOut (t.toList ++ cs) := by
  rcases h with last | ⟨gap, u, us, body, hgap, sequence, rfl⟩
  · exact .inr ⟨[], t, [], _, .nothing, .last token last, rfl⟩
  · refine .inr ⟨[], t, u :: us, _, .nothing, .before token hgap (fun empty => ?_) sequence, rfl⟩
    obtain ⟨next, rest, rfl⟩ := sequence.head
    rcases token with bracket | plain
    · exact .inl bracket
    · refine .inr (next.resolve_right fun word => ?_)
      rw [empty] at ends
      obtain ⟨c, tail, begins⟩ := List.exists_cons_of_ne_nil word.1
      have special := ends plain c (tail ++ rest) (by rw [begins]; rfl)
      exact special (word.2 c (begins ▸ List.mem_cons_self))

theorem exists_word {c : Char} (plain : PlainChar c) (cs : List Char) :
    ∃ word rest, c :: cs = word ++ rest ∧ Plain word ∧ Ends rest ∧ rest.length ≤ cs.length := by
  induction cs generalizing c with
  | nil => exact ⟨[c], [], rfl, ⟨List.cons_ne_nil c [], by simpa using plain⟩, nofun, Nat.le_refl 0⟩
  | cons d cs ih =>
    by_cases more : PlainChar d
    · obtain ⟨word, rest, split, ⟨_, all⟩, ends, shorter⟩ := ih more
      refine ⟨c :: word, rest, congrArg (c :: ·) split, ⟨List.cons_ne_nil c word, ?_⟩, ends, Nat.le_succ_of_le shorter⟩
      exact List.forall_mem_cons.2 ⟨plain, all⟩
    · exact ⟨[c], d :: cs, rfl, ⟨List.cons_ne_nil c [], by simpa using plain⟩, ends_cons more cs, Nat.le_refl _⟩

theorem isBracket_of_isParenthesis {c : Char} (h : isParenthesis c = true) : IsBracket (String.ofList [c]) := by
  rcases (isParenthesis_iff c).1 h with rfl | rfl
  · exact .inl rfl
  · exact .inr rfl

theorem char_cases (c : Char) : c = ';' ∨ isParenthesis c = true ∨ Text.isBlank c = true ∨ PlainChar c := by
  by_cases comment : c = ';'
  · exact .inl comment
  · by_cases bracket : isParenthesis c = true
    · exact .inr (.inl bracket)
    · by_cases blank : Text.isBlank c = true
      · exact .inr (.inr (.inl blank))
      · exact .inr (.inr (.inr (plainChar_of_not comment bracket blank)))

theorem laidOut_comment {cs : List Char} (next : ∀ rest : List Char, rest.length < cs.length → LaidOut rest) :
    LaidOut (';' :: cs) := by
  by_cases newline : '\n' ∈ cs
  · obtain ⟨body, rest, rfl, noNewline⟩ := List.eq_append_cons_of_mem newline
    have gap : Gap (';' :: (body ++ '\n' :: [])) := .comment noNewline .nothing
    have fewer : rest.length < (body ++ '\n' :: rest).length := by
      rw [List.length_append, List.length_cons]
      omega
    have after := (next rest fewer).after_gap gap
    rwa [List.cons_append, List.append_assoc] at after
  · exact .inl (.comment .nothing newline)

theorem laidOut (cs : List Char) : LaidOut cs := by
  induction shorter : cs.length using Nat.strongRecOn generalizing cs with
  | ind n ih =>
    have next : ∀ rest : List Char, rest.length < cs.length → LaidOut rest := fun rest fewer =>
      ih rest.length (shorter ▸ fewer) rest rfl
    cases cs with
    | nil => exact .inl (.closed .nothing)
    | cons c cs =>
      rcases char_cases c with rfl | bracket | blank | plain
      · exact laidOut_comment fun rest fewer => next rest (Nat.lt_succ_of_lt fewer)
      · have token := isBracket_of_isParenthesis bracket
        have after := (next cs (Nat.lt_succ_self _)).after_token (.inl token) fun word =>
          absurd word (not_plain_of_bracket token)
        rwa [String.toList_ofList] at after
      · exact (next cs (Nat.lt_succ_self _)).after_gap (.blank blank .nothing)
      · obtain ⟨word, rest, split, all, ends, fewer⟩ := exists_word plain cs
        have token : IsToken (String.ofList word) := .inr (String.toList_ofList.symm ▸ all)
        have after := (next rest (Nat.lt_succ_of_le fewer)).after_token token fun _ => ends
        rwa [String.toList_ofList, ← split] at after

/-- A text has these tokens if and only if it is a layout of them. -/
theorem ofText?_iff_layout (text : String) (ts : List Token) : ofText? text = some ts ↔ Layout ts text := by
  rw [ofText?_eq_some_iff]
  constructor
  · rintro ⟨nonempty, tokens⟩
    rcases laidOut text.toList with gap | ⟨gap, u, us, body, hgap, sequence, split⟩
    · rw [ofText_eq_scan, gap.scan] at tokens
      exact absurd tokens.symm nonempty
    · have layout : Layout (u :: us) text := ⟨gap, body, hgap, sequence, split⟩
      rw [← tokens, layout.ofText]
      exact layout
  · intro layout
    exact ⟨layout.ne_nil, layout.ofText⟩

theorem ofText?_of_comments :
    let ts : List Token := ["(", "a\"b", ")", "d"]
    let text : String := ";(x\n(a\"b;c)\n)d\x1c;e;("
    Layout ts text ∧ ofText? text = some ts := by
  intro ts text
  have bracket : IsToken opening ∧ IsToken closing := ⟨.inl (.inl rfl), .inl (.inr rfl)⟩
  have word : IsToken "a\"b" ∧ IsToken "d" := ⟨.inr (by decide), .inr (by decide)⟩
  have first : Gap [';', '(', 'x', '\n'] := @Gap.comment ['(', 'x'] [] (by decide) .nothing
  have between : Gap [';', 'c', ')', '\n'] := @Gap.comment ['c', ')'] [] (by decide) .nothing
  have last : LastGap ['\x1c', ';', 'e', ';', '('] :=
    @LastGap.comment ['\x1c'] ['e', ';', '('] (.blank (by decide) .nothing) (by decide)
  have sequence := Sequence.before bracket.1 .nothing (fun _ => .inl (.inl rfl)) <|
    .before word.1 between nofun <| .before bracket.2 .nothing (fun _ => .inl (.inr rfl)) <| .last word.2 last
  have layout : Layout ts text := ⟨_, _, first, sequence, by decide⟩
  exact ⟨layout, (ofText?_iff_layout text ts).2 layout⟩

end MicroScheme.Token
