import MicroScheme.Proofs.Form.Built
import MicroScheme.Proofs.Form.Grammar
import MicroScheme.Proofs.Value.Closure
import MicroScheme.Proofs.Value.Readable

set_option autoImplicit false

namespace MicroScheme

namespace Token

/-- The characters are these tokens, wherever a word ends after them. -/
def Scans (cs : List Char) (ts : List (List Char)) : Prop :=
  ∀ rest, Ends rest → scan false [] (cs ++ rest) = ts ++ scan false [] rest

theorem scans_word {cs : List Char} (plain : Plain cs) : Scans cs [cs] :=
  fun _ ends => scan_word plain ends

theorem scans_intercalate {css : List (List Char)} {tss : List (List (List Char))}
    (h : List.Forall₂ Scans css tss) : Scans ([' '].intercalate css) tss.flatten := by
  induction h with
  | nil => exact fun _ _ => rfl
  | @cons cs ts css tss hcs hs ih =>
    cases hs with
    | nil =>
      rw [List.intercalate_singleton, List.flatten_cons, List.flatten_nil, List.append_nil]
      exact hcs
    | cons _ _ =>
      intro rest ends
      rw [List.intercalate_cons_cons, List.append_assoc, List.append_assoc, List.singleton_append,
        hcs _ (ends_cons (by decide : ¬ PlainChar ' ') _), List.flatten_cons, List.append_assoc, ← ih rest ends]
      rfl

theorem scans_parentheses {cs : List Char} {ts : List (List Char)} (h : Scans cs ts) :
    Scans ('(' :: (cs ++ [')'])) (['('] :: (ts ++ [[')']])) := by
  intro rest _
  have closing : scan false [] (')' :: rest) = [')'] :: scan false [] rest := rfl
  have opening : scan false [] ('(' :: (cs ++ ')' :: rest)) = ['('] :: scan false [] (cs ++ ')' :: rest) := rfl
  rw [List.cons_append, List.append_assoc, List.singleton_append, opening,
    h _ (ends_cons (by decide : ¬ PlainChar ')') rest), closing, List.cons_append, List.append_assoc]
  rfl

theorem Scans.ofText {text : String} {ts : List (List Char)} (h : Scans text.toList ts) :
    ofText text = ts.map String.ofList := by
  have whole := h [] fun _ _ same => nomatch same
  rw [List.append_nil] at whole
  rw [ofText_eq_scan, whole]
  exact congrArg _ (List.append_nil ts)

end Token

namespace Value

def ReadsBack (v w : Value) : Prop :=
  ∃ text ts, v.print? true = some text ∧ Token.Scans text.toList ts ∧ Form.Reads (ts.map String.ofList) w

theorem Written.readsBack {v w : Value} (h : Written v w) : ReadsBack v w := by
  obtain ⟨t, text, plain, rfl⟩ := h
  have noParenthesis : ∀ c, Token.isParenthesis c = true → t.toList ≠ [c] := by
    intro c parenthesis same
    have notParenthesis := (plain.2 c (same ▸ List.mem_singleton_self c)).2.1
    rw [parenthesis] at notParenthesis
    cases notParenthesis
  refine ⟨t, [t.toList], text, Token.scans_word plain, ?_⟩
  rw [List.map_singleton, String.ofList_toList]
  refine Form.reads_atom ?_ ?_
  · rintro rfl
    exact noParenthesis '(' rfl rfl
  · rintro rfl
    exact noParenthesis ')' rfl rfl

theorem printAll?_readsBack {items ws : List Value} (h : List.Forall₂ ReadsBack items ws) :
    ∃ parts tss, printAll? true items = some parts ∧
      List.Forall₂ Token.Scans (parts.map String.toList) tss ∧
      List.Forall₂ Form.Reads (tss.map (List.map String.ofList)) ws := by
  induction h with
  | nil => exact ⟨[], [], rfl, .nil, .nil⟩
  | cons hv _ ih =>
    obtain ⟨text, ts, printed, scans, reads⟩ := hv
    obtain ⟨parts, tss, printedAll, scansAll, readsAll⟩ := ih
    refine ⟨text :: parts, ts :: tss, ?_, .cons scans scansAll, .cons reads readsAll⟩
    rw [printAll?, printed, printedAll]
    rfl

theorem readsBack_list {items ws : List Value} (h : List.Forall₂ ReadsBack items ws) :
    ReadsBack (.list items) (.list ws) := by
  obtain ⟨parts, tss, printed, scans, reads⟩ := printAll?_readsBack h
  have chars : ("(" ++ " ".intercalate parts ++ ")").toList =
      '(' :: ([' '].intercalate (parts.map String.toList) ++ [')']) := by
    rw [String.toList_append, String.toList_append, String.toList_intercalate]
    rfl
  have tokens : (['('] :: (tss.flatten ++ [[')']])).map String.ofList =
      Token.opening :: ((tss.map (List.map String.ofList)).flatten ++ [Token.closing]) := by
    rw [List.map_cons, List.map_append, List.map_flatten]
    rfl
  refine ⟨"(" ++ " ".intercalate parts ++ ")", ['('] :: (tss.flatten ++ [[')']]), ?_, ?_, ?_⟩
  · rw [print?, printed, Option.map_some]
  · rw [chars]
    exact Token.scans_parentheses (Token.scans_intercalate scans)
  · rw [tokens]
    exact Form.reads_list reads

theorem ReadsBack.ofText {v w : Value} (h : ReadsBack v w) :
    ∃ text, v.print? true = some text ∧ Form.ofText text = .ok w ∧ Form.allOfText text = ([w], none) := by
  obtain ⟨text, ts, printed, scans, reads⟩ := h
  refine ⟨text, printed, ?_, ?_⟩
  · rw [Form.ofText, scans.ofText, reads.read]
  · rw [Form.allOfText, scans.ofText, reads.readAll]

theorem Readable.readsBack {v : Value} (h : Readable v) : ReadsBack v v := by
  induction h with
  | list _ ih => exact readsBack_list (List.forall₂_same.2 ih)
  | bool b => exact (Written.bool b).readsBack
  | float finite => exact (Written.float finite).readsBack
  | int representable => exact (Written.int representable).readsBack
  | text plain => exact (Written.text plain).readsBack
  | symbol plain same => exact (Written.symbol plain same).readsBack

inductive Legible : Value → Prop where
  | readable {v : Value} : Readable v → Legible v
  | infinite (negative : Bool) : Legible (.float (.infinite negative))
  | list {items : List Value} : (∀ x ∈ items, Legible x) → Legible (.list items)

theorem legible_of_ofText {text : String} {v : Value} (h : Form.ofText text = .ok v) : Legible v := by
  refine Form.read_built ⟨fun t mem notOpening notClosing => ?_, fun _ => .list⟩ h
  have plain : Token.Plain t.toList := ((Token.ofText_token mem).resolve_left notOpening).resolve_left notClosing
  rcases readable_ofToken plain with readable | ⟨negative, infinite⟩
  · exact .readable readable
  · exact infinite ▸ .infinite negative

mutual

/-- The value with the symbols that infinities are printed as in place of the infinities. -/
def reread : Value → Value
  | .number (.float (.infinite negative)) => .named (Binary64.infinite negative).toText
  | .list items => .list (rereadAll items)
  | v => v

def rereadAll : List Value → List Value
  | [] => []
  | v :: vs => reread v :: rereadAll vs

end

theorem rereadAll_eq_map (items : List Value) : rereadAll items = items.map reread := by
  induction items with
  | nil => rfl
  | cons v vs ih => rw [rereadAll, ih, List.map_cons]

theorem reread_list (items : List Value) : reread (.list items) = .list (items.map reread) := by
  rw [reread, rereadAll_eq_map]

theorem Readable.reread_eq {v : Value} (h : Readable v) : v.reread = v := by
  induction h with
  | @list items _ ih =>
    have each : items.map reread = items.map id := List.map_congr_left ih
    rw [reread_list, each, List.map_id]
  | @float x finite =>
    cases x with
    | finite negative mantissa exponent canonical => rfl
    | infinite negative => cases finite
    | nan => cases finite
  | _ => rfl

theorem Legible.readsBack {v : Value} (h : Legible v) : ReadsBack v v.reread := by
  induction h with
  | readable readable => exact readable.reread_eq.symm ▸ readable.readsBack
  | infinite negative => exact (Written.infinite negative).readsBack
  | @list items _ ih =>
    rw [reread_list]
    exact readsBack_list (List.forall₂_map_right_iff.2 (List.forall₂_same.2 ih))

theorem Legible.readable_of_reread {v : Value} (h : Legible v) (same : v.reread = v) : Readable v := by
  induction h with
  | readable readable => exact readable
  | infinite negative => cases same
  | @list items _ ih =>
    rw [reread_list] at same
    have each : items.map reread = items.map id := by
      rw [List.map_id]
      exact Value.list.inj same
    exact .list fun x mem => ih x mem (List.map_inj_left.1 each x mem)

theorem Legible.readable_of_finite {v : Value} (h : Legible v)
    (finite : ∀ negative, ¬ Within (.float (.infinite negative)) v) : Readable v := by
  induction h with
  | readable readable => exact readable
  | infinite negative => exact absurd .here (finite negative)
  | list _ ih => exact .list fun x mem => ih x mem fun negative within => finite negative (.item mem within)

theorem Readable.finite {v : Value} (h : Readable v) (negative : Bool) : ¬ Within (.float (.infinite negative)) v := by
  induction h with
  | list _ ih =>
    rintro (_ | ⟨mem, within⟩)
    exact ih _ mem within
  | float finite =>
    rintro ⟨⟩
    cases finite
  | _ => rintro ⟨⟩

theorem rereads_of_ofText {text : String} {v : Value} (h : Form.ofText text = .ok v) :
    ∃ w, ReadsBack v w ∧ (w = v → Readable v) :=
  have legible := legible_of_ofText h
  ⟨v.reread, legible.readsBack, legible.readable_of_reread⟩

end Value

/-- A value is read again from its text if and only if it is readable, and it is then all that is read. -/
theorem print_read_iff (v : Value) :
    ((∃ text, v.print? true = some text ∧ Form.ofText text = .ok v) ↔ v.Readable) ∧
      (v.Readable → ∃ text, v.print? true = some text ∧ Form.allOfText text = ([v], none)) := by
  refine ⟨⟨?_, fun readable => ?_⟩, fun readable => ?_⟩
  · rintro ⟨text, printed, read⟩
    obtain ⟨w, back, readable⟩ := Value.rereads_of_ofText read
    obtain ⟨text', printed', read', _⟩ := back.ofText
    have same : text' = text := Option.some.inj (printed'.symm.trans printed)
    rw [same, read] at read'
    exact readable (Except.ok.inj read').symm
  · obtain ⟨text, printed, read, _⟩ := readable.readsBack.ofText
    exact ⟨text, printed, read⟩
  · obtain ⟨text, printed, _, readAll⟩ := readable.readsBack.ofText
    exact ⟨text, printed, readAll⟩

/-- What is read from a text has a text of its own, which is read with symbols in place of the infinities: as the same
value if and only if no infinity occurs in it. -/
theorem read_print (text : String) (v : Value) (h : Form.ofText text = .ok v) :
    ∃ printed, v.print? true = some printed ∧ Form.ofText printed = .ok v.reread ∧
      (Form.ofText printed = .ok v ↔ ∀ negative, ¬ Value.Within (.float (.infinite negative)) v) := by
  have legible := Value.legible_of_ofText h
  obtain ⟨printed, hprinted, hread, _⟩ := legible.readsBack.ofText
  refine ⟨printed, hprinted, hread, ?_⟩
  rw [hread]
  constructor
  · intro same
    exact (legible.readable_of_reread (Except.ok.inj same)).finite
  · intro finite
    rw [(legible.readable_of_finite finite).reread_eq]

theorem read_print_of_overflow :
    Form.ofText "(a -1e999)" = .ok (.list [.named "a", .float (.infinite true)]) ∧
      ∃ printed, (Value.list [.named "a", .float (.infinite true)]).print? true = some printed ∧
        Form.ofText printed = .ok (.list [.named "a", .named "-inf"]) := by
  have read : Form.ofText "(a -1e999)" = .ok (.list [.named "a", .float (.infinite true)]) := rfl
  obtain ⟨printed, hprinted, hread, _⟩ := read_print _ _ read
  exact ⟨read, printed, hprinted, hread⟩

/-- A decimal beyond all doubles comes back as a symbol. -/
theorem infinity_not_reread :
    Form.ofText "1e999" = .ok (.float (.infinite false)) ∧
      (Value.float (.infinite false)).print? true = some "inf" ∧
      Form.ofText "inf" = .ok (.named "inf") ∧
      ¬ ∀ text v, Form.ofText text = .ok v → ∃ printed, v.print? true = some printed ∧ Form.ofText printed = .ok v := by
  have read : Form.ofText "1e999" = .ok (.float (.infinite false)) := rfl
  have reread : Form.ofText "inf" = .ok (.named "inf") := rfl
  refine ⟨read, rfl, reread, fun roundTrip => ?_⟩
  obtain ⟨printed, hprinted, hread⟩ := roundTrip _ _ read
  cases hprinted
  cases reread.symm.trans hread

end MicroScheme
