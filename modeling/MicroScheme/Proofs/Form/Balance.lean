import Mathlib.Data.Nat.Find
import MicroScheme.Proofs.Form.Grammar

set_option autoImplicit false

namespace MicroScheme.Form

/-- How many more parentheses the tokens open than they close. -/
def depth (ts : List Token) : Int := (ts.count Token.opening : Int) - ts.count Token.closing

/-- How often the depth is at a level after one of the first tokens. -/
def visits (level : Int) (ts : List Token) (n : Nat) : Nat :=
  (List.range n).countP fun j => depth (ts.take (j + 1)) = level

/-- Reading one form after the other, for as long as tokens are left: the tokens of each form, the forms, and the fault of
what is not read as a form. -/
inductive ReadsAll : List Token → List (List Token) → List Value → Option ReadFault → Prop where
  | done : ReadsAll [] [] [] none
  | form {p rest : List Token} {v : Value} {segments : List (List Token)} {vs : List Value} {fault : Option ReadFault} :
    read (p ++ rest) = (.ok v, rest) → ReadsAll rest segments vs fault →
      ReadsAll (p ++ rest) (p :: segments) (v :: vs) fault
  | failed {t : Token} {ts rest : List Token} {fault : ReadFault} :
    read (t :: ts) = (.error fault, rest) → ReadsAll (t :: ts) [] [] (some fault)

theorem depth_append (ts us : List Token) : depth (ts ++ us) = depth ts + depth us := by
  rw [depth, depth, depth, List.count_append, List.count_append]
  omega

theorem depth_take_cons (t : Token) (ts : List Token) (i : Nat) :
    depth ((t :: ts).take (i + 1)) = depth [t] + depth (ts.take i) :=
  depth_append [t] (ts.take i)

theorem depth_atom {t : Token} (notOpening : t ≠ Token.opening) (notClosing : t ≠ Token.closing) : depth [t] = 0 := by
  rw [depth, List.count_singleton, List.count_singleton, beq_false_of_ne notOpening, beq_false_of_ne notClosing]
  rfl

theorem visits_cons (level : Int) (t : Token) (ts : List Token) (n : Nat) :
    visits level (t :: ts) (n + 1) = visits (level - depth [t]) ts n + if depth [t] = level then 1 else 0 := by
  have rest : ∀ j, (depth ((t :: ts).take (j + 1 + 1)) = level ↔ depth (ts.take (j + 1)) = level - depth [t]) := by
    intro j
    rw [depth_take_cons]
    omega
  have first : depth ((t :: ts).take (0 + 1)) = depth [t] := rfl
  rw [visits, List.range_succ_eq_map, List.countP_cons, List.countP_map, visits, first]
  simp only [Function.comp_def, Nat.succ_eq_add_one, rest, decide_eq_true_eq]

theorem nonneg_or_exists_first (ts : List Token) :
    (∀ i, 0 ≤ depth (ts.take i)) ∨
      ∃ i < ts.length, (∀ j ≤ i, 0 ≤ depth (ts.take j)) ∧ depth (ts.take (i + 1)) < 0 := by
  by_cases negative : ∃ i, depth (ts.take i) < 0
  · refine .inr ?_
    have first := Nat.find_spec negative
    have before : ∀ j < Nat.find negative, 0 ≤ depth (ts.take j) := fun j earlier =>
      Int.not_lt.1 (Nat.find_min negative earlier)
    cases found : Nat.find negative with
    | zero =>
      rw [found] at first
      exact (Int.lt_irrefl 0 first).elim
    | succ i =>
      rw [found] at first before
      refine ⟨i, ?_, fun j le => before j (Nat.lt_succ_of_le le), first⟩
      by_contra past
      rw [List.take_of_length_le (by omega), ← List.take_of_length_le (Nat.not_lt.1 past)] at first
      exact absurd (before i (Nat.lt_succ_self i)) (Int.not_le.2 first)
  · exact .inl fun i => Int.not_lt.1 fun below => negative ⟨i, below⟩

def Progress.level : Progress → Int
  | .reading lists => lists.length
  | .complete _ => 0
  | .stray => -1

theorem Progress.place_level (v : Value) (lists : OpenLists) : (place v lists).level = lists.length := by
  cases lists <;> rfl

theorem Progress.take_level (lists : OpenLists) (t : Token) : (take lists t).level = lists.length + depth [t] := by
  unfold take
  split
  · next isOpening =>
    rw [isOpening]
    rfl
  · next notOpening =>
    split
    · next isClosing =>
      rw [isClosing]
      cases lists with
      | nil => rfl
      | cons items outer =>
        have closes : depth [Token.closing] = -1 := by decide
        rw [place_level, closes, List.length_cons]
        omega
    · next notClosing => rw [place_level, depth_atom notOpening notClosing, Int.add_zero]

variable {lists : OpenLists} {t : Token} {ts : List Token}

theorem readAllWithin_of_neg (below : (lists.length : Int) + depth [t] < 0) (ts : List Token) :
    readAllWithin lists (t :: ts) = ([], some .strayClosing) := by
  rw [← Progress.take_level] at below
  rw [readAllWithin]
  cases progress : Progress.take lists t with
  | stray => rfl
  | reading inner =>
    rw [progress, Progress.level] at below
    omega
  | complete v =>
    rw [progress] at below
    cases below

/-- After the token, reading goes on with these open lists: as many as the depth says, and with a form complete if the
depth is zero. -/
structure Continues (lists : OpenLists) (t : Token) (ts : List Token) (inner : OpenLists) : Prop where
  depth : ∀ i, (inner.length : Int) + depth (ts.take i) = lists.length + depth ((t :: ts).take (i + 1))
  fault : (readAllWithin lists (t :: ts)).2 = (readAllWithin inner ts).2
  length : ∀ n, (readAllWithin inner ts).1.length = visits (-inner.length) ts n →
    (readAllWithin lists (t :: ts)).1.length = visits (-lists.length) (t :: ts) (n + 1)

theorem continues_of_length {inner : OpenLists} (level : (inner.length : Int) = lists.length + depth [t])
    (fault : (readAllWithin lists (t :: ts)).2 = (readAllWithin inner ts).2)
    (length : (readAllWithin lists (t :: ts)).1.length =
      (readAllWithin inner ts).1.length + if (inner.length : Int) = 0 then 1 else 0) :
    Continues lists t ts inner where
  depth i := by rw [level, depth_take_cons, Int.add_assoc]
  fault := fault
  length n read := by
    have back : -(inner.length : Int) = -lists.length - Form.depth [t] := by omega
    have zero : ((inner.length : Int) = 0 ↔ Form.depth [t] = -lists.length) := by omega
    rw [length, read, visits_cons, back]
    simp only [zero]

theorem exists_continues (above : 0 ≤ (lists.length : Int) + depth [t]) (ts : List Token) :
    ∃ inner, Continues lists t ts inner := by
  have level := Progress.take_level lists t
  cases progress : Progress.take lists t with
  | stray =>
    rw [← level, progress] at above
    exact absurd above (by decide)
  | reading inner =>
    rw [progress] at level
    have isOpen : inner ≠ [] := fun none => Progress.take_ne_reading_nil lists t (none ▸ progress)
    refine ⟨inner, continues_of_length level ?_ ?_⟩
    · rw [readAllWithin, progress]
    · rw [readAllWithin, progress, if_neg (by simpa using isOpen)]
      rfl
  | complete v =>
    rw [progress] at level
    refine ⟨[], continues_of_length level ?_ ?_⟩
    · rw [readAllWithin, progress]
    · rw [readAllWithin, progress]
      rfl

theorem readAllWithin_nonneg (nonneg : ∀ i, 0 ≤ (lists.length : Int) + depth (ts.take i)) :
    (readAllWithin lists ts).2 = (if (lists.length : Int) + depth ts = 0 then none else some .endOfInput) ∧
      (readAllWithin lists ts).1.length = visits (-lists.length) ts ts.length := by
  induction ts generalizing lists with
  | nil =>
    cases lists with
    | nil => exact ⟨rfl, rfl⟩
    | cons items outer =>
      have isOpen : ((items :: outer).length : Int) + depth [] ≠ 0 := by
        have empty : depth [] = 0 := rfl
        rw [empty, List.length_cons]
        omega
      rw [if_neg isOpen]
      exact ⟨rfl, rfl⟩
  | cons t ts ih =>
    obtain ⟨inner, continues⟩ := exists_continues (nonneg 1) ts
    obtain ⟨fault, length⟩ := @ih inner fun i => (continues.depth i).symm ▸ nonneg (i + 1)
    have whole := continues.depth ts.length
    rw [List.take_length, List.take_succ_cons, List.take_length] at whole
    exact ⟨by rw [continues.fault, fault, whole], continues.length ts.length length⟩

theorem readAllWithin_neg {i : Nat} (within : i < ts.length)
    (nonneg : ∀ j ≤ i, 0 ≤ (lists.length : Int) + depth (ts.take j))
    (below : (lists.length : Int) + depth (ts.take (i + 1)) < 0) :
    (readAllWithin lists ts).2 = some .strayClosing ∧
      (readAllWithin lists ts).1.length = visits (-lists.length) ts i := by
  induction ts generalizing lists i with
  | nil => cases within
  | cons t ts ih =>
    cases i with
    | zero =>
      rw [readAllWithin_of_neg below]
      exact ⟨rfl, rfl⟩
    | succ i =>
      obtain ⟨inner, continues⟩ := exists_continues (nonneg 1 (Nat.le_add_left 1 i)) ts
      obtain ⟨fault, length⟩ := @ih inner i (Nat.lt_of_succ_lt_succ within)
        (fun j le => (continues.depth j).symm ▸ nonneg (j + 1) (Nat.succ_le_succ le))
        ((continues.depth (i + 1)).symm ▸ below)
      exact ⟨continues.fault.trans fault, continues.length i length⟩

theorem readAll_nonneg (nonneg : ∀ i, 0 ≤ depth (ts.take i)) :
    (readAll ts).2 = (if depth ts = 0 then none else some .endOfInput) ∧
      (readAll ts).1.length = visits 0 ts ts.length := by
  have balance := @readAllWithin_nonneg [] ts fun i => by simpa using nonneg i
  rwa [List.length_nil, Int.natCast_zero, Int.zero_add] at balance

theorem readAll_neg {i : Nat} (within : i < ts.length) (nonneg : ∀ j ≤ i, 0 ≤ depth (ts.take j))
    (below : depth (ts.take (i + 1)) < 0) :
    (readAll ts).2 = some .strayClosing ∧ (readAll ts).1.length = visits 0 ts i :=
  @readAllWithin_neg [] ts i within (fun j le => by simpa using nonneg j le) (by simpa using below)

theorem readAll_complete_iff (ts : List Token) :
    (readAll ts).2 = none ↔ (∀ i, 0 ≤ depth (ts.take i)) ∧ depth ts = 0 := by
  constructor
  · intro complete
    rcases nonneg_or_exists_first ts with nonneg | ⟨i, within, nonneg, below⟩
    · refine ⟨nonneg, by_contra fun other => ?_⟩
      have reason := (readAll_nonneg nonneg).1
      rw [if_neg other, complete] at reason
      cases reason
    · have reason := (readAll_neg within nonneg below).1
      rw [complete] at reason
      cases reason
  · rintro ⟨nonneg, balanced⟩
    rw [(readAll_nonneg nonneg).1, if_pos balanced]

theorem ReadsAll.segments {ts : List Token} {segments : List (List Token)} {vs : List Value} {fault : Option ReadFault}
    (h : ReadsAll ts segments vs fault) :
    List.Forall₂ Denotes segments vs ∧ ∃ rest, ts = segments.flatten ++ rest ∧ (fault = none → rest = []) := by
  induction h with
  | done => exact ⟨.nil, [], rfl, fun _ => rfl⟩
  | @form p after v segments vs fault read _ ih =>
    obtain ⟨denotes, rest, split, all⟩ := ih
    obtain ⟨q, same, first⟩ := (read_ok_iff _ v after).1 read
    rw [← List.append_cancel_right same] at first
    refine ⟨.cons first denotes, rest, ?_, all⟩
    rw [List.flatten_cons, List.append_assoc, ← split]
  | failed => exact ⟨.nil, _, rfl, nofun⟩

theorem exists_readsAll (ts : List Token) : ∃ segments, ReadsAll ts segments (readAll ts).1 (readAll ts).2 := by
  induction shorter : ts.length using Nat.strongRecOn generalizing ts with
  | ind n ih =>
    cases ts with
    | nil => exact ⟨[], .done⟩
    | cons t us =>
      rcases found : read (t :: us) with ⟨fault | v, rest⟩
      · rw [readAll_of_fault found]
        exact ⟨[], .failed found⟩
      · -- A form takes at least one token, so the loop ends.
        have fewer : rest.length < n := shorter ▸ length_lt_of_read found
        obtain ⟨segments, reads⟩ := ih rest.length fewer rest rfl
        rw [readAll_of_read found]
        obtain ⟨p, split, _⟩ := (read_ok_iff _ v rest).1 found
        rw [split] at found ⊢
        exact ⟨p :: segments, .form found reads⟩

/-- All forms of a text are read if its parentheses are balanced, and only then; otherwise reading ends at the first
parenthesis that closes none, or at the end of the text with a list still open. Before that there is a form for every
token after which as many parentheses are closed as opened, and the forms have the tokens one after the other. -/
theorem allOfText_balance (text : String) :
    let ts := Token.ofText text
    let forms := (allOfText text).1
    let fault := (allOfText text).2
    (fault = none ↔ (∀ i, 0 ≤ depth (ts.take i)) ∧ depth ts = 0) ∧
      (fault = none → forms.length = visits 0 ts ts.length) ∧
      (∀ i < ts.length, (∀ j ≤ i, 0 ≤ depth (ts.take j)) → depth (ts.take (i + 1)) < 0 →
        fault.map ReadFault.message = some "unexpected closing parenthesis" ∧ forms.length = visits 0 ts i) ∧
      ((∀ i, 0 ≤ depth (ts.take i)) → 0 < depth ts →
        fault.map ReadFault.message = some "unexpected end of input" ∧ forms.length = visits 0 ts ts.length) ∧
      ∃ segments rest, ReadsAll ts segments forms fault ∧ ts = segments.flatten ++ rest ∧
        List.Forall₂ Denotes segments forms ∧ (fault = none → rest = []) := by
  intro ts forms fault
  have complete : fault = none ↔ (∀ i, 0 ≤ depth (ts.take i)) ∧ depth ts = 0 := readAll_complete_iff ts
  obtain ⟨segments, reads⟩ := exists_readsAll ts
  obtain ⟨denotes, rest, split, all⟩ := reads.segments
  refine ⟨complete, fun ended => (readAll_nonneg (complete.1 ended).1).2, ?_, ?_, segments, rest, reads, split,
    denotes, all⟩
  · intro i within above below
    have stray : fault = some .strayClosing ∧ forms.length = visits 0 ts i := readAll_neg within above below
    rw [stray.1]
    exact ⟨rfl, stray.2⟩
  · intro above isOpen
    obtain ⟨reason, length⟩ := readAll_nonneg above
    rw [if_neg (Int.ne_of_gt isOpen)] at reason
    have ended : fault = some .endOfInput := reason
    rw [ended]
    exact ⟨rfl, length⟩

theorem allOfText_balance_of_stray :
    let ts := Token.ofText "(a) b) (c)"
    depth (ts.take 5) < 0 ∧ (allOfText "(a) b) (c)").1.length = visits 0 ts 4 ∧ visits 0 ts 4 = 2 := by
  intro ts
  have tokens : Token.ofText "(a) b) (c)" = ["(", "a", ")", "b", ")", "(", "c", ")"] := rfl
  obtain ⟨_, _, negative, _⟩ := allOfText_balance "(a) b) (c)"
  dsimp only [ts]
  rw [tokens] at negative ⊢
  exact ⟨by decide, (negative 4 (by decide) (by decide) (by decide)).2, by decide⟩

end MicroScheme.Form
