import Mathlib.Data.List.Forall2
import MicroScheme.Form

set_option autoImplicit false

/-!
The grammar of forms. Main statement: reading gives a value exactly if the tokens begin with a form that denotes it, and
takes the tokens of that form, which no other beginning of the tokens is; all else is a closing parenthesis at the front
or runs out of tokens (`read_grammar`).
-/

namespace MicroScheme

theorem ReadFault.message_injective : Function.Injective ReadFault.message := by
  intro fault other same
  cases fault <;> cases other
  · rfl
  · exact absurd same (by decide)
  · exact absurd same (by decide)
  · rfl

namespace Form

/-- The tokens are one form, and what it denotes. -/
inductive Denotes : List Token → Value → Prop where
  | atom {t : Token} : t ≠ Token.opening → t ≠ Token.closing → Denotes [t] (Atom.ofToken t)
  | list {tss : List (List Token)} {vs : List Value} : List.Forall₂ Denotes tss vs →
    Denotes (Token.opening :: (tss.flatten ++ [Token.closing])) (.list vs)

def resume : Progress → List Token → Except ReadFault Value × List Token
  | .reading lists, ts => readWithin lists ts
  | .complete v, ts => (.ok v, ts)
  | .stray, ts => (.error .strayClosing, ts)

theorem readWithin_cons (lists : OpenLists) (t : Token) (ts : List Token) :
    readWithin lists (t :: ts) = resume (Progress.take lists t) ts := by
  rw [readWithin]
  cases Progress.take lists t <;> rfl

/-- Wherever the tokens stand, they are read as the value. -/
def Reads (ts : List Token) (v : Value) : Prop :=
  ∀ lists rest, readWithin lists (ts ++ rest) = resume (Progress.place v lists) rest

theorem reads_atom {t : Token} (notOpening : t ≠ Token.opening) (notClosing : t ≠ Token.closing) :
    Reads [t] (Atom.ofToken t) := by
  intro lists rest
  rw [List.singleton_append, readWithin_cons, Progress.take.eq_def, if_neg notOpening, if_neg notClosing]

theorem readWithin_items {tss : List (List Token)} {vs : List Value} (h : List.Forall₂ Reads tss vs)
    (items : List Value) (lists : OpenLists) (rest : List Token) :
    readWithin (items :: lists) (tss.flatten ++ Token.closing :: rest) =
      resume (Progress.place (.list (items.reverse ++ vs)) lists) rest := by
  induction h generalizing items with
  | nil =>
    rw [List.flatten_nil, List.nil_append, List.append_nil, readWithin_cons, Progress.take.eq_def, if_neg (by decide),
      if_pos rfl]
  | @cons ts v tss vs hv _ ih =>
    rw [List.flatten_cons, List.append_assoc, hv]
    change readWithin ((v :: items) :: lists) _ = _
    rw [ih, List.reverse_cons, List.append_assoc]
    rfl

theorem reads_list {tss : List (List Token)} {vs : List Value} (h : List.Forall₂ Reads tss vs) :
    Reads (Token.opening :: (tss.flatten ++ [Token.closing])) (.list vs) := by
  intro lists rest
  rw [List.cons_append, List.append_assoc, readWithin_cons, Progress.take.eq_def, if_pos rfl]
  exact readWithin_items h [] lists rest

theorem Reads.read_append {ts : List Token} {v : Value} (h : Reads ts v) (rest : List Token) :
    Form.read (ts ++ rest) = (.ok v, rest) :=
  h [] rest

theorem Reads.read {ts : List Token} {v : Value} (h : Reads ts v) : Form.read ts = (.ok v, []) := by
  have whole := h.read_append []
  rw [List.append_nil] at whole
  exact whole

theorem Reads.readAll {ts : List Token} {v : Value} (h : Reads ts v) : Form.readAll ts = ([v], none) := by
  cases ts with
  | nil => cases h.read
  | cons t ts =>
    rw [readAll_cons, h.read]
    rfl

theorem Denotes.reads {ts : List Token} {v : Value} (h : Denotes ts v) : Reads ts v :=
  Denotes.rec (motive_1 := fun ts v _ => Reads ts v) (motive_2 := fun tss vs _ => List.Forall₂ Reads tss vs)
    reads_atom (fun _ => reads_list) .nil (fun _ _ => .cons) h

/-- Two forms at the beginning of the same tokens are the same form. -/
theorem Denotes.unique {ts p q : List Token} {v w : Value} (hp : p <+: ts) (hq : q <+: ts) (hv : Denotes p v)
    (hw : Denotes q w) : p = q ∧ v = w := by
  obtain ⟨rest, rfl⟩ := hp
  obtain ⟨rest', same⟩ := hq
  have read := hw.reads.read_append rest'
  rw [same, hv.reads.read_append rest, Prod.mk.injEq, Except.ok.injEq] at read
  rw [read.2] at same
  exact ⟨(List.append_cancel_right same).symm, read.1⟩

inductive Opens : List Token → OpenLists → Prop where
  | nothing : Opens [] []
  | list {ts : List Token} {lists : OpenLists} {tss : List (List Token)} {items : List Value} : Opens ts lists →
    List.Forall₂ Denotes tss items.reverse → Opens (ts ++ Token.opening :: tss.flatten) (items :: lists)

def Progress.After (ts : List Token) : Progress → Prop
  | .reading lists => Opens ts lists
  | .complete v => Denotes ts v
  | .stray => ts = [Token.closing]

theorem Opens.place {ts us : List Token} {lists : OpenLists} {v : Value} (opens : Opens ts lists)
    (hv : Denotes us v) : (Progress.place v lists).After (ts ++ us) := by
  cases opens with
  | nothing => exact hv
  | @list ts lists tss items outer each =>
    have more : List.Forall₂ Denotes (tss ++ [us]) (v :: items).reverse := by
      rw [List.reverse_cons]
      exact List.rel_append each (.cons hv .nil)
    have reads := Opens.list outer more
    rw [List.flatten_append, List.flatten_singleton, ← List.cons_append, ← List.append_assoc] at reads
    exact reads

theorem Opens.take {ts : List Token} {lists : OpenLists} (opens : Opens ts lists) (t : Token) :
    (Progress.take lists t).After (ts ++ [t]) := by
  unfold Progress.take
  split
  · next isOpening =>
    rw [isOpening]
    exact @Opens.list ts lists [] [] opens .nil
  · next notOpening =>
    split
    · next isClosing =>
      rw [isClosing]
      cases opens with
      | nothing => rfl
      | list outer each =>
        rw [List.append_assoc, List.cons_append]
        exact outer.place (.list each)
    · next notClosing => exact opens.place (.atom notOpening notClosing)

def Settles (before ts : List Token) : Except ReadFault Value × List Token → Prop
  | (.ok v, rest) => ∃ p, ts = p ++ rest ∧ Denotes (before ++ p) v
  | (.error .strayClosing, rest) => before ++ ts = Token.closing :: rest
  | (.error .endOfInput, rest) => rest = []

theorem Settles.cons {before ts : List Token} {t : Token} {result : Except ReadFault Value × List Token}
    (settles : Settles (before ++ [t]) ts result) : Settles before (t :: ts) result := by
  rcases result with ⟨fault | v, rest⟩
  · cases fault with
    | endOfInput => exact settles
    | strayClosing => exact (List.append_cons before t ts).trans settles
  · obtain ⟨p, split, denotes⟩ := settles
    exact ⟨t :: p, congrArg (t :: ·) split, (List.append_cons before t p) ▸ denotes⟩

theorem Opens.readWithin {before : List Token} {lists : OpenLists} (opens : Opens before lists) (ts : List Token) :
    Settles before ts (Form.readWithin lists ts) := by
  induction ts generalizing before lists with
  | nil => rfl
  | cons t ts ih =>
    have after := opens.take t
    rw [Form.readWithin]
    cases progress : Progress.take lists t with
    | reading inner =>
      rw [progress] at after
      exact (ih after).cons
    | complete v =>
      rw [progress] at after
      exact ⟨[t], rfl, after⟩
    | stray =>
      rw [progress] at after
      exact (List.append_cons before t ts).trans (congrArg (· ++ ts) after)

theorem read_settles (ts : List Token) : Settles [] ts (read ts) := Opens.nothing.readWithin ts

theorem read_ok_iff (ts : List Token) (v : Value) (rest : List Token) :
    read ts = (.ok v, rest) ↔ ∃ p, ts = p ++ rest ∧ Denotes p v := by
  constructor
  · intro read
    have settles := read_settles ts
    rw [read] at settles
    exact settles
  · rintro ⟨p, rfl, denotes⟩
    exact denotes.reads.read_append rest

theorem read_strayClosing_iff (ts rest : List Token) :
    read ts = (.error .strayClosing, rest) ↔ ts = Token.closing :: rest := by
  constructor
  · intro read
    have settles := read_settles ts
    rw [read] at settles
    exact settles
  · rintro rfl
    rfl

theorem read_endOfInput_iff (ts rest : List Token) :
    read ts = (.error .endOfInput, rest) ↔
      rest = [] ∧ (ts = [] ∨ (∃ us, ts = Token.opening :: us) ∧ ∀ p v, p <+: ts → ¬ Denotes p v) := by
  constructor
  · intro read
    have settles := read_settles ts
    rw [read] at settles
    refine ⟨settles, ?_⟩
    have noForm : ∀ p v, p <+: ts → ¬ Denotes p v := by
      rintro p v ⟨us, rfl⟩ denotes
      rw [denotes.reads.read_append] at read
      cases read
    cases ts with
    | nil => exact .inl rfl
    | cons t us =>
      refine .inr ⟨⟨us, ?_⟩, noForm⟩
      by_contra other
      have notOpening : t ≠ Token.opening := fun same => other (same ▸ rfl)
      have notClosing : t ≠ Token.closing := by
        rintro rfl
        cases read
      exact noForm [t] _ ⟨us, rfl⟩ (.atom notOpening notClosing)
  · rintro ⟨rfl, empty | ⟨⟨us, begins⟩, noForm⟩⟩
    · rw [empty]
      rfl
    · have settles := read_settles ts
      rcases result : read ts with ⟨fault | v, rest⟩
      · rw [result] at settles
        cases fault with
        | endOfInput => rw [show rest = [] from settles]
        | strayClosing =>
          rw [begins] at settles
          exact absurd (List.cons.inj settles).1 (by decide)
      · rw [result] at settles
        obtain ⟨p, split, denotes⟩ := settles
        exact absurd denotes (noForm p v ⟨rest, split.symm⟩)

theorem Denotes.ne_nil {ts : List Token} {v : Value} (h : Denotes ts v) : ts ≠ [] := by
  cases h <;> exact List.cons_ne_nil _ _

theorem length_lt_of_read {ts rest : List Token} {v : Value} (h : read ts = (.ok v, rest)) :
    rest.length < ts.length := by
  obtain ⟨p, rfl, denotes⟩ := (read_ok_iff ts v rest).1 h
  rw [List.length_append]
  have := List.length_pos_iff.2 denotes.ne_nil
  omega

theorem read_append {ts rest : List Token} {result : Except ReadFault Value} (h : read ts = (result, rest))
    (ended : result ≠ .error .endOfInput) (us : List Token) : read (ts ++ us) = (result, rest ++ us) := by
  cases result with
  | ok v =>
    obtain ⟨p, rfl, denotes⟩ := (read_ok_iff ts v rest).1 h
    rw [List.append_assoc]
    exact denotes.reads.read_append _
  | error fault =>
    cases fault with
    | endOfInput => exact absurd rfl ended
    | strayClosing =>
      rw [read_strayClosing_iff] at h ⊢
      rw [h]
      rfl

theorem readAll_of_read {ts rest : List Token} {v : Value} (h : read ts = (.ok v, rest)) :
    readAll ts = (v :: (readAll rest).1, (readAll rest).2) := by
  cases ts with
  | nil => cases h
  | cons t ts =>
    rw [readAll_cons, h]
    rfl

theorem readAll_of_fault {t : Token} {ts rest : List Token} {fault : ReadFault}
    (h : read (t :: ts) = (.error fault, rest)) : readAll (t :: ts) = ([], some fault) := by
  rw [readAll_cons, h]
  rfl

/-- Reading takes the one form with which the tokens begin. Without one, it fails at a closing parenthesis, which it
takes, or at the end of all tokens. -/
theorem read_grammar (ts : List Token) :
    (∀ v rest, read ts = (.ok v, rest) ↔ ∃ p, ts = p ++ rest ∧ Denotes p v) ∧
      (∀ p q v w, p <+: ts → q <+: ts → Denotes p v → Denotes q w → p = q ∧ v = w) ∧
      (∀ rest, (∃ fault, read ts = (.error fault, rest) ∧ fault.message = "unexpected closing parenthesis") ↔
        ts = ")" :: rest) ∧
      ∀ rest, (∃ fault, read ts = (.error fault, rest) ∧ fault.message = "unexpected end of input") ↔
        rest = [] ∧ (ts = [] ∨ (∃ us, ts = "(" :: us) ∧ ∀ p v, p <+: ts → ¬ Denotes p v) := by
  have byMessage : ∀ (fault : ReadFault) (rest : List Token),
      (∃ other, read ts = (.error other, rest) ∧ other.message = fault.message) ↔ read ts = (.error fault, rest) := by
    refine fun fault rest => ⟨?_, fun read => ⟨fault, read, rfl⟩⟩
    rintro ⟨other, read, same⟩
    rwa [ReadFault.message_injective same] at read
  exact ⟨read_ok_iff ts, fun _ _ _ _ => Denotes.unique,
    fun rest => (byMessage .strayClosing rest).trans (read_strayClosing_iff ts rest),
    fun rest => (byMessage .endOfInput rest).trans (read_endOfInput_iff ts rest)⟩

end Form

end MicroScheme
