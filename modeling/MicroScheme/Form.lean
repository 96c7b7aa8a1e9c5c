import MicroScheme.Atom

set_option autoImplicit false

/-!
Forms. A form is a token other than a parenthesis, or any number of forms between parentheses. Reading goes
through the tokens once, with the lists that are still open on a stack. Main statement: reading all forms is
reading the first one and then all forms of what is left (`readAll_cons`).
-/

namespace MicroScheme

inductive ReadFault where
  | endOfInput
  | strayClosing
deriving DecidableEq

def ReadFault.message : ReadFault → String
  | .endOfInput => "unexpected end of input"
  | .strayClosing => "unexpected closing parenthesis"

namespace Form

/-- The open lists, innermost first. Each holds the items it has so far, last one first. -/
abbrev OpenLists := List (List Value)

inductive Progress where
  | reading (lists : OpenLists)
  | complete (v : Value)
  | stray

def Progress.place (v : Value) : OpenLists → Progress
  | [] => .complete v
  | items :: outer => .reading ((v :: items) :: outer)

def Progress.take (lists : OpenLists) (t : Token) : Progress :=
  if t = Token.opening then .reading ([] :: lists)
  else if t = Token.closing then
    match lists with
    | [] => .stray
    | items :: outer => place (.list items.reverse) outer
  else place (Atom.ofToken t) lists

theorem Progress.place_ne_reading_nil (v : Value) (lists : OpenLists) : place v lists ≠ .reading [] := by
  cases lists <;> simp [place]

theorem Progress.take_ne_reading_nil (lists : OpenLists) (t : Token) : take lists t ≠ .reading [] := by
  unfold take
  split
  · simp
  · split
    · cases lists with
      | nil => simp
      | cons items outer => exact place_ne_reading_nil _ _
    · exact place_ne_reading_nil _ _

/-- Reads on until a form is complete that is in no open list. The second part of the result is what is left
of the tokens. -/
def readWithin : OpenLists → List Token → Except ReadFault Value × List Token
  | _, [] => (.error .endOfInput, [])
  | lists, t :: ts =>
    match Progress.take lists t with
    | .reading lists => readWithin lists ts
    | .complete v => (.ok v, ts)
    | .stray => (.error .strayClosing, ts)

/-- Reads the first form of a list of tokens, and gives what is left of the tokens. A failure keeps what it
has consumed. -/
def read (ts : List Token) : Except ReadFault Value × List Token := readWithin [] ts

def readTimes : Nat → List Token → List (Except ReadFault Value × List Token)
  | 0, _ => []
  | n + 1, ts =>
    let result := read ts
    result :: readTimes n result.2

/-- Reads on to the end. If a form cannot be read, the forms before it come with the reason. -/
def readAllWithin : OpenLists → List Token → List Value × Option ReadFault
  | [], [] => ([], none)
  | _ :: _, [] => ([], some .endOfInput)
  | lists, t :: ts =>
    match Progress.take lists t with
    | .reading lists => readAllWithin lists ts
    | .complete v =>
      let (vs, fault) := readAllWithin [] ts
      (v :: vs, fault)
    | .stray => ([], some .strayClosing)

def readAll (ts : List Token) : List Value × Option ReadFault := readAllWithin [] ts

def prepend : Except ReadFault Value × List Token → List Value × Option ReadFault
  | (.ok v, rest) =>
    let (vs, fault) := readAll rest
    (v :: vs, fault)
  | (.error fault, _) => ([], some fault)

theorem readAllWithin_eq (ts : List Token) (lists : OpenLists) (h : lists ≠ [] ∨ ts ≠ []) :
    readAllWithin lists ts = prepend (readWithin lists ts) := by
  induction ts generalizing lists with
  | nil =>
    cases lists with
    | nil => simp at h
    | cons _ _ => rfl
  | cons t ts ih =>
    simp only [readAllWithin, readWithin]
    cases hp : Progress.take lists t with
    | reading inner => exact ih inner (.inl fun h => Progress.take_ne_reading_nil lists t (h ▸ hp))
    | complete v => rfl
    | stray => rfl

theorem readAll_cons (t : Token) (ts : List Token) : readAll (t :: ts) = prepend (read (t :: ts)) :=
  readAllWithin_eq (t :: ts) [] (.inr (List.cons_ne_nil t ts))

def ofText (text : String) : Except ReadFault Value := (read (Token.ofText text)).1

/-- All forms of a text, and why reading ended early if it did. -/
def allOfText (text : String) : List Value × Option ReadFault := readAll (Token.ofText text)

end Form

end MicroScheme
