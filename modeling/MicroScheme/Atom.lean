import MicroScheme.Numeral
import MicroScheme.Token
import MicroScheme.Value.Basic

set_option autoImplicit false

namespace MicroScheme.Atom

/-- The integer of a token, if reading the token as a double gives the same number. -/
def integer? (token : List Char) : Option Int := do
  let n ← Numeral.integer? token
  let x ← Numeral.double? token
  if Number.equal (.float x) (.int n) then some n else none

/-- The double of a token that holds a digit; the words for infinity and for no number do not. -/
def double? (token : List Char) : Option Binary64 :=
  if token.any Text.isDigit then Numeral.double? token else none

def boolean? (token : List Char) : Option Bool :=
  if token.map Char.toLower = ['#', 't'] then some true
  else if token.map Char.toLower = ['#', 'f'] then some false
  else none

def quotation? : List Char → Option (List Char)
  | '"' :: cs => if cs.getLast? = some '"' then some cs.dropLast else none
  | _ => none

def ofChars (token : List Char) : Value :=
  match integer? token with
  | some n => .int n
  | none =>
    match double? token with
    | some x => .float x
    | none =>
      match boolean? token with
      | some b => .bool b
      | none =>
        match quotation? token with
        | some cs => .text (String.ofList cs)
        | none => .named (String.ofList token)

def ofToken (token : Token) : Value := ofChars token.toList

end MicroScheme.Atom
