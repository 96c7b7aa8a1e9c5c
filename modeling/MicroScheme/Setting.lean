import MicroScheme.Text.Blank

set_option autoImplicit false

namespace MicroScheme.Setting

def content? (raw : Option String) : Option String := do
  let text := Text.strip (← raw)
  if text.isEmpty then none else some text

def falseWords : List String := ["0", "false", "no", "off"]

/-- A setting read as a flag: false for the spellings of false in any case, true for all other texts. -/
def flag (raw : Option String) (default : Bool) : Bool :=
  match content? raw with
  | none => default
  | some text => !falseWords.contains text.toLower

def strictArity (raw : Option String) : Bool := flag raw true

end MicroScheme.Setting
