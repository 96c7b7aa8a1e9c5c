import MicroScheme.Text.Blank

set_option autoImplicit false

namespace MicroScheme

abbrev Token := String

namespace Token

def opening : Token := "("

def closing : Token := ")"

def isParenthesis (c : Char) : Bool := c = '(' || c = ')'

def padParentheses (cs : List Char) : List Char :=
  cs.flatMap fun c => if isParenthesis c then [' ', c, ' '] else [c]

/-- Replaces every comment by a space. A comment runs from a semicolon up to, not including, a newline;
`inside` says that one is being skipped. -/
def blankComments : (inside : Bool) → List Char → List Char
  | _, [] => []
  | true, c :: cs => if c = '\n' then c :: blankComments false cs else blankComments true cs
  | false, c :: cs => if c = ';' then ' ' :: blankComments true cs else c :: blankComments false cs

def finish (word : List Char) : List (List Char) :=
  if word.isEmpty then [] else [word.reverse]

def words (word : List Char) : List Char → List (List Char)
  | [] => finish word
  | c :: cs => if Text.isBlank c then finish word ++ words [] cs else words (c :: word) cs

def ofText (text : String) : List Token :=
  (words [] (blankComments false (padParentheses text.toList))).map String.ofList

def ofText? (text : String) : Option (List Token) :=
  match ofText text with
  | [] => none
  | t :: ts => some (t :: ts)

end Token

end MicroScheme
