import MicroScheme.Setting

set_option autoImplicit false

namespace MicroScheme

/-- A path: the number of slashes it starts with, which is at most two, and its components. -/
structure Path where
  slashes : Nat
  components : List String
deriving DecidableEq, Inhabited

namespace Path

/-- How many leading slashes count: exactly two are kept, and more are as good as one. -/
def rootSlashes (text : List Char) : Nat :=
  match (text.takeWhile (· = '/')).length with
  | 0 => 0
  | 2 => 2
  | _ => 1

def splitAtSlashes (part : List Char) : List Char → List (List Char)
  | [] => [part.reverse]
  | c :: cs => if c = '/' then part.reverse :: splitAtSlashes [] cs else splitAtSlashes (c :: part) cs

def ofText (text : String) : Path where
  slashes := rootSlashes text.toList
  components := ((splitAtSlashes [] text.toList).map String.ofList).filter fun c => c ≠ "" && c ≠ "."

def toText (p : Path) : String :=
  if p.slashes = 0 && p.components.isEmpty then "."
  else String.ofList (List.replicate p.slashes '/') ++ "/".intercalate p.components

def parent (p : Path) : Path := { p with components := p.components.dropLast }

def ofSetting (raw : Option String) (default : String) : Path :=
  ofText ((Setting.content? raw).getD default)

end Path

end MicroScheme
