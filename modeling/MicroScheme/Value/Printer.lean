import MicroScheme.Text.Quoted
import MicroScheme.Numeral
import MicroScheme.Value.Basic

set_option autoImplicit false

namespace MicroScheme

def Number.digits? : Number → Option String
  | .int n => Numeral.integerText? n
  | .float x => some x.toText

namespace Value

def unspecifiedText : String := "#<unspecified>"

mutual

def print? (readable : Bool) : Value → Option String
  | .number n => n.digits?
  | .bool b => some (if b then "#t" else "#f")
  | .text s => some (if readable then "\"" ++ s ++ "\"" else s)
  | .symbol s => some s.name
  | .list items => (printAll? readable items).map fun parts => "(" ++ " ".intercalate parts ++ ")"
  | .unspecified => some unspecifiedText
  | .closure .. => some "#<procedure>"
  | .native _ => some "#<procedure>"

def printAll? (readable : Bool) : List Value → Option (List String)
  | [] => some []
  | v :: vs => do
    let text ← print? readable v
    let texts ← printAll? readable vs
    some (text :: texts)

end

def describeClosure (formals : List Symbol) : String :=
  "<Lambda (" ++ " ".intercalate (formals.map Symbol.name) ++ ")>"

mutual

def describe? : Value → Option String
  | .number n => n.digits?
  | .bool b => some (if b then "True" else "False")
  | .text s => some ("StringLiteral(" ++ Text.quoted s ++ ")")
  | .symbol s => some ("Symbol(" ++ Text.quoted s.name ++ ")")
  | .list items => (describeAll? items).map fun parts => "[" ++ ", ".intercalate parts ++ "]"
  | .unspecified => some unspecifiedText
  | .closure _ formals _ _ => some (describeClosure formals)
  | .native procedure => some ("<function " ++ procedure.label ++ ">")

def describeAll? : List Value → Option (List String)
  | [] => some []
  | v :: vs => do
    let text ← describe? v
    let texts ← describeAll? vs
    some (text :: texts)

end

/-- What a value is called when it stands where a name should: a text or symbol by itself, all else as
described. -/
def nameText? : Value → Option String
  | .text s => some s
  | .symbol s => some s.name
  | v => describe? v

mutual

def isWritable : Value → Bool
  | .number (.int n) => Numeral.isWritable n
  | .list items => allWritable items
  | .closure _ _ body _ => isWritable body
  | _ => true

def allWritable : List Value → Bool
  | [] => true
  | v :: vs => isWritable v && allWritable vs

end

end Value

end MicroScheme
