import MicroScheme.Text.Blank
import MicroScheme.Text.Digit
import MicroScheme.Binary64.Decimal

set_option autoImplicit false

/-!
Numerals: how integers and doubles are written in source text. Digits may be of any decimal script, a
single underscore may stand between two digits, and margin characters may surround the whole.
-/

namespace MicroScheme.Numeral

open Text
open scoped Binary64

/-- Integers of more digits are neither read nor written. -/
def digitLimit : Nat := 4300

def ofDigits (ds : List Nat) : Nat :=
  ds.foldl (fun n d => 10 * n + d) 0

def moreDigits? : List Char → Option (List Nat)
  | [] => some []
  | '_' :: c :: cs => do
    let d ← digitValue? c
    let ds ← moreDigits? cs
    some (d :: ds)
  | c :: cs => do
    let d ← digitValue? c
    let ds ← moreDigits? cs
    some (d :: ds)

/-- One or more digits, with single underscores only between them. -/
def digits? : List Char → Option (List Nat)
  | [] => none
  | c :: cs => do
    let d ← digitValue? c
    let ds ← moreDigits? cs
    some (d :: ds)

def splitSign : List Char → Bool × List Char
  | '-' :: cs => (true, cs)
  | '+' :: cs => (false, cs)
  | cs => (false, cs)

/-- The integer that a token writes: an optional sign and at most 4300 digits. -/
def integer? (token : List Char) : Option Int := do
  let (negative, cs) := splitSign (trim isMargin token)
  let ds ← digits? cs
  if digitLimit < ds.length then none
  else some (if negative then -(ofDigits ds : Int) else ofDigits ds)

def isRunChar (c : Char) : Bool := (digitValue? c).isSome || c == '_'

def run? : List Char → Option (List Nat)
  | [] => some []
  | c :: cs => digits? (c :: cs)

/-- The exponent after a mantissa: nothing, or the letter e, an optional sign and digits. -/
def exponent? : List Char → Option Int
  | [] => some 0
  | c :: cs =>
    if c = 'e' || c = 'E' then do
      let (negative, rest) := splitSign cs
      let ds ← digits? rest
      some (if negative then -(ofDigits ds : Int) else ofDigits ds)
    else none

def splitFraction : List Char → List Char × List Char
  | '.' :: cs => (cs.takeWhile isRunChar, cs.dropWhile isRunChar)
  | cs => ([], cs)

/-- A decimal without sign: digits with or without a point, at least one of them, and an exponent. -/
def decimal? (cs : List Char) : Option Decimal := do
  let (fraction, rest) := splitFraction (cs.dropWhile isRunChar)
  let ds ← run? (cs.takeWhile isRunChar)
  let fs ← run? fraction
  if ds.isEmpty && fs.isEmpty then none
  else
    let exponent ← exponent? rest
    some ⟨ofDigits (ds ++ fs), exponent - fs.length⟩

def word? (negative : Bool) (cs : List Char) : Option Binary64 :=
  let name := String.ofList (cs.map Char.toLower)
  if name = "inf" || name = "infinity" then some (.infinite negative)
  else if name = "nan" then some .nan
  else none

def double? (token : List Char) : Option Binary64 :=
  let (negative, cs) := splitSign (trim isMargin token)
  match word? negative cs with
  | some x => some x
  | none => (decimal? cs).map (Binary64.ofDecimal negative)

def integerDigits (n : Int) : List Char :=
  if n < 0 then '-' :: Nat.toDigits 10 n.natAbs else Nat.toDigits 10 n.natAbs

def textBound : Nat := 10 ^ digitLimit

def isWritable (n : Int) : Bool := n.natAbs < textBound

def integerText? (n : Int) : Option String :=
  if isWritable n then some (String.ofList (integerDigits n)) else none

end MicroScheme.Numeral
