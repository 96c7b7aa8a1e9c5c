import MicroScheme.Value.Basic

set_option autoImplicit false

namespace MicroScheme

inductive Keyword where
  | quote
  | conditional
  | cond
  | assign
  | define
  | lambda
  | begin
  | letIn
  | and
  | or
deriving DecidableEq

namespace Keyword

def all : List Keyword :=
  [.quote, .conditional, .cond, .assign, .define, .lambda, .begin, .letIn, .and, .or]

def name : Keyword → String
  | .quote => "quote"
  | .conditional => "if"
  | .cond => "cond"
  | .assign => "set!"
  | .define => "define"
  | .lambda => "lambda"
  | .begin => "begin"
  | .letIn => "let"
  | .and => "and"
  | .or => "or"

def ofSymbol? (s : Symbol) : Option Keyword := all.find? fun k => k.name = s.name

theorem ofSymbol?_name (k : Keyword) : ofSymbol? ⟨k.name⟩ = some k := by
  cases k <;> decide

end Keyword

end MicroScheme
