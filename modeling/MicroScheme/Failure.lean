import MicroScheme.Form
import MicroScheme.Value.Printer

set_option autoImplicit false

namespace MicroScheme

inductive FormFault where
  | quoteCount
  | conditionalCount
  | condClause (got : String)
  | elseNotLast
  | assignCount
  | assignTarget (got : String)
  | defineCount
  | defineTarget (got : String)
  | lambdaCount
  | lambdaParameters (got : String)
  | letBindings
  | letBinding (got : String)
deriving DecidableEq

def FormFault.message : FormFault → String
  | .quoteCount => "quote expects exactly 1 argument"
  | .conditionalCount => "if requires a test, a consequent and an alternative"
  | .condClause got => "cond clause must be (test expr...), got " ++ got
  | .elseNotLast => "else is only allowed in the last cond clause"
  | .assignCount => "set! requires exactly 2 arguments: (set! var value)"
  | .assignTarget got => "set! first argument must be a symbol, got " ++ got
  | .defineCount => "define requires exactly 2 arguments"
  | .defineTarget got => "Cannot define " ++ got ++ " as a symbol"
  | .lambdaCount => "lambda requires a parameter list and a body"
  | .lambdaParameters got => "lambda parameters must be a list of symbols, got " ++ got
  | .letBindings => "let requires a binding list"
  | .letBinding got => "let binding must be (name expr), got " ++ got

inductive KindFault where
  | notNumbers (p : Primitive)
  | notList (p : Primitive) (got : String)
  | notProcedure (got : String)
deriving DecidableEq

def Primitive.listNeeded : Primitive → String
  | .car => "car expects a non-empty list"
  | .cdr => "cdr expects a non-empty list"
  | .cons => "cons expects a list as its second argument"
  | p => p.operator ++ " expects a list"

def KindFault.message : KindFault → String
  | .notNumbers p => "All arguments to " ++ p.operator ++ " must be numbers"
  | .notList p got => p.listNeeded ++ ", got " ++ got
  | .notProcedure got => "Cannot apply non-procedure " ++ got

inductive CountFault where
  | none (p : Primitive)
  | notExactly (p : Primitive) (count : Nat)
  | closure (formals : List Symbol) (got : Nat)
deriving DecidableEq

def CountFault.message : CountFault → String
  | .none p => p.operator ++ " requires at least 1 argument"
  | .notExactly p count => p.operator ++ " requires exactly " ++ toString count ++ " argument(s)"
  | .closure formals got =>
    Value.describeClosure formals ++ " expects " ++ toString formals.length ++ " argument(s), got " ++
      toString got

/-- A class of errors of the host, and the classes from which it is derived. -/
structure ErrorClass where
  name : String
  bases : List String
deriving DecidableEq

namespace ErrorClass

/-- The classes whose errors are faults of the native procedure that raises them. -/
def faults : List String := ["TypeError", "ValueError", "AttributeError", "ArithmeticError", "LookupError"]

def isFault (c : ErrorClass) : Bool := (c.name :: c.bases).any fun name => faults.contains name

def value : ErrorClass := ⟨"ValueError", []⟩

def overflow : ErrorClass := ⟨"OverflowError", ["ArithmeticError"]⟩

def zeroDivision : ErrorClass := ⟨"ZeroDivisionError", ["ArithmeticError"]⟩

def key : ErrorClass := ⟨"KeyError", ["LookupError"]⟩

end ErrorClass

inductive Failure where
  | unreadable (fault : ReadFault)
  | malformed (fault : FormFault)
  | unbound (name : String)
  | wrongKind (fault : KindFault)
  | wrongCount (fault : CountFault)
  | hostFault (label message : String)
  /-- A native procedure raised an error that is none of the faults, passed on as it is. -/
  | foreign (kind : ErrorClass) (message : String)
  | digitLimit
  | tooDeep
deriving DecidableEq

def digitLimitMessage : String :=
  "Exceeds the limit (4300 digits) for integer string conversion; " ++
    "use sys.set_int_max_str_digits() to increase the limit"

def Failure.message? : Failure → Option String
  | .unreadable fault => some fault.message
  | .malformed fault => some fault.message
  | .unbound name => some ("Unbound variable " ++ name)
  | .wrongKind fault => some fault.message
  | .wrongCount fault => some fault.message
  | .hostFault label message => some (label ++ ": " ++ message)
  | .foreign _ message => some message
  | .digitLimit => some digitLimitMessage
  | .tooDeep => none

end MicroScheme
