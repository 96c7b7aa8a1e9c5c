import MicroScheme.Store
import MicroScheme.Failure
import MicroScheme.Value.Equality

set_option autoImplicit false

namespace MicroScheme

structure HostError where
  kind : ErrorClass
  message : String
deriving DecidableEq

def HostError.missingKey (key : String) : HostError := ⟨.key, Text.quoted key⟩

inductive Signal where
  | wrongKind (fault : KindFault)
  | wrongCount (fault : CountFault)
  | host (error : HostError)
deriving DecidableEq

/-- The failure that a signal becomes. The label of the procedure comes before the message of a fault. -/
def Signal.failure (label : String) : Signal → Failure
  | .wrongKind fault => .wrongKind fault
  | .wrongCount fault => .wrongCount fault
  | .host error => if error.kind.isFault then .hostFault label error.message else .foreign error.kind error.message

/-- A procedure of the host. It is called from a scope with arguments, and may read and change the store. -/
abbrev HostProcedure := ScopeId → List Value → Store → Except HostError Value × Store

namespace HostProcedure

def raising (error : HostError) : HostProcedure := fun _ _ s => (.error error, s)

def constant (v : Value) : HostProcedure := fun _ _ s => (.ok v, s)

def callerNames : HostProcedure := fun e _ s => (.ok (.list ((s.frame e).bindings.names.map .symbol)), s)

def arguments : HostProcedure := fun _ args s => (.ok (.list args), s)

end HostProcedure

def ArithmeticFault.kind : ArithmeticFault → ErrorClass
  | .integerTooLarge => .overflow
  | .integerDivisionByZero => .zeroDivision
  | .floatDivisionByZero => .zeroDivision
  | .quotientTooLarge => .overflow

namespace Primitive

def ofArithmetic : Except ArithmeticFault Number → Except Signal Number
  | .ok n => .ok n
  | .error fault => .error (.host ⟨fault.kind, fault.message⟩)

def shown (v : Value) : Except Signal String :=
  match v.describe? with
  | some text => .ok text
  | none => .error (.host ⟨.value, digitLimitMessage⟩)

def numberArgument (p : Primitive) (v : Value) : Except Signal Number :=
  match v.number? with
  | some n => .ok n
  | none => .error (.wrongKind (.notNumbers p))

def numbers (p : Primitive) : List Value → Except Signal (List Number)
  | [] => .ok []
  | v :: vs => do
    let n ← numberArgument p v
    let ns ← numbers p vs
    return n :: ns

def accumulate (op : Number → Number → Except ArithmeticFault Number) :
    Number → List Number → Except ArithmeticFault Number
  | a, [] => .ok a
  | a, b :: bs => do
    let c ← op a b
    accumulate op c bs

def chained {α : Type} (r : α → α → Bool) : List α → Bool
  | a :: b :: rest => r a b && chained r (b :: rest)
  | _ => true

/-- What subtraction and division share: one number alone is treated by itself, and from the first of several
the others are taken off in order. -/
def reduce (alone : Number → Except ArithmeticFault Number)
    (op : Number → Number → Except ArithmeticFault Number) (p : Primitive) :
    List Value → Except Signal Value
  | [] => .error (.wrongCount (.none p))
  | v :: vs => do
    let n ← numberArgument p v
    let ns ← numbers p vs
    let result ← ofArithmetic (if ns.isEmpty then alone n else accumulate op n ns)
    return .number result

def lengthOf : Value → Except Signal Value
  | .text s => return .int s.length
  | .list items => return .int items.length
  | v => do throw (.wrongKind (.notList .length (← shown v)))

def carOf : Value → Except Signal Value
  | .list (v :: _) => return v
  | v => do throw (.wrongKind (.notList .car (← shown v)))

def cdrOf : Value → Except Signal Value
  | .list (_ :: vs) => return .list vs
  | v => do throw (.wrongKind (.notList .cdr (← shown v)))

def consOf (head : Value) : Value → Except Signal Value
  | .list vs => return .list (head :: vs)
  | v => do throw (.wrongKind (.notList .cons (← shown v)))

def unary (p : Primitive) (f : Value → Except Signal Value) : List Value → Except Signal Value
  | [v] => f v
  | _ => .error (.wrongCount (.notExactly p 1))

def binary (p : Primitive) (f : Value → Value → Except Signal Value) : List Value → Except Signal Value
  | [v, w] => f v w
  | _ => .error (.wrongCount (.notExactly p 2))

def call : Primitive → List Value → Except Signal Value
  | .add, args => do
    return .number (← ofArithmetic (accumulate Number.add (.int 0) (← numbers .add args)))
  | .subtract, args => reduce (fun n => .ok n.neg) Number.sub .subtract args
  | .multiply, args => do
    return .number (← ofArithmetic (accumulate Number.mul (.int 1) (← numbers .multiply args)))
  | .divide, args => reduce (Number.div (.int 1)) Number.div .divide args
  | .equal, args => return .bool (chained Value.equal args)
  | .less, args => return .bool (chained Number.less (← numbers .less args))
  | .greater, args => return .bool (chained (fun a b => b.less a) (← numbers .greater args))
  | .not, args => unary .not (fun v => return .bool v.isFalse) args
  | .length, args => unary .length lengthOf args
  | .car, args => unary .car carOf args
  | .cdr, args => unary .cdr cdrOf args
  | .cons, args => binary .cons consOf args
  | .list, args => return .list args

end Primitive

end MicroScheme
