import MicroScheme.Native

set_option autoImplicit false

namespace MicroScheme

/-- What a primitive may raise. An arithmetic fault has its message; a value without a text is a fault of value. -/
inductive Signal.FromPrimitive : Signal → Prop where
  | wrongKind (fault : KindFault) : FromPrimitive (.wrongKind fault)
  | wrongCount (fault : CountFault) : FromPrimitive (.wrongCount fault)
  | arithmetic (fault : ArithmeticFault) : FromPrimitive (.host ⟨fault.kind, fault.message⟩)
  | digitLimit : FromPrimitive (.host ⟨.value, digitLimitMessage⟩)

theorem ArithmeticFault.isFault_kind (fault : ArithmeticFault) : fault.kind.isFault = true := by
  cases fault <;> rfl

theorem ArithmeticFault.failure_signal (fault : ArithmeticFault) (label : String) :
    (Signal.host ⟨fault.kind, fault.message⟩).failure label = .hostFault label fault.message :=
  if_pos fault.isFault_kind

namespace Primitive

def RaisesOwn {α : Type} (r : Except Signal α) : Prop := ∀ signal, r = .error signal → signal.FromPrimitive

variable {α β : Type}

theorem raisesOwn_ok (a : α) : RaisesOwn (.ok a) := nofun

theorem raisesOwn_error {signal : Signal} (own : signal.FromPrimitive) :
    RaisesOwn (.error signal : Except Signal α) := by
  rintro _ ⟨⟩
  exact own

theorem RaisesOwn.bind {r : Except Signal α} {k : α → Except Signal β} (first : RaisesOwn r)
    (rest : ∀ a, RaisesOwn (k a)) : RaisesOwn (r >>= k) := by
  cases r with
  | error signal => exact raisesOwn_error (first signal rfl)
  | ok a => exact rest a

theorem raisesOwn_ofArithmetic (r : Except ArithmeticFault Number) : RaisesOwn (ofArithmetic r) := by
  cases r with
  | error fault => exact raisesOwn_error (.arithmetic fault)
  | ok n => exact raisesOwn_ok n

theorem raisesOwn_numberArgument (p : Primitive) (v : Value) : RaisesOwn (numberArgument p v) := by
  unfold numberArgument
  split
  · exact raisesOwn_ok _
  · exact raisesOwn_error (.wrongKind _)

theorem raisesOwn_numbers (p : Primitive) (vs : List Value) : RaisesOwn (numbers p vs) := by
  induction vs with
  | nil => exact raisesOwn_ok _
  | cons v vs ih => exact (raisesOwn_numberArgument p v).bind fun _ => ih.bind fun _ => raisesOwn_ok _

theorem raisesOwn_reduce (alone : Number → Except ArithmeticFault Number)
    (op : Number → Number → Except ArithmeticFault Number) (p : Primitive) (vs : List Value) :
    RaisesOwn (reduce alone op p vs) := by
  cases vs with
  | nil => exact raisesOwn_error (.wrongCount _)
  | cons v vs =>
    exact (raisesOwn_numberArgument p v).bind fun _ => (raisesOwn_numbers p vs).bind fun _ =>
      (raisesOwn_ofArithmetic _).bind fun _ => raisesOwn_ok _

theorem raisesOwn_notList (p : Primitive) (v : Value) :
    RaisesOwn (do throw (.wrongKind (.notList p (← shown v))) : Except Signal α) := by
  unfold shown
  cases v.describe? with
  | none => exact raisesOwn_error .digitLimit
  | some text => exact raisesOwn_error (.wrongKind _)

theorem raisesOwn_lengthOf (v : Value) : RaisesOwn (lengthOf v) := by
  unfold lengthOf
  split
  · exact raisesOwn_ok _
  · exact raisesOwn_ok _
  · exact raisesOwn_notList _ _

theorem raisesOwn_carOf (v : Value) : RaisesOwn (carOf v) := by
  unfold carOf
  split
  · exact raisesOwn_ok _
  · exact raisesOwn_notList _ _

theorem raisesOwn_cdrOf (v : Value) : RaisesOwn (cdrOf v) := by
  unfold cdrOf
  split
  · exact raisesOwn_ok _
  · exact raisesOwn_notList _ _

theorem raisesOwn_consOf (head v : Value) : RaisesOwn (consOf head v) := by
  unfold consOf
  split
  · exact raisesOwn_ok _
  · exact raisesOwn_notList _ _

theorem raisesOwn_unary (p : Primitive) {f : Value → Except Signal Value} (own : ∀ v, RaisesOwn (f v))
    (vs : List Value) : RaisesOwn (unary p f vs) := by
  unfold unary
  split
  · exact own _
  · exact raisesOwn_error (.wrongCount _)

theorem raisesOwn_binary (p : Primitive) {f : Value → Value → Except Signal Value}
    (own : ∀ v w, RaisesOwn (f v w)) (vs : List Value) : RaisesOwn (binary p f vs) := by
  unfold binary
  split
  · exact own _ _
  · exact raisesOwn_error (.wrongCount _)

theorem raisesOwn_call (p : Primitive) (vs : List Value) : RaisesOwn (p.call vs) := by
  cases p with
  | add | multiply =>
    exact (raisesOwn_numbers _ vs).bind fun _ => (raisesOwn_ofArithmetic _).bind fun _ => raisesOwn_ok _
  | less | greater => exact (raisesOwn_numbers _ vs).bind fun _ => raisesOwn_ok _
  | subtract | divide => exact raisesOwn_reduce _ _ _ vs
  | equal | list => exact raisesOwn_ok _
  | not => exact raisesOwn_unary _ (fun _ => raisesOwn_ok _) vs
  | length => exact raisesOwn_unary _ raisesOwn_lengthOf vs
  | car => exact raisesOwn_unary _ raisesOwn_carOf vs
  | cdr => exact raisesOwn_unary _ raisesOwn_cdrOf vs
  | cons => exact raisesOwn_binary _ raisesOwn_consOf vs

end Primitive

end MicroScheme
