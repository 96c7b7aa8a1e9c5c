import Mathlib.Algebra.BigOperators.Group.List.Basic
import MicroScheme.Proofs.Binary64.Rounding
import MicroScheme.Proofs.Evaluation.Run
import MicroScheme.Proofs.Value.Comparison
import MicroScheme.Proofs.Value.Signal

set_option autoImplicit false

namespace MicroScheme

/-- Zero as an integer, or as a double of either sign. -/
def Number.IsZero (n : Number) : Prop := n = .int 0 ∨ ∃ negative, n = .float (.zero negative)

/-- The faults that report a division by zero. -/
inductive ArithmeticFault.IsByZero : ArithmeticFault → Prop where
  | integer : IsByZero .integerDivisionByZero
  | float : IsByZero .floatDivisionByZero

namespace Number

variable {a d : Number} {x y : Binary64} {fault : ArithmeticFault}

theorem isZero_int {n : Int} : IsZero (.int n) ↔ n = 0 := by
  simp [IsZero]

theorem isZero_toFloat (converted : d.toFloat = .ok y) : y.isZero = true ↔ d.IsZero := by
  cases d with
  | int n =>
    have same : y = Binary64.ofInt n := by
      rw [toFloat] at converted
      split at converted
      · exact (Except.ok.inj converted).symm
      · cases converted
    rw [same, isZero_int]
    constructor
    · intro zero
      by_contra nonzero
      rw [Binary64.isZero_ofInt nonzero] at zero
      cases zero
    · rintro rfl
      decide +kernel
  | float x =>
    obtain rfl : x = y := Except.ok.inj converted
    simp [IsZero, Binary64.isZero_iff]

theorem divFloat_eq_error : divFloat x y = .error fault ↔ y.isZero = true ∧ fault = .floatDivisionByZero := by
  unfold divFloat
  split
  · next zero => simp [zero, eq_comm]
  · next nonzero => simp [nonzero]

def divConverted (a d : Number) : Except ArithmeticFault Number := do
  let x ← a.toFloat
  let y ← d.toFloat
  divFloat x y

theorem div_eq (a d : Number) :
    a.div d = divConverted a d ∨ ∃ m n, a = .int m ∧ d = .int n ∧ a.div d = divInt m n := by
  cases a with
  | int m =>
    cases d with
    | int n => exact .inr ⟨m, n, rfl, rfl, rfl⟩
    | float y => exact .inl rfl
  | float x => exact .inl rfl

theorem IsZero.div_fails (zero : d.IsZero) (a : Number) : ∃ fault, a.div d = .error fault := by
  rcases div_eq a d with converted | ⟨m, n, rfl, rfl, integers⟩
  · rw [converted, divConverted]
    cases a.toFloat with
    | error fault => exact ⟨fault, rfl⟩
    | ok x =>
      cases divisor : d.toFloat with
      | error fault => exact ⟨fault, rfl⟩
      | ok y => exact ⟨.floatDivisionByZero, divFloat_eq_error.2 ⟨(isZero_toFloat divisor).2 zero, rfl⟩⟩
  · rw [integers, divInt, if_pos (isZero_int.1 zero)]
    exact ⟨_, rfl⟩

theorem toFloat_eq_error (failed : a.toFloat = .error fault) : fault = .integerTooLarge := by
  cases a with
  | int n =>
    rw [toFloat] at failed
    split at failed
    · cases failed
    · exact (Except.error.inj failed).symm
  | float x => cases failed

theorem divConverted_eq_error (failed : divConverted a d = .error fault) : fault = .integerTooLarge ∨ d.IsZero := by
  rw [divConverted] at failed
  cases dividend : a.toFloat with
  | error large =>
    rw [dividend] at failed
    cases failed
    exact .inl (toFloat_eq_error dividend)
  | ok x =>
    cases divisor : d.toFloat with
    | error large =>
      rw [dividend, divisor] at failed
      cases failed
      exact .inl (toFloat_eq_error divisor)
    | ok y =>
      rw [dividend, divisor] at failed
      exact .inr ((isZero_toFloat divisor).1 (divFloat_eq_error.1 failed).1)

theorem divInt_eq_error {m n : Int} (failed : divInt m n = .error fault) : fault = .quotientTooLarge ∨ n = 0 := by
  rw [divInt] at failed
  split at failed
  · next zero => exact .inr zero
  · dsimp only at failed
    split at failed
    · cases failed
    · exact .inl (Except.error.inj failed).symm

theorem isZero_of_div (failed : a.div d = .error fault) (byZero : fault.IsByZero) : d.IsZero := by
  rcases div_eq a d with converted | ⟨m, n, rfl, rfl, integers⟩
  · rcases divConverted_eq_error (converted ▸ failed) with rfl | zero
    · cases byZero
    · exact zero
  · rcases divInt_eq_error (integers ▸ failed) with rfl | zero
    · cases byZero
    · exact isZero_int.2 zero

end Number

namespace Primitive

section

variable {op : Number → Number → Except ArithmeticFault Number} {a n : Number} {ns : List Number}
  {fault : ArithmeticFault}

theorem accumulate_single (op : Number → Number → Except ArithmeticFault Number) (a n : Number) :
    accumulate op a [n] = op a n :=
  bind_pure (op a n)

theorem accumulate_fails (mem : n ∈ ns) (fails : ∀ a, ∃ fault, op a n = .error fault) (a : Number) :
    ∃ fault, accumulate op a ns = .error fault := by
  induction ns generalizing a with
  | nil => cases mem
  | cons m ns ih =>
    cases step : op a m with
    | error fault => exact ⟨fault, by rw [accumulate, step]; rfl⟩
    | ok b =>
      rcases List.mem_cons.1 mem with rfl | later
      · obtain ⟨fault, failed⟩ := fails a
        rw [step] at failed
        cases failed
      · obtain ⟨fault, failed⟩ := ih later b
        exact ⟨fault, by rw [accumulate, step]; exact failed⟩

theorem exists_step_of_accumulate (failed : accumulate op a ns = .error fault) :
    ∃ b, ∃ n ∈ ns, op b n = .error fault := by
  induction ns generalizing a with
  | nil => cases failed
  | cons m ns ih =>
    cases step : op a m with
    | error fault' =>
      rw [accumulate, step] at failed
      cases failed
      exact ⟨a, m, List.mem_cons_self, step⟩
    | ok b =>
      rw [accumulate, step] at failed
      obtain ⟨c, n, mem, found⟩ := ih failed
      exact ⟨c, n, List.mem_cons_of_mem m mem, found⟩

theorem accumulate_int {f : Int → Int → Int} (exact : ∀ i j, op (.int i) (.int j) = .ok (.int (f i j))) (i : Int)
    (is : List Int) : accumulate op (.int i) (is.map .int) = .ok (.int (is.foldl f i)) := by
  induction is generalizing i with
  | nil => rfl
  | cons j is ih =>
    rw [List.map_cons, accumulate, exact]
    exact ih (f i j)

end

theorem foldl_sub (i : Int) (is : List Int) : is.foldl (· - ·) i = i - is.sum := by
  induction is generalizing i with
  | nil => simp
  | cons j is ih => rw [List.foldl_cons, ih, List.sum_cons, Int.sub_sub]

/-- The primitive calculates from that many arguments; - and / need one at least. -/
def Calculates (p : Primitive) (args : List Value) : Prop :=
  p = .add ∨ p = .multiply ∨ (p = .subtract ∨ p = .divide) ∧ args ≠ []

def calculated (r : Except ArithmeticFault Number) : Except Signal Value := do return .number (← ofArithmetic r)

variable {p : Primitive} {args : List Value} {v : Value}
  {alone : Number → Except ArithmeticFault Number} {op : Number → Number → Except ArithmeticFault Number}

theorem calculated_ne_wrongKind (r : Except ArithmeticFault Number) (fault : KindFault) :
    calculated r ≠ .error (.wrongKind fault) := by
  cases r <;> exact nofun

theorem call_add (ns : List Number) :
    Primitive.add.call (ns.map .number) = calculated (accumulate Number.add (.int 0) ns) := by
  rw [call, numbers_map]
  rfl

theorem call_multiply (ns : List Number) :
    Primitive.multiply.call (ns.map .number) = calculated (accumulate Number.mul (.int 1) ns) := by
  rw [call, numbers_map]
  rfl

theorem reduce_map (p : Primitive) (n : Number) (ns : List Number) :
    reduce alone op p ((n :: ns).map .number) = calculated (if ns.isEmpty then alone n else accumulate op n ns) := by
  rw [List.map_cons, reduce, numbers_map]
  rfl

theorem reduce_error (mem : v ∈ args) (other : ∀ n, v ≠ .number n) :
    reduce alone op p args = .error (.wrongKind (.notNumbers p)) := by
  cases args with
  | nil => cases mem
  | cons w args =>
    cases hw : w.number? with
    | none =>
      rw [reduce, numberArgument, hw]
      rfl
    | some n =>
      rw [reduce, numberArgument, hw, numbers_error p (mem_of_other mem other hw) other]
      rfl

theorem reduce_numbers (p : Primitive) {ns : List Number} (nonempty : ns.map Value.number ≠ []) :
    ∃ r, reduce alone op p (ns.map .number) = calculated r := by
  cases ns with
  | nil => exact absurd rfl nonempty
  | cons n ns => exact ⟨_, reduce_map p n ns⟩

theorem call_numbers {ns : List Number} (calculates : p.Calculates (ns.map .number)) :
    ∃ r, p.call (ns.map .number) = calculated r := by
  rcases calculates with rfl | rfl | ⟨rfl | rfl, nonempty⟩
  · exact ⟨_, call_add ns⟩
  · exact ⟨_, call_multiply ns⟩
  · exact reduce_numbers _ nonempty
  · exact reduce_numbers _ nonempty

theorem call_refuses (calculates : p.Calculates args) (mem : v ∈ args) (other : ∀ n, v ≠ .number n) :
    p.call args = .error (.wrongKind (.notNumbers p)) := by
  rcases calculates with rfl | rfl | ⟨rfl | rfl, _⟩
  · rw [call, numbers_error _ mem other]
    rfl
  · rw [call, numbers_error _ mem other]
    rfl
  · exact reduce_error mem other
  · exact reduce_error mem other

theorem map_number_or_other (args : List Value) :
    (∃ ns : List Number, args = ns.map .number) ∨ ∃ v ∈ args, ∀ n, v ≠ .number n := by
  induction args with
  | nil => exact .inl ⟨[], rfl⟩
  | cons v args ih =>
    by_cases number : ∃ n, v = .number n
    · obtain ⟨n, rfl⟩ := number
      rcases ih with ⟨ns, rfl⟩ | ⟨w, mem, other⟩
      · exact .inl ⟨n :: ns, rfl⟩
      · exact .inr ⟨w, List.mem_cons_of_mem _ mem, other⟩
    · exact .inr ⟨v, List.mem_cons_self, fun n same => number ⟨n, same⟩⟩

theorem call_wrongKind_iff (calculates : p.Calculates args) (fault : KindFault) :
    p.call args = .error (.wrongKind fault) ↔ fault = .notNumbers p ∧ ∃ v ∈ args, ∀ n, v ≠ .number n := by
  rcases map_number_or_other args with ⟨ns, rfl⟩ | ⟨v, mem, other⟩
  · obtain ⟨r, given⟩ := call_numbers calculates
    rw [given]
    constructor
    · exact fun refused => absurd refused (calculated_ne_wrongKind r fault)
    · rintro ⟨_, v, mem, other⟩
      obtain ⟨n, _, rfl⟩ := List.mem_map.1 mem
      exact absurd rfl (other n)
  · rw [call_refuses calculates mem other]
    constructor
    · rintro ⟨⟩
      exact ⟨rfl, v, mem, other⟩
    · rintro ⟨rfl, _⟩
      rfl

theorem map_int (is : List Int) : is.map Value.int = (is.map Number.int).map .number := by
  rw [List.map_map]
  rfl

theorem call_add_int (is : List Int) : Primitive.add.call (is.map .int) = .ok (.int is.sum) := by
  rw [map_int, call_add, accumulate_int (f := (· + ·)) (fun _ _ => rfl), List.sum_eq_foldl]
  rfl

theorem call_multiply_int (is : List Int) : Primitive.multiply.call (is.map .int) = .ok (.int is.prod) := by
  rw [map_int, call_multiply, accumulate_int (f := (· * ·)) (fun _ _ => rfl), List.prod_eq_foldl]
  rfl

theorem call_subtract_int (i j : Int) (is : List Int) :
    Primitive.subtract.call ((i :: j :: is).map .int) = .ok (.int (i - (j :: is).sum)) := by
  have exact : accumulate Number.sub (.int i) ((j :: is).map .int) = .ok (.int (i - (j :: is).sum)) := by
    rw [accumulate_int (f := (· - ·)) (fun _ _ => rfl), foldl_sub]
  rw [map_int, List.map_cons, call, reduce_map, List.map_cons, List.isEmpty_cons, if_neg Bool.false_ne_true,
    ← List.map_cons, exact]
  rfl

/-- The numbers by which / divides: one number alone, and all but the first of several. -/
def divisors : List Number → List Number
  | [n] => [n]
  | ns => ns.tail

def dividend : List Number → Number
  | n :: _ :: _ => n
  | _ => .int 1

theorem call_divide {ns : List Number} (nonempty : ns ≠ []) :
    Primitive.divide.call (ns.map .number) = calculated (accumulate Number.div (dividend ns) (divisors ns)) := by
  cases ns with
  | nil => exact absurd rfl nonempty
  | cons n ns =>
    cases ns with
    | nil =>
      have same : accumulate Number.div (dividend [n]) (divisors [n]) = Number.div (.int 1) n :=
        accumulate_single Number.div (.int 1) n
      rw [same]
      exact reduce_map _ n []
    | cons m ns => exact reduce_map _ n (m :: ns)

variable {world : World} {eval : Evaluator} {e : ScopeId} {s : Store}

theorem apply_divide {ns : List Number} (nonempty : ns ≠ []) :
    (apply world eval (.native (.primitive .divide)) (ns.map .number) e).run s =
      match accumulate Number.div (dividend ns) (divisors ns) with
      | .ok n => (.ok (.number n), s)
      | .error fault => (.error (.hostFault Primitive.divide.label fault.message), s) := by
  rw [run_apply_native, Native.call, call_divide nonempty]
  cases accumulate Number.div (dividend ns) (divisors ns) with
  | ok n => rfl
  | error fault => exact congrArg (fun f => (Except.error f, s)) (fault.failure_signal _)

/-- The words in which the message of a division by zero ends. -/
def divisionByZero : String := "division by zero"

theorem isByZero_of_message {fault : ArithmeticFault} {message : String}
    (given : (Failure.hostFault Primitive.divide.label fault.message).message? = some message)
    (ends : divisionByZero.toList <:+ message.toList) : fault.IsByZero := by
  cases given
  cases fault with
  | integerTooLarge => exact absurd ends (by decide +kernel)
  | integerDivisionByZero => exact .integer
  | floatDivisionByZero => exact .float
  | quotientTooLarge => exact absurd ends (by decide +kernel)

/-- The primitives that calculate refuse their arguments if one of them is no number, and in no other case. Integers are
added and multiplied exactly, in any order, and subtracted exactly. A division with a zero among its divisors fails and
leaves the store as it is, and a division whose failure ends in the words of a division by zero has such a divisor. -/
theorem calculate_arguments :
    (∀ (p : Primitive) (args : List Value), p.Calculates args → ∀ fault,
      p.call args = .error (.wrongKind fault) ↔ fault = .notNumbers p ∧ ∃ v ∈ args, ∀ n, v ≠ .number n) ∧
    (∀ is : List Int, Primitive.add.call (is.map .int) = .ok (.int is.sum) ∧
      Primitive.multiply.call (is.map .int) = .ok (.int is.prod) ∧
      ∀ js, is.Perm js → Primitive.add.call (js.map .int) = Primitive.add.call (is.map .int) ∧
        Primitive.multiply.call (js.map .int) = Primitive.multiply.call (is.map .int)) ∧
    (∀ (i j : Int) (is : List Int),
      Primitive.subtract.call ((i :: j :: is).map .int) = .ok (.int (i - (j :: is).sum))) ∧
    ∀ ns : List Number,
      ((∃ d ∈ divisors ns, d.IsZero) → ∃ fault : ArithmeticFault, ∀ world eval e s,
        (apply world eval (.native (.primitive .divide)) (ns.map .number) e).run s =
          (.error (.hostFault Primitive.divide.label fault.message), s)) ∧
      ∀ world eval e s f message,
        ((apply world eval (.native (.primitive .divide)) (ns.map .number) e).run s).1 = .error f →
          f.message? = some message → divisionByZero.toList <:+ message.toList → ∃ d ∈ divisors ns, d.IsZero := by
  refine ⟨fun p args calculates => call_wrongKind_iff calculates, fun is => ?_, call_subtract_int, fun ns => ⟨?_, ?_⟩⟩
  · refine ⟨call_add_int is, call_multiply_int is, fun js perm => ?_⟩
    rw [call_add_int, call_add_int, call_multiply_int, call_multiply_int, perm.sum_eq, perm.prod_eq]
    exact ⟨rfl, rfl⟩
  · rintro ⟨d, mem, zero⟩
    have nonempty : ns ≠ [] := by
      rintro rfl
      cases mem
    obtain ⟨fault, failed⟩ := accumulate_fails mem zero.div_fails (dividend ns)
    refine ⟨fault, fun world eval e s => ?_⟩
    rw [apply_divide nonempty, failed]
  · intro world eval e s f message failed given ends
    by_cases empty : ns = []
    · subst empty
      cases failed
      cases given
      exact absurd ends (by decide +kernel)
    · rw [apply_divide empty] at failed
      cases result : accumulate Number.div (dividend ns) (divisors ns) with
      | ok n =>
        rw [result] at failed
        cases failed
      | error fault =>
        rw [result] at failed
        cases failed
        obtain ⟨a, d, mem, step⟩ := exists_step_of_accumulate result
        exact ⟨d, mem, Number.isZero_of_div step (isByZero_of_message given ends)⟩

theorem calculate_arguments_of_large :
    let large : Int := 10 ^ 400
    let world : World := ⟨true, fun _ => .arguments⟩
    let quotient (ns : List Number) : Eval Value :=
      apply world (evaluate world 4) (.native (.primitive .divide)) (ns.map .number) Store.root
    Primitive.divide.call [.int large, .float (.zero false), .bool true] = .error (.wrongKind (.notNumbers .divide)) ∧
      Primitive.add.call ([1, large].map .int) = Primitive.add.call ([large, 1].map .int) ∧
      Primitive.subtract.call ([large, 1, large].map .int) = .ok (.int (-1)) ∧
      (∃ message, (quotient [.int large, .float (.zero false)]).run .initial =
        (.error (.hostFault "div" message), .initial)) ∧
      ∃ d ∈ divisors [.float (Binary64.ofInt 1), .float (.zero true)], d.IsZero := by
  intro large world quotient
  obtain ⟨refused, integers, subtracted, division⟩ := calculate_arguments
  refine ⟨?_, ((integers [large, 1]).2.2 [1, large] (.swap _ _ _)).1, ?_, ?_, ?_⟩
  · exact (refused .divide _ (.inr (.inr ⟨.inr rfl, List.cons_ne_nil _ _⟩)) _).2 ⟨rfl, .bool true, by simp, nofun⟩
  · rw [subtracted]
    decide +kernel
  · obtain ⟨fault, failed⟩ := (division [.int large, .float (.zero false)]).1
      ⟨.float (.zero false), List.mem_singleton_self _, .inr ⟨false, rfl⟩⟩
    exact ⟨_, failed world (evaluate world 4) Store.root .initial⟩
  · have failed : ((quotient [.float (Binary64.ofInt 1), .float (.zero true)]).run .initial).1 =
        .error (.hostFault "div" "float division by zero") := by decide +kernel
    exact (division [.float (Binary64.ofInt 1), .float (.zero true)]).2 _ _ _ _ _ _ failed rfl (by decide +kernel)

end Primitive

end MicroScheme
