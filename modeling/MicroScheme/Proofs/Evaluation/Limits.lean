import Mathlib.Data.List.Forall2
import MicroScheme.Proofs.Evaluation.Parallel

set_option autoImplicit false

namespace MicroScheme

namespace Pairing

/-- Runs that are the same until the left one ends with an excuse. -/
def exact (excused : Failure → Prop) : Pairing where
  same := Eq
  allowed _ := True
  other _ _ _ := True
  leftExcused := excused
  rightExcused _ := False

variable {excused : Failure → Prop} {s t : Store} {v w : Value}

theorem exact_matches : Value.Matches (exact excused).same := by
  rintro i j k l rfl rfl
  exact Iff.rfl

theorem exact_alike (v : Value) : (exact excused).Alike v v :=
  Value.alike_self fun _ _ _ _ _ => ⟨rfl, trivial⟩

theorem exact_eq (h : (exact excused).Alike v w) : v = w := h.eq fun _ _ => id

theorem exact_agree (s : Store) : (exact excused).Agree s s where
  size := rfl
  closures _ := rfl
  fresh _ _ := trivial
  frames _ _ := ⟨rfl, fun _ _ => trivial, List.forall₂_same.2 fun pair _ => ⟨rfl, exact_alike pair.2⟩⟩
  others _ _ := trivial

theorem frames_ext {s t : Store} (size : s.frames.size = t.frames.size) (frame : ∀ d, s.frame d = t.frame d) :
    s.frames = t.frames := by
  refine Array.ext size fun d hs ht => ?_
  have same := frame d
  rw [Store.frame, Store.frame, Array.getElem?_eq_getElem hs, Array.getElem?_eq_getElem ht] at same
  exact same

theorem Agree.eq_of_exact (agree : (exact excused).Agree s t) : s = t := by
  have frames := frames_ext agree.size fun d => (agree.frames d trivial).eq fun _ _ => id
  have closures : s.closures = t.closures := agree.closures 0
  cases s
  cases t
  rw [Store.mk.injEq]
  exact ⟨frames, closures⟩

theorem exact_host (h : HostProcedure) : (exact excused).HostAlike h h := by
  intro s t e xs ys agree _ alike
  obtain rfl : s = t := agree.eq_of_exact
  obtain rfl : xs = ys := List.forall₂_eq_eq_eq ▸ alike.imp fun _ _ => exact_eq
  exact ⟨exact_agree _, outcome_self exact_alike _⟩

variable {eval eval' : Evaluator}

theorem pairs_of_run_eq (same : ∀ x e s,
    (∃ f, excused f ∧ ((eval x e).run s).1 = .error f) ∨ (eval x e).run s = (eval' x e).run s) :
    (exact excused).Pairs eval eval' := by
  intro s t e x y agree _ hxy
  obtain rfl : s = t := agree.eq_of_exact
  obtain rfl : x = y := exact_eq hxy
  rcases same x e s with left | equal
  · exact .inl left
  · refine .inr (.inr ?_)
    rw [← equal]
    exact ⟨exact_agree _, outcome_self exact_alike _⟩

theorem Parallel.run_eq {m n : Eval Value} (h : (exact excused).Parallel m n s s (exact excused).Alike) :
    (∃ f, excused f ∧ (m.run s).1 = .error f) ∨ m.run s = n.run s := by
  rcases h with left | ⟨_, none, _⟩ | ⟨agree, outcome⟩
  · exact .inl left
  · exact none.elim
  · exact .inr (Prod.ext (outcome.eq fun _ _ => exact_eq) agree.eq_of_exact)

theorem Parallel.run_eq_of_ended {m n : Eval Value}
    (h : (exact (· = Failure.tooDeep)).Parallel m n s s (exact (· = Failure.tooDeep)).Alike)
    (ended : (m.run s).1 ≠ .error .tooDeep) : n.run s = m.run s := by
  rcases h.run_eq with ⟨_, rfl, tooDeep⟩ | same
  · exact absurd tooDeep ended
  · exact same.symm

theorem Pairs.run_eq (pairs : (exact excused).Pairs eval eval') (x : Value) (e : ScopeId)
    (s : Store) : (∃ f, excused f ∧ ((eval x e).run s).1 = .error f) ∨ (eval x e).run s = (eval' x e).run s :=
  Parallel.run_eq (pairs (exact_agree s) trivial (exact_alike x))

end Pairing

/-- A closure has insisted on its number of arguments. -/
def Failure.IsMiscount (f : Failure) : Prop := ∃ formals got, f = .wrongCount (.closure formals got)

/-- Where closures do not insist on their number of arguments, every evaluation ends as it does where they insist,
unless there it ends for that reason. -/
theorem evaluate_lax (host : Nat → HostProcedure) (depth : Nat) (x : Value) (e : ScopeId) (s : Store)
    (counted : ∀ formals got,
      ((evaluate ⟨true, host⟩ depth x e).run s).1 ≠ .error (.wrongCount (.closure formals got))) :
    (evaluate ⟨false, host⟩ depth x e).run s = (evaluate ⟨true, host⟩ depth x e).run s := by
  have laws : (Pairing.exact Failure.IsMiscount).Lawful ⟨true, host⟩ ⟨false, host⟩ :=
    ⟨Pairing.exact_matches, .inr ⟨rfl, fun formals got => ⟨formals, got, rfl⟩⟩,
      fun id => Pairing.exact_host (host id)⟩
  have pairs : (Pairing.exact Failure.IsMiscount).Pairs (evaluate ⟨true, host⟩ depth)
      (evaluate ⟨false, host⟩ depth) :=
    laws.evaluate depth depth (absurd · (Nat.lt_irrefl _)) (absurd · (Nat.lt_irrefl _))
  rcases pairs.run_eq x e s with ⟨_, ⟨formals, got, rfl⟩, ended⟩ | same
  · exact (counted formals got ended).elim
  · exact same.symm

theorem evaluate_lax_of_fault :
    let host (_ : Nat) : HostProcedure := .raising ⟨.key, "gone"⟩
    let body : Value := .list [.named "begin", .list [.named "set!", .named "n", .named "m"], .list [.named "boom"]]
    let x : Value := .list [.list [.named "lambda", .list [.named "m"], body], .int 2]
    let s : Store := ⟨#[⟨[(⟨"n"⟩, .int 1), (⟨"boom"⟩, .native (.host 0 "boom"))], none⟩], 0⟩
    ((evaluate ⟨true, host⟩ 6 x 0).run s).1 = .error (.hostFault "boom" "gone") ∧
      (evaluate ⟨false, host⟩ 6 x 0).run s = (evaluate ⟨true, host⟩ 6 x 0).run s := by
  intro host body x s
  have ended : ((evaluate ⟨true, host⟩ 6 x 0).run s).1 = .error (.hostFault "boom" "gone") := rfl
  refine ⟨ended, evaluate_lax host 6 x 0 s fun formals got miscounted => ?_⟩
  rw [ended] at miscounted
  cases miscounted

/-- The second evaluator goes on where the first is too deep, and does the same as the first everywhere else. -/
def Evaluator.Deepens (eval eval' : Evaluator) : Prop :=
  ∀ x e s, ((eval x e).run s).1 ≠ .error .tooDeep → (eval' x e).run s = (eval x e).run s

theorem Evaluator.deepens_iff {eval eval' : Evaluator} :
    Evaluator.Deepens eval eval' ↔ (Pairing.exact (· = .tooDeep)).Pairs eval eval' := by
  constructor
  · intro deepens
    refine Pairing.pairs_of_run_eq fun x e s => ?_
    by_cases ended : ((eval x e).run s).1 = .error .tooDeep
    · exact .inl ⟨.tooDeep, rfl, ended⟩
    · exact .inr (deepens x e s ended).symm
  · intro pairs x e s ended
    exact Pairing.Parallel.run_eq_of_ended (pairs (Pairing.exact_agree s) trivial (Pairing.exact_alike x)) ended

theorem exact_lawful (excused : Failure → Prop) (world : World) : (Pairing.exact excused).Lawful world world :=
  ⟨Pairing.exact_matches, .inl rfl, fun id => Pairing.exact_host (world.host id)⟩

theorem evaluateStep_deepens (world : World) {eval eval' : Evaluator} (inner : Evaluator.Deepens eval eval') :
    Evaluator.Deepens (evaluateStep world eval) (evaluateStep world eval') :=
  Evaluator.deepens_iff.2 ((exact_lawful _ world).evaluateStep (Evaluator.deepens_iff.1 inner))

theorem evaluate_deepens (world : World) {m n : Nat} (shallower : m ≤ n) :
    Evaluator.Deepens (evaluate world m) (evaluate world n) := by
  induction m generalizing n with
  | zero => exact fun _ _ _ ended => absurd rfl ended
  | succ m ih =>
    cases n with
    | zero => exact absurd shallower (Nat.not_succ_le_zero m)
    | succ n => exact evaluateStep_deepens world (ih (Nat.le_of_succ_le_succ shallower))

theorem apply_deepens (world : World) {m n : Nat} (shallower : m ≤ n) {p : Value} {args : List Value} {e : ScopeId}
    {s : Store} (ended : ((apply world (evaluate world m) p args e).run s).1 ≠ .error .tooDeep) :
    (apply world (evaluate world n) p args e).run s = (apply world (evaluate world m) p args e).run s := by
  have pairs : (Pairing.exact (· = .tooDeep)).Pairs (evaluate world m) (evaluate world n) :=
    Evaluator.deepens_iff.1 (evaluate_deepens world shallower)
  have parallel := (exact_lawful (· = .tooDeep) world).apply pairs (Pairing.exact_agree s) (e := e) trivial
    (Pairing.exact_alike p) (List.forall₂_same.2 fun v (_ : v ∈ args) => Pairing.exact_alike v)
  exact parallel.run_eq_of_ended ended

theorem eq_of_settled {α : Type} {run : Nat → Except Failure α × Store}
    (deepens : ∀ m n, m ≤ n → (run m).1 ≠ .error .tooDeep → run n = run m) {m n : Nat}
    (left : (run m).1 ≠ .error .tooDeep) (right : (run n).1 ≠ .error .tooDeep) : run m = run n := by
  rcases Nat.le_total m n with shallower | deeper
  · exact (deepens m n shallower left).symm
  · exact deepens n m deeper right

theorem evaluate_settled (world : World) {m n : Nat} {x : Value} {e : ScopeId} {s : Store}
    (left : ((evaluate world m x e).run s).1 ≠ .error .tooDeep)
    (right : ((evaluate world n x e).run s).1 ≠ .error .tooDeep) :
    (evaluate world m x e).run s = (evaluate world n x e).run s :=
  eq_of_settled (fun _ _ shallower => evaluate_deepens world shallower x e s) left right

theorem Evaluator.Deepens.evaluateBody {eval eval' : Evaluator} (deepens : Evaluator.Deepens eval eval') {e : ScopeId}
    {last : Value} {xs : List Value} {s : Store}
    (ended : ((MicroScheme.evaluateBody eval e last xs).run s).1 ≠ .error .tooDeep) :
    (MicroScheme.evaluateBody eval' e last xs).run s = (MicroScheme.evaluateBody eval e last xs).run s := by
  have pairs : (Pairing.exact (· = .tooDeep)).Pairs eval eval' := Evaluator.deepens_iff.1 deepens
  have parallel := pairs.evaluateBody (Pairing.exact_agree s) (e := e) trivial (Pairing.exact_alike last)
    (List.forall₂_same.2 fun x (_ : x ∈ xs) => Pairing.exact_alike x)
  exact parallel.run_eq_of_ended ended

theorem evaluateBody_settled (world : World) {m n : Nat} {e : ScopeId} {last : Value} {xs : List Value} {s : Store}
    (left : ((evaluateBody (evaluate world m) e last xs).run s).1 ≠ .error .tooDeep)
    (right : ((evaluateBody (evaluate world n) e last xs).run s).1 ≠ .error .tooDeep) :
    (evaluateBody (evaluate world m) e last xs).run s = (evaluateBody (evaluate world n) e last xs).run s :=
  eq_of_settled (fun _ _ shallower => (evaluate_deepens world shallower).evaluateBody) left right

/-- A run that is not too deep is the same run to any greater depth, for what is too deep inside an evaluation is
neither caught nor seen by it. -/
theorem evaluate_deeper (world : World) :
    (∀ (m n : Nat) (x : Value) (e : ScopeId) (s : Store), m ≤ n →
      ((evaluate world m x e).run s).1 ≠ .error .tooDeep →
        (evaluate world n x e).run s = (evaluate world m x e).run s) ∧
      ∀ eval eval' : Evaluator, Evaluator.Deepens eval eval' →
        Evaluator.Deepens (evaluateStep world eval) (evaluateStep world eval') :=
  ⟨fun _ _ x e s shallower => evaluate_deepens world shallower x e s, fun _ _ => evaluateStep_deepens world⟩

theorem evaluate_deeper_of_recursion :
    let world : World := ⟨true, fun _ => .arguments⟩
    let call : Value → Value := fun v => .list [.named "f", v]
    let body : Value := .list [.named "if", .list [.named "=", .named "l", .list []], .int 7,
      call (.list [.named "cdr", .named "l"])]
    let x : Value := call (.list [.named "list", .int 1, .int 2])
    let s : Store := ⟨#[⟨[(⟨"f"⟩, .closure 0 [⟨"l"⟩] body 0), (⟨"="⟩, .native (.primitive .equal)),
      (⟨"cdr"⟩, .native (.primitive .cdr)), (⟨"list"⟩, .native (.primitive .list))], none⟩], 1⟩
    ((evaluate world 6 x 0).run s).1 = .error .tooDeep ∧ ((evaluate world 8 x 0).run s).1 = .ok (.int 7) ∧
      (evaluate world 500 x 0).run s = (evaluate world 8 x 0).run s := by
  intro world call body x s
  have ended : ((evaluate world 8 x 0).run s).1 = .ok (.int 7) := rfl
  refine ⟨rfl, ended, (evaluate_deeper world).1 8 500 x 0 s (by decide) fun tooDeep => ?_⟩
  rw [ended] at tooDeep
  cases tooDeep

end MicroScheme
