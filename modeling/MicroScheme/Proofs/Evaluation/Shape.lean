import MicroScheme.Proofs.Value.Closure
import MicroScheme.Proofs.Evaluation.Run

set_option autoImplicit false

namespace MicroScheme

namespace SpecialForm

def IsClause (v : Value) : Prop := ∃ test x xs, v = .list (test :: x :: xs)

def IsElse (v : Value) : Prop := ∃ xs, v = .list (.named "else" :: xs)

def IsBinding (v : Value) : Prop := ∃ n x, v = .list [.symbol n, x]

end SpecialForm

open SpecialForm

namespace Keyword

/-- The operands of a special form have the shape that the form asks for. -/
inductive Fits : Keyword → List Value → Prop where
  | quote (x : Value) : Fits .quote [x]
  | conditional (test consequent alternative : Value) : Fits .conditional [test, consequent, alternative]
  | cond {operands : List Value} : (∀ v ∈ operands, IsClause v) → (∀ v ∈ operands.dropLast, ¬ IsElse v) →
    Fits .cond operands
  | assign (n : Symbol) (x : Value) : Fits .assign [.symbol n, x]
  | define (n : Symbol) (x : Value) : Fits .define [.symbol n, x]
  | lambda {params : List Value} (x : Value) (xs : List Value) : (∀ v ∈ params, ∃ n, v = .symbol n) →
    Fits .lambda (.list params :: x :: xs)
  | begin (operands : List Value) : Fits .begin operands
  | letIn {bindings : List Value} (body : List Value) : (∀ v ∈ bindings, IsBinding v) →
    Fits .letIn (.list bindings :: body)
  | and (operands : List Value) : Fits .and operands
  | or (operands : List Value) : Fits .or operands

def initials : List Value → List Value
  | .list [.symbol _, x] :: rest => x :: initials rest
  | _ => []

/-- The operands that a form evaluates before it finds that their shape is wrong. -/
def premature : Keyword → List Value → List Value
  | .define, [_, x] => [x]
  | .letIn, .list bindings :: _ => initials bindings
  | _, _ => []

end Keyword

namespace Value

theorem describeAll?_of_writable {items : List Value}
    (each : ∀ v ∈ items, v.isWritable = true → ∃ text, v.describe? = some text)
    (writable : allWritable items = true) : ∃ texts, describeAll? items = some texts := by
  induction items with
  | nil => exact ⟨[], rfl⟩
  | cons v items ih =>
    obtain ⟨first, rest⟩ := List.forall_mem_cons.1 each
    rw [allWritable, Bool.and_eq_true] at writable
    obtain ⟨text, htext⟩ := first writable.1
    obtain ⟨texts, htexts⟩ := ih rest writable.2
    exact ⟨text :: texts, by rw [describeAll?, htext, htexts]; rfl⟩

theorem describe?_of_writable {v : Value} (writable : v.isWritable = true) : ∃ text, v.describe? = some text := by
  induction v with
  | number n =>
    cases n with
    | int n =>
      rw [isWritable] at writable
      exact ⟨_, by rw [describe?, Number.digits?, Numeral.integerText?, if_pos writable]⟩
    | float x => exact ⟨_, rfl⟩
  | list items ih =>
    obtain ⟨texts, h⟩ := describeAll?_of_writable ih writable
    exact ⟨_, by rw [describe?, h]; rfl⟩
  | bool | text | symbol | unspecified | closure | native => exact ⟨_, rfl⟩

theorem allWritable_iff {items : List Value} : allWritable items = true ↔ ∀ v ∈ items, v.isWritable = true := by
  induction items with
  | nil => simp [allWritable]
  | cons v items ih => simp [allWritable, ih]

theorem Within.isWritable {c v : Value} (within : c.Within v) (writable : v.isWritable = true) :
    c.isWritable = true := by
  induction within with
  | here => exact writable
  | item mem _ ih => exact ih (allWritable_iff.1 writable _ mem)
  | body _ ih => exact ih writable

end Value

/-- A computation that fails at the shape of operands, with or without showing a part of them. -/
inductive Rejects (operands : List Value) {α : Type} : Eval α → Prop where
  | plain (fault : FormFault) : Rejects operands (throw (.malformed fault))
  | showing (fault : String → FormFault) {x part : Value} : x ∈ operands → part.Within x →
    Rejects operands (Eval.malformedAt fault part)

variable {α β : Type} {operands : List Value} {e : ScopeId}

theorem malformedAt_bind (fault : String → FormFault) (part : Value) (k : α → Eval β) :
    (Eval.malformedAt fault part >>= k) = Eval.malformedAt fault part := by
  unfold Eval.malformedAt
  cases part.describe? <;> rfl

theorem Rejects.bind {m : Eval α} (h : Rejects operands m) :
    ∃ reject : Eval β, Rejects operands reject ∧ ∀ k : α → Eval β, (m >>= k) = reject := by
  cases h with
  | plain fault => exact ⟨_, .plain fault, fun _ => rfl⟩
  | showing fault mem within => exact ⟨_, .showing fault mem within, malformedAt_bind fault _⟩

theorem Rejects.mono {wider : List Value} {m : Eval α} (h : Rejects operands m)
    (widen : ∀ x ∈ operands, ∃ y ∈ wider, x.Within y) : Rejects wider m := by
  cases h with
  | plain fault => exact .plain fault
  | showing fault mem within =>
    obtain ⟨y, hy, inside⟩ := widen _ mem
    exact .showing fault hy (within.trans inside)

theorem Rejects.run {m : Eval α} (h : Rejects operands m) (writable : ∀ v ∈ operands, v.isWritable = true) :
    ∃ fault, ∀ s, m.run s = (.error (.malformed fault), s) := by
  cases h with
  | plain fault => exact ⟨fault, fun _ => rfl⟩
  | showing fault mem within =>
    obtain ⟨text, described⟩ := Value.describe?_of_writable (within.isWritable (writable _ mem))
    exact ⟨fault text, fun _ => by unfold Eval.malformedAt; rw [described]; rfl⟩

theorem fits_cond_cons {v : Value} {vs : List Value} :
    Keyword.Fits .cond (v :: vs) ↔ IsClause v ∧ (IsElse v → vs = []) ∧ Keyword.Fits .cond vs := by
  cases vs with
  | nil =>
    constructor
    · rintro ⟨⟩
      next clause _ => exact ⟨clause v List.mem_cons_self, fun _ => rfl, .cond (by simp) (by simp)⟩
    · rintro ⟨clause, _⟩
      exact .cond (List.forall_mem_singleton.2 clause) (by simp)
  | cons w vs =>
    constructor
    · rintro ⟨⟩
      next clause last =>
      rw [List.dropLast_cons_cons] at last
      obtain ⟨hv, hvs⟩ := List.forall_mem_cons.1 clause
      obtain ⟨early, rest⟩ := List.forall_mem_cons.1 last
      exact ⟨hv, fun isElse => (early isElse).elim, .cond hvs rest⟩
    · rintro ⟨hv, early, ⟨⟩⟩
      next hvs rest =>
      refine .cond (List.forall_mem_cons.2 ⟨hv, hvs⟩) ?_
      rw [List.dropLast_cons_cons]
      exact List.forall_mem_cons.2 ⟨fun isElse => absurd (early isElse) (List.cons_ne_nil _ _), rest⟩

theorem clause_ofValue?_eq_none {v : Value} (h : Clause.ofValue? v = none) : ¬ IsClause v := by
  rintro ⟨test, x, xs, rfl⟩
  cases h

theorem clause_ofValue?_eq_some {v : Value} {c : Clause} (h : Clause.ofValue? v = some c) :
    IsClause v ∧ (c.isElse = true ↔ IsElse v) := by
  unfold Clause.ofValue? at h
  split at h
  · next test x xs =>
    obtain rfl := Option.some.inj h
    refine ⟨⟨test, x, xs, rfl⟩, ?_⟩
    cases test with
    | symbol n =>
      cases n
      simp [Clause.isElse, IsElse]
    | number | bool | text | list | unspecified | closure | native => simp [Clause.isElse, IsElse]
  · cases h

theorem clauses_cases (vs : List Value) :
    Keyword.Fits .cond vs ∧ (∃ cs, clauses vs = pure cs) ∨ ¬ Keyword.Fits .cond vs ∧ Rejects vs (clauses vs) := by
  induction vs with
  | nil => exact .inl ⟨.cond (by simp) (by simp), [], rfl⟩
  | cons v vs ih =>
    rw [fits_cond_cons, clauses]
    cases found : Clause.ofValue? v with
    | none =>
      exact .inr ⟨fun fits => clause_ofValue?_eq_none found fits.1, .showing _ List.mem_cons_self .here⟩
    | some c =>
      obtain ⟨clause, isElse⟩ := clause_ofValue?_eq_some found
      dsimp only
      split
      · next early =>
        rw [Bool.and_eq_true, Bool.not_eq_true', List.isEmpty_eq_false_iff] at early
        exact .inr ⟨fun fits => early.2 (fits.2.1 (isElse.1 early.1)), .plain _⟩
      · next placed =>
        have last : IsElse v → vs = [] := by
          intro h
          rw [isElse.2 h, Bool.true_and, Bool.not_eq_true, Bool.not_eq_false', List.isEmpty_iff] at placed
          exact placed
        rcases ih with ⟨fits, cs, found⟩ | ⟨misfit, rejects⟩
        · exact .inl ⟨⟨clause, last, fits⟩, c :: cs, by rw [found]; rfl⟩
        · obtain ⟨reject, rejects, same⟩ := rejects.bind (β := List Clause)
          rw [same]
          exact .inr ⟨fun fits => misfit fits.2.2, rejects.mono fun x mem => ⟨x, List.mem_cons_of_mem _ mem, .here⟩⟩

theorem letBindings_misfit (e : ScopeId) {bindings : List Value} (misfit : ¬ ∀ v ∈ bindings, IsBinding v) :
    ∃ part ∈ bindings, ∀ eval bound, letBindings eval e bound bindings =
      evaluateAll eval e (Keyword.initials bindings) >>= fun _ => Eval.malformedAt .letBinding part := by
  induction bindings with
  | nil => exact absurd (by simp) misfit
  | cons v bindings ih =>
    by_cases binding : IsBinding v
    · obtain ⟨n, x, rfl⟩ := binding
      have later : ¬ ∀ v ∈ bindings, IsBinding v := fun h =>
        misfit (List.forall_mem_cons.2 ⟨⟨n, x, rfl⟩, h⟩)
      obtain ⟨part, mem, rest⟩ := ih later
      refine ⟨part, List.mem_cons_of_mem _ mem, fun eval bound => ?_⟩
      simp only [letBindings, rest, Keyword.initials, evaluateAll, bind_assoc, pure_bind]
    · refine ⟨v, List.mem_cons_self, fun eval bound => ?_⟩
      unfold letBindings Keyword.initials
      split
      · next heq => cases heq
      · next n x rest heq =>
        obtain ⟨rfl, rfl⟩ := List.cons.inj heq
        exact absurd ⟨n, x, rfl⟩ binding
      · next heq =>
        obtain ⟨rfl, rfl⟩ := List.cons.inj heq
        split
        · next n x rest heq =>
          obtain ⟨rfl, rfl⟩ := List.cons.inj heq
          exact absurd ⟨n, x, rfl⟩ binding
        · rfl

theorem symbols?_eq_none {vs : List Value} (h : symbols? vs = none) : ¬ ∀ v ∈ vs, ∃ n, v = .symbol n := by
  induction vs with
  | nil => cases h
  | cons v vs ih =>
    intro symbols
    obtain ⟨⟨n, rfl⟩, rest⟩ := List.forall_mem_cons.1 symbols
    rw [symbols?, Option.map_eq_none_iff] at h
    exact ih h rest

theorem symbols?_map (ns : List Symbol) : symbols? (ns.map .symbol) = some ns := by
  induction ns with
  | nil => rfl
  | cons n ns ih => rw [List.map_cons, symbols?, ih, Option.map_some]

theorem symbols?_eq_some {vs : List Value} {ns : List Symbol} (h : symbols? vs = some ns) :
    vs = ns.map .symbol := by
  induction vs generalizing ns with
  | nil =>
    cases h
    rfl
  | cons v vs ih =>
    unfold symbols? at h
    split at h
    · next heq => cases heq
    · next n rest heq =>
      obtain ⟨rfl, rfl⟩ := List.cons.inj heq
      obtain ⟨ms, found, rfl⟩ := Option.map_eq_some_iff.1 h
      rw [ih found, List.map_cons]
    · cases h

/-- A computation that evaluates some expressions and is then rejected, whatever they evaluate to. -/
def RejectedAfter (e : ScopeId) (operands early : List Value) (m : Evaluator → Eval Value) : Prop :=
  ∃ reject : Eval Value, Rejects operands reject ∧ ∀ eval, m eval = evaluateAll eval e early >>= fun _ => reject

theorem Rejects.atOnce {m : Eval Value} (h : Rejects operands m) : RejectedAfter e operands [] fun _ => m :=
  ⟨m, h, fun _ => rfl⟩

theorem quote_misfit (misfit : ¬ Keyword.Fits .quote operands) :
    RejectedAfter e operands [] fun _ => SpecialForm.quote operands := by
  rcases operands with _ | ⟨x, _ | ⟨y, rest⟩⟩
  · exact Rejects.atOnce (.plain .quoteCount)
  · exact absurd (.quote x) misfit
  · simp only [SpecialForm.quote]
    exact Rejects.atOnce (.plain .quoteCount)

theorem conditional_misfit (misfit : ¬ Keyword.Fits .conditional operands) :
    RejectedAfter e operands [] fun eval => SpecialForm.conditional eval e operands := by
  rcases operands with _ | ⟨test, _ | ⟨consequent, _ | ⟨alternative, _ | ⟨y, rest⟩⟩⟩⟩
  · exact Rejects.atOnce (.plain .conditionalCount)
  · exact Rejects.atOnce (.plain .conditionalCount)
  · exact Rejects.atOnce (.plain .conditionalCount)
  · exact absurd (.conditional test consequent alternative) misfit
  · exact Rejects.atOnce (.plain .conditionalCount)

theorem cond_misfit (misfit : ¬ Keyword.Fits .cond operands) :
    RejectedAfter e operands [] fun eval => SpecialForm.cond eval e operands := by
  rcases clauses_cases operands with ⟨fits, _⟩ | ⟨_, rejects⟩
  · exact absurd fits misfit
  · obtain ⟨reject, rejects, same⟩ := rejects.bind (β := Value)
    exact ⟨reject, rejects, fun eval => same (SpecialForm.firstClause eval e)⟩

theorem assign_misfit (misfit : ¬ Keyword.Fits .assign operands) :
    RejectedAfter e operands [] fun eval => SpecialForm.assign eval e operands := by
  rcases operands with _ | ⟨target, _ | ⟨x, _ | ⟨y, rest⟩⟩⟩
  · exact Rejects.atOnce (.plain .assignCount)
  · simp only [SpecialForm.assign]
    exact Rejects.atOnce (.plain .assignCount)
  · have showing : Rejects [target, x] (Eval.malformedAt .assignTarget target : Eval Value) :=
      .showing _ List.mem_cons_self .here
    cases target with
    | symbol n => exact absurd (.assign n x) misfit
    | number | bool | text | list | unspecified | closure | native => exact showing.atOnce
  · simp only [SpecialForm.assign]
    exact Rejects.atOnce (.plain .assignCount)

theorem define_misfit (misfit : ¬ Keyword.Fits .define operands) :
    RejectedAfter e operands (Keyword.premature .define operands) fun eval => SpecialForm.define eval e operands := by
  rcases operands with _ | ⟨target, _ | ⟨x, _ | ⟨y, rest⟩⟩⟩
  · exact Rejects.atOnce (.plain .defineCount)
  · exact Rejects.atOnce (.plain .defineCount)
  · refine ⟨_, .showing .defineTarget (List.mem_cons_self (a := target)) .here, fun eval => ?_⟩
    cases target with
    | symbol n => exact absurd (.define n x) misfit
    | number | bool | text | list | unspecified | closure | native =>
      simp only [SpecialForm.define, Keyword.premature, evaluateAll, bind_assoc, pure_bind]
  · exact Rejects.atOnce (.plain .defineCount)

theorem lambda_misfit (misfit : ¬ Keyword.Fits .lambda operands) :
    RejectedAfter e operands [] fun _ => SpecialForm.lambda e operands := by
  unfold SpecialForm.lambda
  split
  · next params x xs =>
    split
    · next found =>
      cases params with
      | list vs =>
        have symbols : ∀ v ∈ vs, ∃ n, v = .symbol n := by
          rw [symbols?_eq_some found]
          simp
        exact absurd (.lambda x xs symbols) misfit
      | number | bool | text | symbol | unspecified | closure | native => cases found
    · exact Rejects.atOnce (.showing .lambdaParameters List.mem_cons_self .here)
  · exact Rejects.atOnce (.plain .lambdaCount)

theorem letIn_misfit (misfit : ¬ Keyword.Fits .letIn operands) :
    RejectedAfter e operands (Keyword.premature .letIn operands) fun eval => SpecialForm.letIn eval e operands := by
  rcases operands with _ | ⟨first, body⟩
  · exact Rejects.atOnce (.plain .letBindings)
  · cases first with
    | list bindings =>
      have wrong : ¬ ∀ v ∈ bindings, IsBinding v := fun h => misfit (.letIn body h)
      obtain ⟨part, mem, rest⟩ := letBindings_misfit e wrong
      refine ⟨_, .showing .letBinding List.mem_cons_self (.item mem .here), fun eval => ?_⟩
      simp only [SpecialForm.letIn, rest, Keyword.premature, bind_assoc, malformedAt_bind]
    | number | bool | text | symbol | unspecified | closure | native =>
      exact Rejects.atOnce (.plain .letBindings)

theorem run_misfit (e : ScopeId) {k : Keyword} (misfit : ¬ k.Fits operands) :
    ∃ reject : Eval Value, Rejects operands reject ∧ ∀ eval,
      SpecialForm.run eval e operands k = evaluateAll eval e (k.premature operands) >>= fun _ => reject := by
  cases k with
  | quote => exact quote_misfit misfit
  | conditional => exact conditional_misfit misfit
  | cond => exact cond_misfit misfit
  | assign => exact assign_misfit misfit
  | define => exact define_misfit misfit
  | lambda => exact lambda_misfit misfit
  | begin => exact absurd (.begin _) misfit
  | letIn => exact letIn_misfit misfit
  | and => exact absurd (.and _) misfit
  | or => exact absurd (.or _) misfit

/-- A special form whose operands do not fit is rejected; if it evaluates nothing too early, the store is as it was.
What it evaluates too early may leave another store, or fail before the form is rejected. -/
theorem evaluate_misfit (world : World) (depth : Nat) {k : Keyword} {operands : List Value} (e : ScopeId) (s : Store)
    (misfit : ¬ k.Fits operands) (writable : ∀ v ∈ operands, v.isWritable = true) :
    ∃ fault,
      (k.premature operands = [] →
        (evaluate world (depth + 1) (.list (.named k.name :: operands)) e).run s = (.error (.malformed fault), s)) ∧
      (evaluate world (depth + 1) (.list (.named k.name :: operands)) e).run s =
        match (evaluateAll (evaluate world depth) e (k.premature operands)).run s with
        | (.ok _, t) => (.error (.malformed fault), t)
        | (.error f, t) => (.error f, t) := by
  obtain ⟨reject, rejects, run⟩ := run_misfit e misfit
  obtain ⟨fault, rejected⟩ := rejects.run writable
  have whole : (evaluate world (depth + 1) (.list (.named k.name :: operands)) e).run s =
      match (evaluateAll (evaluate world depth) e (k.premature operands)).run s with
      | (.ok _, t) => (.error (.malformed fault), t)
      | (.error f, t) => (.error f, t) := by
    rw [evaluate, evaluateStep_keyword, run, run_bind]
    split
    · next h => rw [h]; exact rejected _
    · next h => rw [h]
  refine ⟨fault, fun nothing => ?_, whole⟩
  rw [whole, nothing]
  rfl

theorem evaluate_misfit_of_early_else :
    let world : World := ⟨true, fun _ => HostProcedure.arguments⟩
    let assignment : Value := .list [.named "set!", .named "n", .bool true]
    let clauses : List Value :=
      [.list [assignment, .text "a"], .list [.named "else", .text "b"], .list [.text "c", .text "d"]]
    let s : Store := ⟨#[⟨[(⟨"n"⟩, .bool false)], none⟩], 0⟩
    ¬ Keyword.Fits .cond clauses ∧
      ∃ fault, (evaluate world 4 (.list (.named "cond" :: clauses)) 0).run s = (.error (.malformed fault), s) := by
  intro world assignment clauses s
  have misfit : ¬ Keyword.Fits .cond clauses := by
    intro fits
    cases fits with
    | cond _ last => exact last (.list [.named "else", .text "b"]) (by simp [clauses]) ⟨_, rfl⟩
  have writable : ∀ v ∈ clauses, v.isWritable = true := by
    simp [clauses, assignment, Value.isWritable, Value.allWritable]
  obtain ⟨fault, rejected, _⟩ := evaluate_misfit world 3 0 s misfit writable
  exact ⟨misfit, fault, rejected rfl⟩

/-- A definition of no symbol and a let with a wrong second binding do what they evaluate before they are rejected. -/
theorem misfit_after_assignment :
    let world : World := ⟨true, fun _ => HostProcedure.arguments⟩
    let assignment : Value := .list [.named "set!", .named "n", .bool true]
    let definition : List Value := [.bool true, assignment]
    let bindings : List Value := [.list [.list [.named "m", assignment], .named "m"], .named "m"]
    let s : Store := ⟨#[⟨[(⟨"n"⟩, .bool false)], none⟩], 0⟩
    let t : Store := ⟨#[⟨[(⟨"n"⟩, .bool true)], none⟩], 0⟩
    ¬ Keyword.Fits .define definition ∧ ¬ Keyword.Fits .letIn bindings ∧
      (evaluate world 4 (.list (.named "define" :: definition)) 0).run s =
        (.error (.malformed (.defineTarget "True")), t) ∧
      (evaluate world 4 (.list (.named "let" :: bindings)) 0).run s =
        (.error (.malformed (.letBinding "Symbol('m')")), t) := by
  refine ⟨nofun, fun fits => ?_, by rfl, by rfl⟩
  cases fits with
  | letIn _ each =>
    obtain ⟨n, x, binding⟩ := each (.named "m") (by simp)
    cases binding

end MicroScheme
