import MicroScheme.Proofs.Evaluation.Run
import MicroScheme.Proofs.Store.Agree

set_option autoImplicit false

/-!
Two runs side by side. From agreeing stores, alike expressions evaluate to alike values or fail in the same way,
and leave agreeing stores, unless one run ends in a failure for which it is excused (`Lawful.evaluate`).
-/

namespace MicroScheme.Pairing

variable {P : Pairing} {s t : Store} {e : ScopeId} {α β γ δ : Type}

/-- The runs end alike, or one of them has an excuse. -/
def Parallel (P : Pairing) (m : Eval α) (n : Eval β) (s t : Store) (post : α → β → Prop) : Prop :=
  (∃ f, P.leftExcused f ∧ (m.run s).1 = .error f) ∨ (∃ f, P.rightExcused f ∧ (n.run t).1 = .error f) ∨
    P.Agree (m.run s).2 (n.run t).2 ∧ Outcome post (m.run s).1 (n.run t).1

theorem parallel_of_run {m : Eval α} {n : Eval β} {post : α → β → Prop} {r : Except Failure α}
    {r' : Except Failure β} {s' t' : Store} (left : m.run s = (r, s')) (right : n.run t = (r', t'))
    (agree : P.Agree s' t') (outcome : Outcome post r r') : P.Parallel m n s t post := by
  unfold Parallel
  rw [left, right]
  exact .inr (.inr ⟨agree, outcome⟩)

theorem parallel_pure {post : α → β → Prop} {a : α} {b : β} (agree : P.Agree s t) (hab : post a b) :
    P.Parallel (pure a) (pure b) s t post :=
  parallel_of_run rfl rfl agree (.ok hab)

theorem parallel_throw {post : α → β → Prop} (f : Failure) (agree : P.Agree s t) :
    P.Parallel (throw f : Eval α) (throw f : Eval β) s t post :=
  parallel_of_run rfl rfl agree (.error f)

theorem parallel_bind {m : Eval α} {n : Eval β} {k : α → Eval γ} {l : β → Eval δ} {middle : α → β → Prop}
    {post : γ → δ → Prop} (first : P.Parallel m n s t middle)
    (rest : ∀ a b s' t', P.Agree s' t' → middle a b → P.Parallel (k a) (l b) s' t' post) :
    P.Parallel (m >>= k) (n >>= l) s t post := by
  unfold Parallel at first ⊢
  rw [run_bind, run_bind]
  rcases hm : m.run s with ⟨r, s'⟩
  rcases hn : n.run t with ⟨r', t'⟩
  rw [hm, hn] at first
  rcases first with ⟨f, excused, failed⟩ | ⟨f, excused, failed⟩ | ⟨agree, outcome⟩
  · cases failed
    exact .inl ⟨f, excused, rfl⟩
  · cases failed
    exact .inr (.inl ⟨f, excused, rfl⟩)
  · cases outcome with
    | ok hab => exact rest _ _ s' t' agree hab
    | error f => exact .inr (.inr ⟨agree, .error f⟩)

theorem parallel_written {k : String → Eval γ} {l : String → Eval δ} {post : γ → δ → Prop} (agree : P.Agree s t)
    (text : Option String) (rest : ∀ got, P.Parallel (k got) (l got) s t post) :
    P.Parallel (Eval.written text >>= k) (Eval.written text >>= l) s t post := by
  cases text with
  | some got => exact rest got
  | none => exact parallel_of_run (r := .error .digitLimit) rfl rfl agree (.error _)

theorem parallel_malformedAt {post : α → β → Prop} {v w : Value} (agree : P.Agree s t)
    (fault : String → FormFault) (hvw : P.Alike v w) :
    P.Parallel (Eval.malformedAt fault v : Eval α) (Eval.malformedAt fault w : Eval β) s t post := by
  unfold Eval.malformedAt
  rw [hvw.describe]
  exact parallel_written agree _ fun _ => parallel_throw _ agree

def Pairs (P : Pairing) (eval eval' : Evaluator) : Prop :=
  ∀ {s t e x y}, P.Agree s t → P.allowed e → P.Alike x y → P.Parallel (eval x e) (eval' y e) s t P.Alike

variable {eval eval' : Evaluator}

theorem Pairs.evaluateAll (pairs : P.Pairs eval eval') {xs ys : List Value} (agree : P.Agree s t)
    (he : P.allowed e) (h : List.Forall₂ P.Alike xs ys) :
    P.Parallel (evaluateAll eval e xs) (evaluateAll eval' e ys) s t (List.Forall₂ P.Alike) := by
  induction h generalizing s t with
  | nil => exact parallel_pure agree .nil
  | cons hxy _ ih =>
    rw [MicroScheme.evaluateAll, MicroScheme.evaluateAll]
    refine parallel_bind (pairs agree he hxy) fun v w s' t' agree' hvw => ?_
    refine parallel_bind (ih agree') fun vs ws s'' t'' agree'' hvws => ?_
    exact parallel_pure agree'' (.cons hvw hvws)

theorem Pairs.evaluateBody (pairs : P.Pairs eval eval') {xs ys : List Value} {v w : Value} (agree : P.Agree s t)
    (he : P.allowed e) (hvw : P.Alike v w) (h : List.Forall₂ P.Alike xs ys) :
    P.Parallel (evaluateBody eval e v xs) (evaluateBody eval' e w ys) s t P.Alike := by
  induction h generalizing s t v w with
  | nil => exact parallel_pure agree hvw
  | cons hxy _ ih =>
    rw [MicroScheme.evaluateBody, MicroScheme.evaluateBody]
    exact parallel_bind (pairs agree he hxy) fun _ _ s' t' agree' hvw => ih agree' hvw

theorem quote_parallel {xs ys : List Value} (agree : P.Agree s t) (h : List.Forall₂ P.Alike xs ys) :
    P.Parallel (SpecialForm.quote xs) (SpecialForm.quote ys) s t P.Alike := by
  rcases h with _ | ⟨hxy, _ | ⟨_, _⟩⟩
  · exact parallel_throw _ agree
  · have leaf : ∀ text : Option String, P.Parallel (do pure (.text (← Eval.written text)))
        (do pure (.text (← Eval.written text))) s t P.Alike := fun text =>
      parallel_written agree text fun got => parallel_pure agree (.text got)
    have texts := hxy.print false
    cases hxy with
    | list hs => exact parallel_pure agree (.list hs)
    | number | bool | text | symbol | unspecified | closure | native =>
      unfold SpecialForm.quote
      dsimp only
      rw [texts]
      exact leaf _
  · simp only [SpecialForm.quote]
    exact parallel_throw _ agree

theorem Pairs.conditional (pairs : P.Pairs eval eval') {xs ys : List Value} (agree : P.Agree s t)
    (he : P.allowed e) (h : List.Forall₂ P.Alike xs ys) :
    P.Parallel (SpecialForm.conditional eval e xs) (SpecialForm.conditional eval' e ys) s t P.Alike := by
  rcases h with _ | ⟨htest, _ | ⟨hthen, _ | ⟨helse, _ | ⟨_, _⟩⟩⟩⟩
  · exact parallel_throw _ agree
  · exact parallel_throw _ agree
  · exact parallel_throw _ agree
  · refine parallel_bind (pairs agree he htest) fun v w s' t' agree' hvw => ?_
    rw [hvw.isFalse]
    split
    · exact pairs agree' he helse
    · exact pairs agree' he hthen
  · exact parallel_throw _ agree

structure ClauseAlike (P : Pairing) (c d : SpecialForm.Clause) : Prop where
  test : P.Alike c.test d.test
  body : List.Forall₂ P.Alike c.body d.body

theorem ClauseAlike.isElse {c d : SpecialForm.Clause} (h : P.ClauseAlike c d) : c.isElse = d.isElse := by
  rcases c with ⟨test, body⟩
  rcases d with ⟨test', body'⟩
  cases h.test <;> rfl

theorem clause_alike {v w : Value} (h : P.Alike v w) :
    (SpecialForm.Clause.ofValue? v = none ∧ SpecialForm.Clause.ofValue? w = none) ∨
      ∃ c d, SpecialForm.Clause.ofValue? v = some c ∧ SpecialForm.Clause.ofValue? w = some d ∧
        P.ClauseAlike c d := by
  cases h with
  | list hs =>
    rcases hs with _ | ⟨htest, _ | ⟨hxy, hs⟩⟩
    · exact .inl ⟨rfl, rfl⟩
    · exact .inl ⟨rfl, rfl⟩
    · exact .inr ⟨_, _, rfl, rfl, htest, .cons hxy hs⟩
  | number | bool | text | symbol | unspecified | closure | native => exact .inl ⟨rfl, rfl⟩

theorem isEmpty_alike {xs ys : List Value} (h : List.Forall₂ P.Alike xs ys) : xs.isEmpty = ys.isEmpty := by
  cases h <;> rfl

theorem clauses_parallel {xs ys : List Value} (agree : P.Agree s t) (h : List.Forall₂ P.Alike xs ys) :
    P.Parallel (SpecialForm.clauses xs) (SpecialForm.clauses ys) s t (List.Forall₂ P.ClauseAlike) := by
  induction h with
  | nil => exact parallel_pure agree .nil
  | cons hxy hs ih =>
    rw [SpecialForm.clauses, SpecialForm.clauses]
    rcases clause_alike hxy with ⟨hx, hy⟩ | ⟨c, d, hx, hy, hcd⟩
    · rw [hx, hy]
      exact parallel_malformedAt agree _ hxy
    · rw [hx, hy]
      dsimp only
      rw [hcd.isElse, isEmpty_alike hs]
      split
      · exact parallel_throw _ agree
      · exact parallel_bind ih fun cs ds s' t' agree' hcds => parallel_pure agree' (.cons hcd hcds)

theorem Pairs.firstClause (pairs : P.Pairs eval eval') {cs ds : List SpecialForm.Clause} (agree : P.Agree s t)
    (he : P.allowed e) (h : List.Forall₂ P.ClauseAlike cs ds) :
    P.Parallel (SpecialForm.firstClause eval e cs) (SpecialForm.firstClause eval' e ds) s t P.Alike := by
  induction h generalizing s t with
  | nil => exact parallel_pure agree .unspecified
  | cons hcd _ ih =>
    rw [SpecialForm.firstClause, SpecialForm.firstClause, hcd.isElse]
    split
    · exact pairs.evaluateBody agree he .unspecified hcd.body
    · refine parallel_bind (pairs agree he hcd.test) fun v w s' t' agree' hvw => ?_
      rw [hvw.isFalse]
      split
      · exact ih agree'
      · exact pairs.evaluateBody agree' he .unspecified hcd.body

theorem Pairs.cond (pairs : P.Pairs eval eval') {xs ys : List Value} (agree : P.Agree s t) (he : P.allowed e)
    (h : List.Forall₂ P.Alike xs ys) :
    P.Parallel (SpecialForm.cond eval e xs) (SpecialForm.cond eval' e ys) s t P.Alike :=
  parallel_bind (clauses_parallel agree h) fun _ _ _ _ agree' hcds => pairs.firstClause agree' he hcds

theorem assign_parallel (agree : P.Agree s t) (he : P.allowed e) (n : Symbol) {v w : Value}
    (hvw : P.Alike v w) :
    P.Parallel (Eval.assign n v e) (Eval.assign n w e) s t fun _ _ => True := by
  have left := Eval.run_assign n v e s
  have right := Eval.run_assign n w e t
  rw [← agree.owner? he] at right
  cases ho : s.owner? e n with
  | none =>
    rw [ho] at left right
    exact parallel_of_run left right agree (.error _)
  | some d =>
    rw [ho] at left right
    have hd : P.allowed d := agree.allowed_of_chain he (Store.owner?_mem_chain ho)
    exact parallel_of_run left right (agree.define hd n hvw) (.ok trivial)

theorem Pairs.assign (pairs : P.Pairs eval eval') {xs ys : List Value} (agree : P.Agree s t) (he : P.allowed e)
    (h : List.Forall₂ P.Alike xs ys) :
    P.Parallel (SpecialForm.assign eval e xs) (SpecialForm.assign eval' e ys) s t P.Alike := by
  rcases h with _ | ⟨htarget, _ | ⟨hxy, _ | ⟨_, _⟩⟩⟩
  · exact parallel_throw _ agree
  · simp only [SpecialForm.assign]
    exact parallel_throw _ agree
  · have whole := htarget
    cases htarget with
    | symbol n =>
      refine parallel_bind (pairs agree he hxy) fun v w s' t' agree' hvw => ?_
      exact parallel_bind (assign_parallel agree' he n hvw) fun _ _ _ _ agree'' _ =>
        parallel_pure agree'' .unspecified
    | number | bool | text | list | unspecified | closure | native => exact parallel_malformedAt agree _ whole
  · simp only [SpecialForm.assign]
    exact parallel_throw _ agree

theorem Pairs.define (pairs : P.Pairs eval eval') {xs ys : List Value} (agree : P.Agree s t) (he : P.allowed e)
    (h : List.Forall₂ P.Alike xs ys) :
    P.Parallel (SpecialForm.define eval e xs) (SpecialForm.define eval' e ys) s t P.Alike := by
  rcases h with _ | ⟨htarget, _ | ⟨hxy, _ | ⟨_, _⟩⟩⟩
  · exact parallel_throw _ agree
  · exact parallel_throw _ agree
  · refine parallel_bind (pairs agree he hxy) fun v w s' t' agree' hvw => ?_
    have whole := htarget
    cases htarget with
    | symbol n => exact parallel_of_run rfl rfl (agree'.define he n hvw) (.ok .unspecified)
    | number | bool | text | list | unspecified | closure | native => exact parallel_malformedAt agree' _ whole
  · exact parallel_throw _ agree

theorem symbols?_alike {xs ys : List Value} (h : List.Forall₂ P.Alike xs ys) :
    SpecialForm.symbols? xs = SpecialForm.symbols? ys := by
  induction h with
  | nil => rfl
  | cons hxy _ ih =>
    cases hxy with
    | symbol n => rw [SpecialForm.symbols?, SpecialForm.symbols?, ih]
    | number | bool | text | list | unspecified | closure | native => rfl

theorem formals?_alike {v w : Value} (h : P.Alike v w) : SpecialForm.formals? v = SpecialForm.formals? w := by
  cases h with
  | list hs => exact symbols?_alike hs
  | number | bool | text | symbol | unspecified | closure | native => rfl

theorem sequence_alike {xs ys : List Value} (h : List.Forall₂ P.Alike xs ys) :
    P.Alike (SpecialForm.sequence xs) (SpecialForm.sequence ys) := by
  rcases h with _ | ⟨hxy, _ | ⟨hzu, hs⟩⟩
  · exact .list (.cons (.symbol _) .nil)
  · exact hxy
  · exact .list (.cons (.symbol _) (.cons hxy (.cons hzu hs)))

theorem lambda_parallel {xs ys : List Value} (agree : P.Agree s t) (he : P.allowed e)
    (h : List.Forall₂ P.Alike xs ys) :
    P.Parallel (SpecialForm.lambda e xs) (SpecialForm.lambda e ys) s t P.Alike := by
  rcases h with _ | ⟨hparams, _ | ⟨hxy, hs⟩⟩
  · exact parallel_throw _ agree
  · exact parallel_throw _ agree
  · rw [SpecialForm.lambda, SpecialForm.lambda, formals?_alike hparams]
    split
    · have body := sequence_alike (.cons hxy hs)
      exact parallel_of_run rfl rfl agree.newClosure (.ok (.closure _ (agree.closures 0) he body))
    · exact parallel_malformedAt agree _ hparams

theorem Pairs.letBindings (pairs : P.Pairs eval eval') {xs ys : List Value} {b c : Bindings} (agree : P.Agree s t)
    (he : P.allowed e) (hbc : Bindings.Alike P.same P.allowed b c) (h : List.Forall₂ P.Alike xs ys) :
    P.Parallel (SpecialForm.letBindings eval e b xs) (SpecialForm.letBindings eval' e c ys) s t
      (Bindings.Alike P.same P.allowed) := by
  induction h generalizing s t b c with
  | nil => exact parallel_pure agree hbc
  | cons hxy _ ih =>
    have whole := hxy
    cases hxy with
    | list hs =>
      rcases hs with _ | ⟨htarget, _ | ⟨hinit, _ | ⟨_, _⟩⟩⟩
      · exact parallel_malformedAt agree _ whole
      · cases htarget <;> exact parallel_malformedAt agree _ whole
      · cases htarget with
        | symbol n =>
          refine parallel_bind (pairs agree he hinit) fun v w s' t' agree' hvw => ?_
          exact ih agree' (bindings_put hbc n hvw)
        | number | bool | text | list | unspecified | closure | native => exact parallel_malformedAt agree _ whole
      · cases htarget <;> exact parallel_malformedAt agree _ whole
    | number | bool | text | symbol | unspecified | closure | native => exact parallel_malformedAt agree _ whole

theorem newScope_parallel (agree : P.Agree s t) {f g : Frame} (hfg : P.FrameAlike f g) :
    P.Parallel (Eval.newScope f) (Eval.newScope g) s t fun d d' => d = d' ∧ P.allowed d :=
  parallel_of_run rfl rfl (agree.addFrame hfg) (.ok ⟨agree.size, agree.fresh _ (Nat.le_refl _)⟩)

theorem Pairs.letIn (pairs : P.Pairs eval eval') {xs ys : List Value} (agree : P.Agree s t) (he : P.allowed e)
    (h : List.Forall₂ P.Alike xs ys) :
    P.Parallel (SpecialForm.letIn eval e xs) (SpecialForm.letIn eval' e ys) s t P.Alike := by
  rcases h with _ | ⟨hbindings, hbody⟩
  · exact parallel_throw _ agree
  · cases hbindings with
    | list hs =>
      refine parallel_bind (pairs.letBindings agree he .nil hs) fun b c s' t' agree' hbc => ?_
      have frames : P.FrameAlike ⟨b, some e⟩ ⟨c, some e⟩ := ⟨rfl, fun o ho => Option.some.inj ho ▸ he, hbc⟩
      refine parallel_bind (newScope_parallel agree' frames) fun d d' s'' t'' agree'' hd => ?_
      rw [← hd.1]
      exact pairs.evaluateBody agree'' hd.2 .unspecified hbody
    | number | bool | text | symbol | unspecified | closure | native => exact parallel_throw _ agree

theorem Pairs.and (pairs : P.Pairs eval eval') {xs ys : List Value} {v w : Value} (agree : P.Agree s t)
    (he : P.allowed e) (hvw : P.Alike v w) (h : List.Forall₂ P.Alike xs ys) :
    P.Parallel (SpecialForm.and eval e v xs) (SpecialForm.and eval' e w ys) s t P.Alike := by
  induction h generalizing s t v w with
  | nil => exact parallel_pure agree hvw
  | cons hxy _ ih =>
    rw [SpecialForm.and, SpecialForm.and]
    refine parallel_bind (pairs agree he hxy) fun v w s' t' agree' hvw => ?_
    rw [hvw.isFalse]
    split
    · exact parallel_pure agree' (.bool false)
    · exact ih agree' hvw

theorem Pairs.or (pairs : P.Pairs eval eval') {xs ys : List Value} (agree : P.Agree s t) (he : P.allowed e)
    (h : List.Forall₂ P.Alike xs ys) :
    P.Parallel (SpecialForm.or eval e xs) (SpecialForm.or eval' e ys) s t P.Alike := by
  induction h generalizing s t with
  | nil => exact parallel_pure agree (.bool false)
  | cons hxy _ ih =>
    rw [SpecialForm.or, SpecialForm.or]
    refine parallel_bind (pairs agree he hxy) fun v w s' t' agree' hvw => ?_
    rw [hvw.isFalse]
    split
    · exact ih agree'
    · exact parallel_pure agree' hvw

theorem Pairs.run (pairs : P.Pairs eval eval') (k : Keyword) {xs ys : List Value} (agree : P.Agree s t)
    (he : P.allowed e) (h : List.Forall₂ P.Alike xs ys) :
    P.Parallel (SpecialForm.run eval e xs k) (SpecialForm.run eval' e ys k) s t P.Alike := by
  cases k with
  | quote => exact quote_parallel agree h
  | conditional => exact pairs.conditional agree he h
  | cond => exact pairs.cond agree he h
  | assign => exact pairs.assign agree he h
  | define => exact pairs.define agree he h
  | lambda => exact lambda_parallel agree he h
  | begin => exact pairs.evaluateBody agree he .unspecified h
  | letIn => exact pairs.letIn agree he h
  | and => exact pairs.and agree he (.bool true) h
  | or => exact pairs.or agree he h

/-- From agreeing stores and with alike arguments, the procedures give alike values or raise the same error, and leave
agreeing stores. -/
def HostAlike (P : Pairing) (g h : HostProcedure) : Prop :=
  ∀ {s t e xs ys}, P.Agree s t → P.allowed e → List.Forall₂ P.Alike xs ys →
    P.Agree (g e xs s).2 (h e ys t).2 ∧ Outcome P.Alike (g e xs s).1 (h e ys t).1

/-- The two worlds have alike host procedures, and insist alike on the number of arguments unless the left run is
excused when it does. -/
structure Lawful (P : Pairing) (world world' : World) : Prop where
  matched : Value.Matches P.same
  arity : world.strictArity = world'.strictArity ∨
    world'.strictArity = false ∧ ∀ formals got, P.leftExcused (.wrongCount (.closure formals got))
  hosts : ∀ id, P.HostAlike (world.host id) (world'.host id)

variable {world world' : World}

theorem Lawful.bindParameters (laws : P.Lawful world world') (formals : List Symbol) {xs ys : List Value}
    (agree : P.Agree s t) (he : P.allowed e) (h : List.Forall₂ P.Alike xs ys) :
    P.Parallel (bindParameters world formals xs e) (bindParameters world' formals ys e) s t
      fun d d' => d = d' ∧ P.allowed d := by
  have bound := bindings_putAll (P := P) (b := []) (c := []) .nil (parameters_alike formals h)
  have frames : P.FrameAlike ⟨Bindings.putAll [] (parameters formals xs), some e⟩
      ⟨Bindings.putAll [] (parameters formals ys), some e⟩ := ⟨rfl, fun o ho => Option.some.inj ho ▸ he, bound⟩
  unfold MicroScheme.bindParameters
  rw [← h.length_eq]
  rcases laws.arity with equal | ⟨lax, excused⟩
  · rw [equal]
    split
    · exact parallel_throw _ agree
    · exact newScope_parallel agree frames
  · rw [lax, Bool.and_false]
    split
    · exact .inl ⟨_, excused formals xs.length, rfl⟩
    · exact newScope_parallel agree frames

theorem Lawful.call (laws : P.Lawful world world') (p : Native) {xs ys : List Value} (agree : P.Agree s t)
    (he : P.allowed e) (h : List.Forall₂ P.Alike xs ys) :
    P.Agree (p.call world e xs s).2 (p.call world' e ys t).2 ∧
      Outcome P.Alike (p.call world e xs s).1 (p.call world' e ys t).1 := by
  cases p with
  | primitive p => exact ⟨agree, p.call_alike laws.matched h⟩
  | host id label =>
    obtain ⟨left, outcome⟩ := laws.hosts id agree he h
    exact ⟨left, outcome.mapError _⟩

theorem Lawful.apply (laws : P.Lawful world world') (pairs : P.Pairs eval eval') {p q : Value}
    {xs ys : List Value} (agree : P.Agree s t) (he : P.allowed e) (hpq : P.Alike p q)
    (h : List.Forall₂ P.Alike xs ys) :
    P.Parallel (apply world eval p xs e) (apply world' eval' q ys e) s t P.Alike := by
  have whole := hpq
  cases hpq with
  | closure formals _ hd hxy =>
    refine parallel_bind (laws.bindParameters formals agree hd h) fun d d' s' t' agree' hd => ?_
    rw [← hd.1]
    exact pairs agree' hd.2 hxy
  | native p =>
    obtain ⟨agree', outcome⟩ := laws.call p agree he h
    exact parallel_of_run (run_apply_native world eval p xs e s) (run_apply_native world' eval' p ys e t) agree'
      (outcome.mapError _)
  | number | bool | text | symbol | list | unspecified =>
    unfold MicroScheme.apply
    dsimp only
    rw [whole.print]
    exact parallel_written agree _ fun _ => parallel_throw _ agree

theorem keyword?_alike {x y : Value} (h : P.Alike x y) : keyword? x = keyword? y := by
  cases h <;> rfl

theorem Lawful.evaluateStep (laws : P.Lawful world world') (pairs : P.Pairs eval eval') :
    P.Pairs (evaluateStep world eval) (evaluateStep world' eval') := by
  intro s t e x y agree he hxy
  cases hxy with
  | symbol n =>
    have left := Eval.run_lookup n e s
    have right := Eval.run_lookup n e t
    rcases agree.lookup? he n with ⟨hs, ht⟩ | ⟨v, w, hs, ht, hvw⟩
    · rw [hs] at left
      rw [ht] at right
      exact parallel_of_run left right agree (.error _)
    · rw [hs] at left
      rw [ht] at right
      exact parallel_of_run left right agree (.ok hvw)
  | list hs =>
    cases hs with
    | nil => exact parallel_pure agree (.list .nil)
    | cons hhead hs =>
      rw [MicroScheme.evaluateStep, MicroScheme.evaluateStep, keyword?_alike hhead]
      split
      · exact pairs.run _ agree he hs
      · refine parallel_bind (pairs agree he hhead) fun p q s' t' agree' hpq => ?_
        refine parallel_bind (pairs.evaluateAll agree' he hs) fun vs ws s'' t'' agree'' hvws => ?_
        exact laws.apply pairs agree'' he hpq hvws
  | number n => exact parallel_pure agree (.number n)
  | bool b => exact parallel_pure agree (.bool b)
  | text t => exact parallel_pure agree (.text t)
  | unspecified => exact parallel_pure agree .unspecified
  | closure formals hij hd hxy => exact parallel_pure agree (.closure formals hij hd hxy)
  | native p => exact parallel_pure agree (.native p)

theorem Lawful.evaluate (laws : P.Lawful world world') (depth depth' : Nat)
    (left : depth < depth' → P.leftExcused .tooDeep) (right : depth' < depth → P.rightExcused .tooDeep) :
    P.Pairs (evaluate world depth) (evaluate world' depth') := by
  induction depth generalizing depth' with
  | zero =>
    cases depth' with
    | zero => exact fun agree _ _ => parallel_throw _ agree
    | succ depth' => exact fun _ _ _ => .inl ⟨.tooDeep, left (Nat.succ_pos _), rfl⟩
  | succ depth ih =>
    cases depth' with
    | zero => exact fun _ _ _ => .inr (.inl ⟨.tooDeep, right (Nat.succ_pos _), rfl⟩)
    | succ depth' =>
      exact laws.evaluateStep (ih depth' (fun h => left (Nat.succ_lt_succ h)) fun h => right (Nat.succ_lt_succ h))

end MicroScheme.Pairing
