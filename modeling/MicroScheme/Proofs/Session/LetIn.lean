import MicroScheme.Proofs.Evaluation.Locality
import MicroScheme.Proofs.Evaluation.Shape
import MicroScheme.Proofs.Session.WellFormed

set_option autoImplicit false

namespace MicroScheme

def letOf (bindings : List (Symbol × Value)) (body : List Value) : Value :=
  .list (.named Keyword.letIn.name :: .list (bindings.map fun pair => .list [.symbol pair.1, pair.2]) :: body)

def lambdaOf (names : List Symbol) (body : List Value) : Value :=
  .list (.named Keyword.lambda.name :: .list (names.map .symbol) :: body)

def appliedOf (bindings : List (Symbol × Value)) (body : List Value) : Value :=
  .list (lambdaOf (bindings.map Prod.fst) body :: bindings.map Prod.snd)

def Store.afterClosure (s : Store) : Store := { s with closures := s.closures + 1 }

theorem run_lambdaOf (world : World) (depth : Nat) (names : List Symbol) (x : Value) (xs : List Value) (e : ScopeId)
    (s : Store) : (evaluate world (depth + 1) (lambdaOf names (x :: xs)) e).run s =
      (.ok (.closure s.closures names (SpecialForm.sequence (x :: xs)) e), s.afterClosure) := by
  rw [evaluate, lambdaOf, evaluateStep_keyword, SpecialForm.run, SpecialForm.lambda, SpecialForm.formals?,
    symbols?_map]
  rfl

theorem bindParameters_of_length (world : World) {formals : List Symbol} {args : List Value}
    (length : args.length = formals.length) (d : ScopeId) :
    bindParameters world formals args d = Eval.newScope ⟨Bindings.putAll [] (parameters formals args), some d⟩ := by
  have counted : (args.length ≠ formals.length && world.strictArity) = false := by simp [length]
  rw [bindParameters, counted]
  rfl

namespace Pairing

variable {P : Pairing} {s t : Store} {e : ScopeId} {α β γ : Type} {eval eval' : Evaluator} {world world' : World}

theorem parallel_after {m : Eval α} {n : Eval γ} {l : γ → Eval β} {post : α → β → Prop} {c : γ} {t' : Store}
    (silent : n.run t = (.ok c, t')) (rest : P.Parallel m (l c) s t' post) : P.Parallel m (n >>= l) s t post := by
  unfold Parallel
  rw [run_bind, silent]
  exact rest

theorem parallel_map {m : Eval α} {n : Eval γ} {f : γ → β} {middle : α → γ → Prop} {post : α → β → Prop}
    (first : P.Parallel m n s t middle) (result : ∀ a c, middle a c → post a (f c)) :
    P.Parallel m (n >>= fun c => pure (f c)) s t post := by
  rw [← bind_pure m]
  exact parallel_bind first fun a c _ _ agree h => parallel_pure agree (result a c h)

theorem letBindings_evaluateAll (pairs : P.Pairs eval eval') {bindings : List (Symbol × Value)}
    (agree : P.Agree s t) (he : P.allowed e) (inits : ∀ pair ∈ bindings, P.Alike pair.2 pair.2) {b c : Bindings}
    (hbc : Bindings.Alike P.same P.allowed b c) :
    P.Parallel (SpecialForm.letBindings eval e b (bindings.map fun pair => .list [.symbol pair.1, pair.2]))
      (evaluateAll eval' e (bindings.map Prod.snd)) s t fun bound vs => vs.length = (bindings.map Prod.fst).length ∧
        Bindings.Alike P.same P.allowed bound (c.putAll (parameters (bindings.map Prod.fst) vs)) := by
  induction bindings generalizing s t b c with
  | nil => exact parallel_pure agree ⟨rfl, hbc⟩
  | cons pair bindings ih =>
    obtain ⟨hinit, hinits⟩ := List.forall_mem_cons.1 inits
    rw [List.map_cons, SpecialForm.letBindings, List.map_cons, evaluateAll]
    refine parallel_bind (pairs agree he hinit) fun v w s' t' agree' hvw => ?_
    refine parallel_map (ih agree' hinits (bindings_put hbc pair.1 hvw)) fun bound vs h => ?_
    exact ⟨congrArg (· + 1) h.1, h.2⟩

theorem evaluateBody_sequence (laws : P.Lawful world world') (left : P.leftExcused .tooDeep)
    (right : P.rightExcused .tooDeep) (depth depth' : Nat) {x : Value} {xs : List Value} (agree : P.Agree s t)
    (he : P.allowed e) (body : ∀ y ∈ x :: xs, P.Alike y y) :
    P.Parallel (evaluateBody (evaluate world depth) e .unspecified (x :: xs))
      (evaluate world' depth' (SpecialForm.sequence (x :: xs)) e) s t P.Alike := by
  cases xs with
  | nil =>
    rw [evaluateBody]
    change P.Parallel (evaluate world depth x e >>= pure) _ s t _
    rw [bind_pure]
    exact laws.evaluate depth depth' (fun _ => left) (fun _ => right) agree he (body x List.mem_cons_self)
  | cons y ys =>
    cases depth' with
    | zero => exact .inr (.inl ⟨.tooDeep, right, rfl⟩)
    | succ depth' =>
      rw [evaluate, SpecialForm.sequence, evaluateStep_keyword]
      · have pairs : P.Pairs (evaluate world depth) (evaluate world' depth') :=
          laws.evaluate depth depth' (fun _ => left) fun _ => right
        exact pairs.evaluateBody agree he .unspecified (List.forall₂_same.2 body)
      · simp

theorem letOf_parallel (laws : P.Lawful world world') (left : P.leftExcused .tooDeep)
    (right : P.rightExcused .tooDeep) (depth depth' : Nat) {bindings : List (Symbol × Value)} {x : Value}
    {xs : List Value} (agree : P.Agree s t.afterClosure) (he : P.allowed e) (inits : ∀ pair ∈ bindings, P.Alike pair.2 pair.2)
    (body : ∀ y ∈ x :: xs, P.Alike y y) :
    P.Parallel (evaluate world depth (letOf bindings (x :: xs)) e)
      (evaluate world' depth' (appliedOf bindings (x :: xs)) e) s t P.Alike := by
  cases depth with
  | zero => exact .inl ⟨.tooDeep, left, rfl⟩
  | succ depth =>
    rcases depth' with _ | _ | depth'
    · exact .inr (.inl ⟨.tooDeep, right, rfl⟩)
    · exact .inr (.inl ⟨.tooDeep, right, rfl⟩)
    · have pairs : P.Pairs (evaluate world depth) (evaluate world' (depth' + 1)) :=
        laws.evaluate depth (depth' + 1) (fun _ => left) fun _ => right
      rw [evaluate, letOf, evaluateStep_keyword, evaluate, appliedOf]
      -- the right run makes its closure, and from there on the two do the same
      refine parallel_after (run_lambdaOf world' depth' _ x xs e t) ?_
      refine parallel_bind (letBindings_evaluateAll pairs agree he inits .nil) fun bound vs s' t' agree' h => ?_
      rw [apply, bindParameters_of_length world' h.1]
      have outward : ∀ o, some e = some o → P.allowed o := fun o ho => Option.some.inj ho ▸ he
      refine parallel_bind (newScope_parallel agree' ⟨rfl, outward, h.2⟩) fun d d' s'' t'' agree'' hd => ?_
      rw [← hd.1]
      exact evaluateBody_sequence laws left right depth (depth' + 1) agree'' hd.2 body

end Pairing

/-- Two runs of which the right one has made one more closure. -/
def Store.oneMore (s : Store) : Pairing where
  same := s.Renumbers s.afterClosure
  allowed _ := True
  other _ _ _ := True
  leftExcused f := f = .tooDeep
  rightExcused f := f = .tooDeep

theorem Store.Admits.alike {s : Store} {v : Value} (h : s.Admits v) : s.oneMore.Alike v v :=
  Value.alike_self fun id formals body d within =>
    have old := (h id formals body d within).1
    ⟨.inl ⟨rfl, old, Nat.lt_succ_of_lt old⟩, trivial⟩

theorem Store.Closed.oneMore_agree {s : Store} (h : s.Closed) : s.oneMore.Agree s s.afterClosure where
  size := rfl
  closures k := .inr ⟨k, rfl, rfl⟩
  fresh _ _ := trivial
  frames d _ :=
    ⟨rfl, fun _ _ => trivial, List.forall₂_same.2 fun pair mem => ⟨rfl, Store.Admits.alike (h.admits d pair mem)⟩⟩
  others _ _ := trivial

/-- How two runs end if the numbers of closures do not count: with alike values or the same failure, and in every
scope with alike values for the same symbols in the same order. -/
structure AlikeUpTo (same : Nat → Nat → Prop) (left right : Except Failure Value × Store) : Prop where
  consistent : Value.Matches same
  outcome : Outcome (Value.Alike same fun _ => True) left.1 right.1
  size : left.2.frames.size = right.2.frames.size
  outers : ∀ d, (left.2.frame d).outer = (right.2.frame d).outer
  bindings : ∀ d, Bindings.Alike same (fun _ => True) (left.2.frame d).bindings (right.2.frame d).bindings

/-- In every session a let ends as the lambda of its symbols that is applied to its expressions, whatever they are,
if neither gets too deep. -/
theorem evaluate_letIn {o : SessionOptions} (hosts : ∀ pair ∈ o.hosts, pair.2.IgnoresNumbers) {s : Session}
    {known : Value → Prop} (reached : Session.Reached o s known) (bindings : List (Symbol × Value)) (x : Value)
    (xs : List Value) (parts : ∀ c : Value, c.IsClosure → c.Within (letOf bindings (x :: xs)) → known c) (e : ScopeId)
    (depth depth' : Nat)
    (left : ((evaluate s.world depth (letOf bindings (x :: xs)) e).run s.store).1 ≠ .error .tooDeep)
    (right : ((evaluate s.world depth' (appliedOf bindings (x :: xs)) e).run s.store).1 ≠ .error .tooDeep) :
    AlikeUpTo (s.store.Renumbers s.store.afterClosure)
      ((evaluate s.world depth (letOf bindings (x :: xs)) e).run s.store)
      ((evaluate s.world depth' (appliedOf bindings (x :: xs)) e).run s.store) := by
  obtain ⟨hs, admits, same⟩ := reached.admits fun pair mem => (hosts pair mem).confined
  have ignore : ∀ id, (s.world.host id).IgnoresNumbers :=
    Session.world_host (same ▸ hosts) (HostProcedure.constant_ignoresNumbers trivial)
  have consistent : Value.Matches (s.store.Renumbers s.store.afterClosure) := Store.renumbers_matches _ _
  have laws : s.store.oneMore.Lawful s.world s.world := ⟨consistent, .inl rfl, fun id => (ignore id).hostAlike consistent⟩
  have whole : s.store.Admits (letOf bindings (x :: xs)) :=
    Value.madeOf_of_closures fun c closure within => admits c (parts c closure within)
  obtain ⟨_, hbindings, hbody⟩ : _ ∧ s.store.Admits _ ∧ ∀ y ∈ x :: xs, s.store.Admits y := by
    simpa only [List.forall_mem_cons] using Value.madeOf_list.1 whole
  have inits : ∀ pair ∈ bindings, s.store.Admits pair.2 := fun pair mem =>
    Value.madeOf_list.1 (Value.madeOf_list.1 hbindings _ (List.mem_map_of_mem mem)) _ (by simp)
  have runs := Pairing.letOf_parallel laws rfl rfl depth depth' hs.store.oneMore_agree (e := e) trivial
    (fun pair mem => (inits pair mem).alike) fun y mem => (hbody y mem).alike
  rcases runs with ⟨_, rfl, ended⟩ | ⟨_, rfl, ended⟩ | ⟨agree, outcome⟩
  · exact (left ended).elim
  · exact (right ended).elim
  · exact ⟨consistent, outcome, agree.size, fun d => (agree.frames d trivial).outer, fun d =>
      (agree.frames d trivial).bindings⟩

theorem evaluate_letIn_of_duplicate :
    let bindings : List (Symbol × Value) :=
      [(⟨"begin"⟩, lambdaOf [] [.int 1]), (⟨"begin"⟩, lambdaOf [⟨"n"⟩] [.named "begin", .named "n"])]
    let closure (id : Nat) : Value :=
      .closure id [⟨"n"⟩] (.list [.named "begin", .named "begin", .named "n"]) Store.root
    ∃ s known, Session.Reached ⟨.none, none, ⟨[], none⟩, none, [("echo", HostProcedure.arguments)]⟩ s known ∧
      let left := (evaluate s.world 6 (letOf bindings [.int 2, .named "begin"]) Store.root).run s.store
      let right := (evaluate s.world 6 (appliedOf bindings [.int 2, .named "begin"]) Store.root).run s.store
      left.1 = .ok (closure 1) ∧ right.1 = .ok (closure 2) ∧
        AlikeUpTo (s.store.Renumbers s.store.afterClosure) left right := by
  intro bindings closure
  let o : SessionOptions := ⟨.none, none, ⟨[], none⟩, none, [("echo", HostProcedure.arguments)]⟩
  let s : Session := ⟨true, o.hosts, Session.bindHosts 0 Session.primitiveStore o.hosts,
    [(Session.rootName, Store.root)]⟩
  have hosts : ∀ pair ∈ o.hosts, pair.2.IgnoresNumbers := by
    intro pair mem
    rw [List.mem_singleton.1 mem]
    exact HostProcedure.arguments_ignoresNumbers
  have started : Session.start 4 o = .ok s := rfl
  have reached := Session.Reached.start 4 started
  have left : ((evaluate s.world 6 (letOf bindings [.int 2, .named "begin"]) Store.root).run s.store).1 =
      .ok (closure 1) := rfl
  have right : ((evaluate s.world 6 (appliedOf bindings [.int 2, .named "begin"]) Store.root).run s.store).1 =
      .ok (closure 2) := rfl
  have plain : (letOf bindings [.int 2, .named "begin"]).MadeOf (fun _ => False) fun _ => False := by
    have name : ∀ n, (Value.named n).MadeOf (fun _ => False) fun _ => False := fun n => Value.IsPlain.madeOf trivial
    have int : ∀ n, (Value.int n).MadeOf (fun _ => False) fun _ => False := fun n => Value.IsPlain.madeOf trivial
    simp [bindings, letOf, lambdaOf, Value.madeOf_list, name, int]
  refine ⟨s, _, reached, left, right, evaluate_letIn hosts reached bindings _ _ ?_ _ 6 6 ?_ ?_⟩
  · intro c closure within
    cases closure with
    | intro id formals body d => exact (plain id formals body d within).1.elim
  · rw [left]
    exact fun ended => nomatch ended
  · rw [right]
    exact fun ended => nomatch ended

end MicroScheme
