import MicroScheme.Proofs.Evaluation.Parallel

set_option autoImplicit false

namespace MicroScheme

/-- The scopes that the evaluation of an expression in a scope can get to. -/
inductive Store.Reaches (s : Store) (e : ScopeId) (x : Value) : ScopeId → Prop where
  | scope : Reaches s e x e
  | code {d : ScopeId} : x.Captures d → Reaches s e x d
  | outer {d o : ScopeId} : Reaches s e x d → (s.frame d).outer = some o → Reaches s e x o
  | bound {d c : ScopeId} {pair : Symbol × Value} :
    Reaches s e x d → pair ∈ (s.frame d).bindings → pair.2.Captures c → Reaches s e x c

/-- A value occurs in the expression or in what a reached scope binds. -/
def Store.Known (s : Store) (e : ScopeId) (x c : Value) : Prop :=
  c.Within x ∨ ∃ d, s.Reaches e x d ∧ ∃ pair ∈ (s.frame d).bindings, c.Within pair.2

/-- Closures correspond if both are old and one closure, or each is the same one of the new closures of its run. -/
def Store.Renumbers (s t : Store) (i j : Nat) : Prop :=
  (i = j ∧ i < s.closures ∧ i < t.closures) ∨ ∃ k, i = s.closures + k ∧ j = t.closures + k

/-- A host procedure that keeps the store, looks at no frame but the one from which it is called, and to which the number
of a closure says nothing but which closure it is. -/
structure HostProcedure.IgnoresNumbers (h : HostProcedure) : Prop extends KeepsStore h where
  alike : ∀ same allowed, Value.Matches same → ∀ e s t xs ys, (s.frame e).outer = (t.frame e).outer →
    Bindings.Alike same allowed (s.frame e).bindings (t.frame e).bindings →
      List.Forall₂ (Value.Alike same allowed) xs ys → Outcome (Value.Alike same allowed) (h e xs s).1 (h e ys t).1

namespace HostProcedure

variable {h : HostProcedure} {P : Pairing}

theorem IgnoresNumbers.confined (ignores : h.IgnoresNumbers) : h.Confined where
  keeps := ignores.keeps
  among numbers scopes e args s v hb ha run := by
    have bindings : Bindings.Alike (fun i j => i = j ∧ numbers i) scopes (s.frame e).bindings (s.frame e).bindings :=
      List.forall₂_same.2 fun pair mem => ⟨rfl, Value.alike_among.2 (hb pair mem)⟩
    have outcome := ignores.alike _ scopes (Value.matches_among numbers) e s s args args rfl bindings
      (List.forall₂_same.2 fun w mem => Value.alike_among.2 (ha w mem))
    rw [run] at outcome
    cases outcome with
    | ok alike => exact Value.alike_among.1 alike

theorem IgnoresNumbers.hostAlike (ignores : h.IgnoresNumbers) (matched : Value.Matches P.same) : P.HostAlike h h := by
  intro s t e xs ys agree he alike
  have frames := agree.frames e he
  rw [ignores.keeps, ignores.keeps]
  exact ⟨agree, ignores.alike _ _ matched e s t xs ys frames.outer frames.bindings alike⟩

theorem SeesFrame.hostAlike (sees : h.SeesFrame) (equal : ∀ i j, P.same i j ↔ i = j) : P.HostAlike h h := by
  intro s t e xs ys agree he alike
  have frames := agree.frames e he
  have arguments : List.Forall₂ (fun x y => x.MadeOf (fun i => ∃ j, P.same i j) P.allowed ∧ True) xs ys :=
    alike.imp fun _ _ hxy => ⟨hxy.madeOf, trivial⟩
  obtain rfl : xs = ys := List.forall₂_eq_eq_eq ▸ alike.imp fun _ _ hxy => hxy.eq fun i j => (equal i j).1
  rw [sees.keeps, sees.keeps, ← sees.sees e xs s t (frames.eq fun i j => (equal i j).1)]
  refine ⟨agree, ?_⟩
  cases run : (h e xs s).1 with
  | error f => exact .error f
  | ok v =>
    have made := sees.confined.among _ _ e xs s v frames.bindings.madeOf ((List.forall₂_and_left xs xs).1 arguments).1 run
    exact .ok (Value.alike_self fun id formals body d within =>
      ⟨(equal id id).2 rfl, (made id formals body d within).2⟩)

theorem constant_ignoresNumbers {v : Value} (plain : v.IsPlain) : (constant v).IgnoresNumbers where
  keeps _ _ _ := rfl
  alike _ _ _ _ _ _ _ _ _ _ _ := .ok (Value.alike_self fun id formals body d within =>
    (plain.noClosure _ within (.intro id formals body d)).elim)

theorem arguments_ignoresNumbers : arguments.IgnoresNumbers where
  keeps _ _ _ := rfl
  alike _ _ _ _ _ _ _ _ _ _ alike := .ok (.list alike)

end HostProcedure

/-- How two runs end that start in stores alike in the scopes `reached` and arbitrary elsewhere. -/
structure Local (reached : ScopeId → Prop) (s t : Store) (left right : Except Failure Value × Store) : Prop where
  outcome : Outcome (Value.Alike (s.Renumbers t) fun d => reached d ∨ s.frames.size ≤ d) left.1 right.1
  size : left.2.frames.size = right.2.frames.size
  outers : ∀ d, reached d ∨ s.frames.size ≤ d → (left.2.frame d).outer = (right.2.frame d).outer
  bindings : ∀ d, reached d ∨ s.frames.size ≤ d →
    Bindings.Alike (s.Renumbers t) (fun d => reached d ∨ s.frames.size ≤ d) (left.2.frame d).bindings
      (right.2.frame d).bindings
  others : ∀ d < s.frames.size, ¬ reached d → left.2.frame d = s.frame d ∧ right.2.frame d = t.frame d
  exact : s.closures = t.closures →
    left.1 = right.1 ∧ ∀ d, reached d ∨ s.frames.size ≤ d → left.2.frame d = right.2.frame d

namespace Store

variable {s t : Store} {e : ScopeId} {x : Value}

theorem renumbers_matches (s t : Store) : Value.Matches (s.Renumbers t) := by
  rintro i j k l (⟨rfl, hi, hi'⟩ | ⟨a, rfl, rfl⟩) (⟨rfl, hk, hk'⟩ | ⟨b, rfl, rfl⟩) <;> omega

theorem renumbers_eq (counts : s.closures = t.closures) {i j : Nat} (h : s.Renumbers t i j) : i = j := by
  rcases h with ⟨rfl, _⟩ | ⟨k, rfl, rfl⟩
  · rfl
  · rw [counts]

theorem renumbers_self (counts : s.closures = t.closures) (i : Nat) : s.Renumbers t i i := by
  rcases Nat.lt_or_ge i s.closures with old | new
  · exact .inl ⟨rfl, old, counts ▸ old⟩
  · obtain ⟨k, hk⟩ := Nat.exists_eq_add_of_le new
    exact .inr ⟨k, hk, counts ▸ hk⟩

/-- The reached scopes are the least that contain the first ones and what their frames refer to. -/
theorem Reaches.least {d : ScopeId} (h : s.Reaches e x d) {p : ScopeId → Prop} (scope : p e)
    (code : x.CapturesOnly p) (outer : ∀ c o, p c → (s.frame c).outer = some o → p o)
    (bound : ∀ c, p c → ∀ pair ∈ (s.frame c).bindings, pair.2.CapturesOnly p) : p d := by
  induction h with
  | scope => exact scope
  | code captured => exact code _ captured
  | outer _ ho ih => exact outer _ _ ih ho
  | bound _ mem captured ih => exact bound _ ih _ mem _ captured

theorem Known.reaches {id : Nat} {formals : List Symbol} {body : Value} {d : ScopeId}
    (known : s.Known e x (.closure id formals body d)) : s.Reaches e x d := by
  rcases known with within | ⟨c, hc, pair, mem, within⟩
  · exact .code ⟨id, formals, body, within⟩
  · exact .bound hc mem ⟨id, formals, body, within⟩

def besides (s t : Store) (e : ScopeId) (x : Value) : Pairing where
  same := s.Renumbers t
  allowed d := s.Reaches e x d ∨ s.frames.size ≤ d
  other d f g := f = s.frame d ∧ g = t.frame d
  leftExcused _ := False
  rightExcused _ := False

theorem known_alike
    (numbers : ∀ id formals body d, s.Known e x (.closure id formals body d) → s.Renumbers t id id) {v : Value}
    (known : ∀ c, c.Within v → s.Known e x c) : (besides s t e x).Alike v v :=
  Value.alike_self fun id formals body d within =>
    ⟨numbers id formals body d (known _ within), .inl (known _ within).reaches⟩

theorem besides_agree (sizes : s.frames.size = t.frames.size)
    (frames : ∀ d, s.Reaches e x d → t.frame d = s.frame d)
    (numbers : ∀ id formals body d, s.Known e x (.closure id formals body d) → s.Renumbers t id id) :
    (besides s t e x).Agree s t where
  size := sizes
  closures k := .inr ⟨k, rfl, rfl⟩
  fresh _ hd := .inr hd
  frames d hd := by
    rcases hd with reached | new
    · rw [frames d reached]
      refine ⟨rfl, fun o ho => .inl (reached.outer ho), List.forall₂_same.2 fun pair mem => ⟨rfl, ?_⟩⟩
      exact known_alike numbers fun c within => .inr ⟨d, reached, pair, mem, within⟩
    · rw [frame_of_ge new, frame_of_ge (sizes ▸ new)]
      exact ⟨rfl, fun _ absent => (nomatch absent), .nil⟩
  others _ _ := ⟨rfl, rfl⟩

theorem besides_lawful {world : World} (hosts : ∀ id, (world.host id).SeesFrame)
    (numbers : s.closures = t.closures ∨ ∀ id, (world.host id).IgnoresNumbers) :
    (besides s t e x).Lawful world world where
  matched := renumbers_matches s t
  arity := .inl rfl
  hosts id := by
    rcases numbers with counts | ignore
    · exact (hosts id).hostAlike fun i j => ⟨renumbers_eq counts, fun equal => equal ▸ renumbers_self counts i⟩
    · exact (ignore id).hostAlike (renumbers_matches s t)

end Store

/-- Evaluation in two stores that agree on the reached scopes ends alike; it leaves the scopes that it does not
reach as they are. If both stores have made equally many closures, it ends the same. -/
theorem evaluate_local (world : World) (depth : Nat) (x : Value) (e : ScopeId) (s t : Store)
    (hosts : ∀ id, (world.host id).SeesFrame) (sizes : s.frames.size = t.frames.size)
    (frames : ∀ d, s.Reaches e x d → t.frame d = s.frame d)
    (numbers : s.closures = t.closures ∨
      (∀ id formals body d, s.Known e x (.closure id formals body d) → id < s.closures ∧ id < t.closures) ∧
        ∀ id, (world.host id).IgnoresNumbers) :
    Local (s.Reaches e x) s t ((evaluate world depth x e).run s) ((evaluate world depth x e).run t) := by
  have known : ∀ id formals body d, s.Known e x (.closure id formals body d) → s.Renumbers t id id := by
    intro id formals body d closure
    rcases numbers with counts | ⟨old, _⟩
    · exact Store.renumbers_self counts id
    · exact .inl ⟨rfl, old id formals body d closure⟩
  have laws : (s.besides t e x).Lawful world world := Store.besides_lawful hosts (numbers.imp_right And.right)
  have code : (s.besides t e x).Alike x x := Store.known_alike known fun c within => .inl within
  have runs := laws.evaluate depth depth (absurd · (Nat.lt_irrefl _)) (absurd · (Nat.lt_irrefl _))
    (Store.besides_agree sizes frames known) (.inl .scope) code
  rcases runs with ⟨_, none, _⟩ | ⟨_, none, _⟩ | ⟨agree, outcome⟩
  · exact none.elim
  · exact none.elim
  · refine ⟨outcome, agree.size, fun d hd => (agree.frames d hd).outer, fun d hd => (agree.frames d hd).bindings,
      fun d hd unreached => agree.others d ?_, fun counts => ⟨?_, fun d hd => ?_⟩⟩
    · rintro (reached | new)
      · exact unreached reached
      · exact Nat.not_le_of_lt hd new
    · exact outcome.eq fun v w hvw => hvw.eq fun i j => Store.renumbers_eq counts
    · exact (agree.frames d hd).eq fun i j => Store.renumbers_eq counts

theorem evaluate_local_of_assignment :
    let world : World := ⟨true, fun _ => HostProcedure.arguments⟩
    let x : Value := .list [.named "set!", .named "n", .list [.named "lambda", .list [], .named "n"]]
    let s : Store := ⟨#[⟨[(⟨"n"⟩, .int 1)], none⟩, ⟨[], none⟩], 0⟩
    let t : Store := ⟨#[⟨[(⟨"n"⟩, .int 1)], none⟩, ⟨[(⟨"n"⟩, .int 2)], some 0⟩], 3⟩
    Local (s.Reaches 0 x) s t ((evaluate world 4 x 0).run s) ((evaluate world 4 x 0).run t) := by
  intro world x s t
  have plain : ∀ p : ScopeId → Prop, x.CapturesOnly p := by
    intro p
    have name : ∀ n, (Value.named n).CapturesOnly p := fun n => Value.IsPlain.capturesOnly trivial
    simp [x, Value.capturesOnly_list, name]
  have bound : ∀ pair ∈ (s.frame 0).bindings, ∀ p : ScopeId → Prop, pair.2.CapturesOnly p := by
    intro pair mem p
    rw [List.mem_singleton.1 mem]
    exact Value.IsPlain.capturesOnly trivial
  have reached : ∀ d, s.Reaches 0 x d → d = 0 := by
    intro d h
    refine h.least (p := (· = 0)) rfl (plain _) ?_ ?_
    · rintro c o rfl absent
      cases absent
    · rintro c rfl pair mem
      exact bound pair mem _
  have unknown : ∀ id formals body d, ¬ s.Known 0 x (.closure id formals body d) := by
    rintro id formals body d (within | ⟨c, hc, pair, mem, within⟩)
    · exact plain (fun _ => False) d ⟨id, formals, body, within⟩
    · rw [reached c hc] at mem
      exact bound pair mem (fun _ => False) d ⟨id, formals, body, within⟩
  refine evaluate_local world 4 x 0 s t (fun _ => HostProcedure.arguments_seesFrame) rfl ?_ (.inr ⟨?_, ?_⟩)
  · intro d h
    rw [reached d h]
    rfl
  · exact fun id formals body d known => (unknown id formals body d known).elim
  · exact fun _ => HostProcedure.arguments_ignoresNumbers

end MicroScheme
