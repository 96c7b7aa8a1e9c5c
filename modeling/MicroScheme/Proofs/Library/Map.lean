import MicroScheme.Proofs.Binary64.Integer
import MicroScheme.Proofs.Evaluation.Hidden
import MicroScheme.Proofs.Library.Bindings

set_option autoImplicit false

/-!
The map of the library. It is code in the language, and so every call of its procedure is made somewhere inside the
evaluation of that code. Main statement: with enough depth, map calls the procedure on the items of the list in order
and once on each, every call in the store that the one before it has left, and ends with the values in order or as the
first call that fails (`map_calls`).
-/

namespace MicroScheme.Library

def mapNames : List String := ["map", "null?", "length", "=", "list", "cons", "car", "cdr"]

def mapBound (f : Value) (xs : List Value) : Bindings := [(⟨"f"⟩, f), (⟨"xs"⟩, .list xs)]

def nullBound (xs : List Value) : Bindings := [(⟨"xs"⟩, .list xs)]

def entered (s : Store) (f : Value) (xs : List Value) : Store :=
  (s.addFrame ⟨mapBound f xs, some Store.root⟩).addFrame ⟨nullBound xs, some Store.root⟩

/-- From the first store to the second the procedure has been called on the items of the first list up to those of the
last, in order and once on each, and has given these values. Each call is made from the scope of map for it. -/
inductive Calls (world : World) (f : Value) : Store → List Value → List Value → List Value → Store → Prop where
  | start {s : Store} {xs : List Value} : Calls world f s xs [] xs s
  | next {s t u : Store} {x v : Value} {xs vs rest : List Value} :
    CallEnds world f [x] s.nextScope (entered s f (x :: xs)) (.ok v) t → Calls world f t xs vs rest u →
      Calls world f s (x :: xs) (v :: vs) rest u

/-- How map ends: after a call on every item, or with the first call that fails. -/
inductive Maps (world : World) (f : Value) (s : Store) (xs : List Value) : Except Failure Value → Store → Prop where
  | done {vs : List Value} {t : Store} : Calls world f s xs vs [] t →
    Maps world f s xs (.ok (.list vs)) (entered t f [])
  | failed {x : Value} {vs rest : List Value} {t u : Store} {g : Failure} : Calls world f s xs vs (x :: rest) t →
    CallEnds world f [x] t.nextScope (entered t f (x :: rest)) (.error g) u → Maps world f s xs (.error g) u

variable {world : World} {n : Nat} {f x v : Value} {xs vs rest : List Value} {s t u : Store} {c e : ScopeId}
  {r : Except Failure Value}

theorem Calls.items (h : Calls world f s xs vs rest t) : ∃ done, xs = done ++ rest ∧ done.length = vs.length := by
  induction h with
  | start => exact ⟨[], rfl, rfl⟩
  | next _ _ ih =>
    obtain ⟨done, split, length⟩ := ih
    exact ⟨_ :: done, congrArg _ split, congrArg (· + 1) length⟩

inductive FirstThen (world : World) (f : Value) (s : Store) (x : Value) (xs : List Value)
    (rest : Store → Except Failure Value → Store → Prop) : Except Failure Value → Store → Prop where
  | failed {g : Failure} {t : Store} : CallEnds world f [x] s.nextScope (entered s f (x :: xs)) (.error g) t →
    FirstThen world f s x xs rest (.error g) t
  | later {v : Value} {g : Failure} {t u : Store} :
    CallEnds world f [x] s.nextScope (entered s f (x :: xs)) (.ok v) t → rest t (.error g) u →
      FirstThen world f s x xs rest (.error g) u
  | done {v : Value} {vs : List Value} {t u : Store} :
    CallEnds world f [x] s.nextScope (entered s f (x :: xs)) (.ok v) t → rest t (.ok (.list vs)) u →
      FirstThen world f s x xs rest (.ok (.list (v :: vs))) u

theorem FirstThen.mono {rest rest' : Store → Except Failure Value → Store → Prop}
    (h : FirstThen world f s x xs rest r u)
    (more : ∀ v t, CallEnds world f [x] s.nextScope (entered s f (x :: xs)) (.ok v) t → ∀ r u, rest t r u → rest' t r u) :
    FirstThen world f s x xs rest' r u := by
  cases h with
  | failed call => exact .failed call
  | later call h => exact .later call (more _ _ call _ _ h)
  | done call h => exact .done call (more _ _ call _ _ h)

theorem maps_nil_iff : Maps world f s [] r u ↔ r = .ok (.list []) ∧ u = entered s f [] := by
  constructor
  · rintro (⟨⟨⟩⟩ | ⟨⟨⟩, _⟩)
    exact ⟨rfl, rfl⟩
  · rintro ⟨rfl, rfl⟩
    exact .done .start

theorem maps_cons_iff : Maps world f s (x :: xs) r u ↔ FirstThen world f s x xs (Maps world f · xs) r u := by
  constructor
  · rintro (⟨_ | ⟨call, calls⟩⟩ | ⟨_ | ⟨call, calls⟩, last⟩)
    · exact .done call (.done calls)
    · exact .failed last
    · exact .later call (.failed calls last)
  · rintro (last | ⟨call, ⟨⟩ | ⟨calls, last⟩⟩ | ⟨call, calls⟩)
    · exact .failed .start last
    · exact .failed (.next call calls) last
    · cases calls with
      | done calls => exact .done (.next call calls)

theorem Maps.list (h : Maps world f s xs (.ok v) u) : ∃ vs, v = .list vs := by
  cases h with
  | done => exact ⟨_, rfl⟩

theorem call_equal_int (m n : Int) : Primitive.equal.call [.int m, .int n] = .ok (.bool (decide (m = n))) := by
  simp only [Primitive.call, Primitive.chained, Value.equal, Value.equalInside, Number.equal_int, Bool.and_true]
  rfl

theorem hasValue_nullBody (h : Running mapNames t c (nullBound xs)) :
    HasValue (evaluate world (n + 3)) c t nullBody (.bool xs.isEmpty) := by
  have free (p : Primitive) : (nullBound xs).get? ⟨p.operator⟩ = none := by
    cases p <;> rfl
  have items : HasValue (evaluate world (n + 1)) c t (.named "xs") (.list xs) := h.hasValue_own rfl
  have length : HasValue (evaluate world (n + 2)) c t (headed "length" [.named "xs"]) (.int xs.length) :=
    h.hasValue_primitive (p := .length) (by decide) (free _) (.cons items .nil) rfl
  have empty : decide ((xs.length : Int) = 0) = xs.isEmpty := by
    cases xs with
    | nil => rfl
    | cons x xs =>
      simp
      omega
  exact h.hasValue_primitive (p := .equal) (by decide) (free _) (.cons length (.cons (hasValue_number _) .nil))
    (empty ▸ call_equal_int xs.length 0)

section

variable (h : Running mapNames t c (mapBound f xs))
include h

theorem hasValue_name {name : String} (mem : name ∈ mapNames) (bound : bindings.get? ⟨name⟩ = some v) :
    HasValue (evaluate world (n + 1)) c t (.named name) v := by
  refine h.hasValue_root mem ?_ bound
  simp only [mapNames, List.mem_cons, List.not_mem_nil, or_false] at mem
  rcases mem with rfl | rfl | rfl | rfl | rfl | rfl | rfl | rfl <;> simp [mapBound, Bindings.get?]

theorem hasValue_items : HasValue (evaluate world (n + 1)) c t (.named "xs") (.list xs) := h.hasValue_own rfl

theorem hasValue_procedure : HasValue (evaluate world (n + 1)) c t (.named "f") f := h.hasValue_own rfl

theorem run_test : (evaluate world (n + 4) (headed "null?" [.named "xs"]) c).run t =
    (.ok (.bool xs.isEmpty), t.addFrame ⟨nullBound xs, some Store.root⟩) := by
  have null : HasValue (evaluate world (n + 3)) c t (.named "null?") nullClosure :=
    hasValue_name h (by decide) rfl
  have body : HasValue (evaluate world (n + 3)) t.nextScope (t.addFrame ⟨nullBound xs, some Store.root⟩) nullBody _ :=
    hasValue_nullBody (h.enter (nullBound xs))
  rw [headed, run_application rfl null (.cons (hasValue_items h) .nil), nullClosure, run_apply_closure rfl]
  exact body

theorem run_mapBody : (evaluate world (n + 5) mapBody c).run t =
    (evaluate world (n + 4) (if xs.isEmpty then headed "list" [] else headed "cons" [mapItem, mapRest]) c).run
      (t.addFrame ⟨nullBound xs, some Store.root⟩) := by
  rw [mapBody, evaluate_ifOf, run_bind_ok (run_test h)]
  cases xs <;> rfl

end

theorem run_mapItem (h : Running mapNames t c (mapBound f (x :: xs))) :
    (evaluate world (n + 3) mapItem c).run t = (apply world (evaluate world (n + 2)) f [x] c).run t := by
  have first : HasValue (evaluate world (n + 2)) c t (headed "car" [.named "xs"]) x :=
    hasValue_primitive rfl (hasValue_name h (by decide) rfl) (.cons (hasValue_items h) .nil) rfl
  rw [mapItem, headed, run_application rfl (hasValue_procedure h) (.cons first .nil)]

theorem run_mapRest (h : Running mapNames t c (mapBound f (x :: xs))) :
    (evaluate world (n + 3) mapRest c).run t =
      (apply world (evaluate world (n + 2)) mapClosure [f, .list xs] c).run t := by
  have rest : HasValue (evaluate world (n + 2)) c t (headed "cdr" [.named "xs"]) (.list xs) :=
    hasValue_primitive rfl (hasValue_name h (by decide) rfl) (.cons (hasValue_items h) .nil) rfl
  rw [mapRest, headed, run_application rfl (hasValue_name h (by decide) rfl)
    (.cons (hasValue_procedure h) (.cons rest .nil))]

/-- What map needs: the bindings of its code, and that everything it is given belongs to the store. -/
structure Ready (s : Store) (f : Value) (xs : List Value) : Prop where
  store : s.Closed
  original : Original mapNames s
  procedure : s.Admits f
  items : ∀ x ∈ xs, s.Admits x

theorem Ready.root_lt (h : Ready s f xs) : Store.root < s.frames.size :=
  h.original.root_lt (by decide : "map" ∈ mapNames) rfl

theorem Ready.running (h : Ready s f xs) :
    Running mapNames (s.addFrame ⟨mapBound f xs, some Store.root⟩) s.nextScope (mapBound f xs) :=
  running_addFrame h.store.outer h.original h.root_lt _

theorem Ready.inside (h : Ready s f xs) : Running mapNames (entered s f xs) s.nextScope (mapBound f xs) :=
  h.running.stays _

theorem Ready.run_map (h : Ready s f xs) (e : ScopeId) :
    (apply world (evaluate world (n + 5)) mapClosure [f, .list xs] e).run s =
      (evaluate world (n + 4) (if xs.isEmpty then headed "list" [] else headed "cons" [mapItem, mapRest])
        s.nextScope).run (entered s f xs) := by
  have started : (apply world (evaluate world (n + 5)) mapClosure [f, .list xs] e).run s =
      (evaluate world (n + 5) mapBody s.nextScope).run (s.addFrame ⟨mapBound f xs, some Store.root⟩) :=
    run_apply_closure rfl
  rw [started, run_mapBody h.running]
  rfl

theorem Ready.run_nil (h : Ready s f []) (e : ScopeId) :
    (apply world (evaluate world (n + 5)) mapClosure [f, .list []] e).run s =
      (.ok (.list []), entered s f []) := by
  have empty : HasValue (evaluate world (n + 4)) s.nextScope (entered s f []) (headed "list" []) (.list []) :=
    hasValue_primitive rfl (hasValue_name h.inside (by decide) rfl) .nil rfl
  rw [h.run_map, List.isEmpty_nil, if_pos rfl]
  exact empty

theorem Ready.run_cons (h : Ready s f (x :: xs)) (e : ScopeId) :
    (apply world (evaluate world (n + 5)) mapClosure [f, .list (x :: xs)] e).run s =
      (evaluate world (n + 3) mapItem s.nextScope >>= fun v => evaluate world (n + 3) mapRest s.nextScope >>= fun w =>
        apply world (evaluate world (n + 3)) (.native (.primitive .cons)) [v, w] s.nextScope).run
          (entered s f (x :: xs)) := by
  have cons : HasValue (evaluate world (n + 3)) s.nextScope (entered s f (x :: xs)) (.named "cons") _ :=
    hasValue_name h.inside (by decide) rfl
  rw [h.run_map, List.isEmpty_cons, if_neg Bool.false_ne_true, headed, evaluate_application rfl, run_bind_ok cons]
  simp only [evaluateAll, bind_assoc, pure_bind]

theorem Ready.run_failed (h : Ready s f (x :: xs)) (e : ScopeId) {g : Failure}
    (called : (apply world (evaluate world (n + 2)) f [x] s.nextScope).run (entered s f (x :: xs)) =
      (.error g, t)) :
    (apply world (evaluate world (n + 5)) mapClosure [f, .list (x :: xs)] e).run s = (.error g, t) := by
  rw [h.run_cons]
  exact run_bind_error ((run_mapItem h.inside).trans called)

theorem Ready.admits (h : Ready s f xs) : ∀ pair ∈ mapBound f xs, s.Admits pair.2 := by
  simpa [mapBound, Value.madeOf_list] using ⟨h.procedure, h.items⟩

theorem Ready.outer (h : Ready s f xs) : ∀ o, some Store.root = some o → o < s.frames.size := by
  rintro o ⟨⟩
  exact h.root_lt

theorem Ready.hides (h : Ready s f xs) : (entered s f xs).Hides s.nextScope := by
  have list : s.Admits (.list xs) := Value.madeOf_list.2 h.items
  refine (h.store.hides_addFrame (f := ⟨mapBound f xs, some Store.root⟩) h.outer h.admits).addFrame ?_ ?_
  · exact fun same => Nat.ne_of_lt h.root_lt (Option.some.inj same)
  · simpa [nullBound] using list.capturesOnly_ne

theorem Ready.later (h : Ready s f xs) : closed.Later s (entered s f xs) := by
  have names : (mapBound f xs).names.Nodup ∧ (nullBound xs).names.Nodup := by simp [mapBound, nullBound, Bindings.names]
  have list : ∀ pair ∈ nullBound xs, s.Admits pair.2 := by simpa [nullBound] using Value.madeOf_list.2 h.items
  have first := closed_addFrame (f := ⟨mapBound f xs, some Store.root⟩) h.store h.outer names.1 h.admits
  exact first.trans (closed_addFrame (f := ⟨nullBound xs, some Store.root⟩) first.store
    (fun o same => first.scope (h.outer o same)) names.2 fun pair mem => first.value (list pair mem))

theorem Ready.after (hosts : ∀ id, (world.host id).Confined) (h : Ready s f (x :: xs))
    (called : (apply world (evaluate world n) f [x] s.nextScope).run (entered s f (x :: xs)) = (r, t))
    (original : Original mapNames t) : Ready t f xs ∧ Running mapNames t s.nextScope (mapBound f (x :: xs)) := by
  obtain ⟨first, items⟩ := List.forall_mem_cons.1 h.items
  have before := h.later
  have laws := closed_kept hosts
  have argument : ∀ v ∈ [x], (entered s f (x :: xs)).Admits v :=
    List.forall_mem_singleton.2 (before.value first)
  have isolated : ∀ v ∈ [x], v.CapturesOnly (· ≠ s.nextScope) :=
    List.forall_mem_singleton.2 first.capturesOnly_ne
  have later := (Discipline.apply laws (Discipline.evaluate laws n) before.store h.inside.lt_size
    (before.value h.procedure) argument).1
  have frame := apply_hidden hosts n s.nextScope h.hides h.procedure.capturesOnly_ne isolated
  rw [called] at later frame
  have kept := before.trans later
  exact ⟨⟨kept.store, original, kept.value h.procedure, fun y mem => kept.value (items y mem)⟩,
    ⟨kept.store.outer, original, frame.trans h.inside.frame⟩⟩

theorem Ready.run_called (h : Ready s f (x :: xs)) (e : ScopeId)
    (called : (apply world (evaluate world (n + 2)) f [x] s.nextScope).run (entered s f (x :: xs)) = (.ok v, t))
    (running : Running mapNames t s.nextScope (mapBound f (x :: xs))) :
    (apply world (evaluate world (n + 5)) mapClosure [f, .list (x :: xs)] e).run s =
      (apply world (evaluate world (n + 2)) mapClosure [f, .list xs] s.nextScope >>= fun w =>
        apply world (evaluate world (n + 3)) (.native (.primitive .cons)) [v, w] s.nextScope).run t := by
  rw [h.run_cons, run_bind_ok ((run_mapItem h.inside).trans called), run_bind, run_mapRest running, run_bind]

theorem Ready.run_rest (h : Ready s f (x :: xs)) (e : ScopeId)
    (called : (apply world (evaluate world (n + 2)) f [x] s.nextScope).run (entered s f (x :: xs)) = (.ok v, t))
    (running : Running mapNames t s.nextScope (mapBound f (x :: xs))) :
    (∀ g u, (apply world (evaluate world (n + 2)) mapClosure [f, .list xs] s.nextScope).run t = (.error g, u) →
      (apply world (evaluate world (n + 5)) mapClosure [f, .list (x :: xs)] e).run s = (.error g, u)) ∧
    ∀ vs u, (apply world (evaluate world (n + 2)) mapClosure [f, .list xs] s.nextScope).run t = (.ok (.list vs), u) →
      (apply world (evaluate world (n + 5)) mapClosure [f, .list (x :: xs)] e).run s = (.ok (.list (v :: vs)), u) := by
  rw [h.run_called e called running]
  refine ⟨fun g u rest => run_bind_error rest, fun vs u rest => ?_⟩
  rw [run_bind_ok rest, run_apply_primitive rfl]

theorem callEnds_nil_iff (h : Ready s f []) (e : ScopeId) :
    CallEnds world mapClosure [f, .list []] e s r t ↔ r = .ok (.list []) ∧ t = entered s f [] := by
  constructor
  · rintro ⟨_, depth, run⟩
    have run := run (depth + 5) (Nat.le_add_right _ _)
    rw [h.run_nil] at run
    cases run
    exact ⟨rfl, rfl⟩
  · rintro ⟨rfl, rfl⟩
    exact callEnds_of_run (h.run_nil (n := 0) e) nofun

theorem callEnds_cons_iff (hosts : ∀ id, (world.host id).Confined) (h : Ready s f (x :: xs)) (e : ScopeId)
    (original : ∀ v t, CallEnds world f [x] s.nextScope (entered s f (x :: xs)) (.ok v) t → Original mapNames t)
    (lists : ∀ v t w u, CallEnds world f [x] s.nextScope (entered s f (x :: xs)) (.ok v) t →
      CallEnds world mapClosure [f, .list xs] s.nextScope t (.ok w) u → ∃ vs, w = .list vs) :
    CallEnds world mapClosure [f, .list (x :: xs)] e s r u ↔
      FirstThen world f s x xs (CallEnds world mapClosure [f, .list xs] s.nextScope) r u := by
  constructor
  · rintro ⟨ended, depth, run⟩
    have run := run (depth + 5) (Nat.le_add_right _ _)
    rcases called : (apply world (evaluate world (depth + 2)) f [x] s.nextScope).run (entered s f (x :: xs)) with
      ⟨g | v, t⟩
    · rw [h.run_failed e called] at run
      cases run
      exact .failed (callEnds_of_run called ended)
    · have call := callEnds_of_run called nofun
      obtain ⟨failed, done⟩ := h.run_rest e called (h.after hosts called (original v t call)).2
      rcases rest : (apply world (evaluate world (depth + 2)) mapClosure [f, .list xs] s.nextScope).run t with
        ⟨g | w, u'⟩
      · rw [failed g u' rest] at run
        cases run
        exact .later call (callEnds_of_run rest ended)
      · have last := callEnds_of_run rest nofun
        obtain ⟨vs, rfl⟩ := lists v t w u' call last
        rw [done vs u' rest] at run
        cases run
        exact .done call last
  · rintro (⟨ended, depth, called⟩ | ⟨call, ended, depth, rest⟩ | ⟨call, _, depth, rest⟩)
    · exact callEnds_of_run (h.run_failed e (called (depth + 2) (Nat.le_add_right _ _))) ended
    all_goals
      have bound := original _ _ call
      obtain ⟨_, depth', called⟩ := call
      have called := called (max depth depth' + 2) (Nat.le_add_right_of_le (Nat.le_max_right _ _))
      have rest := rest (max depth depth' + 2) (Nat.le_add_right_of_le (Nat.le_max_left _ _))
      obtain ⟨failed, done⟩ := h.run_rest e called (h.after hosts called bound).2
    · exact callEnds_of_run (failed _ _ rest) ended
    · exact callEnds_of_run (done _ _ rest) nofun

theorem callEnds_map_iff (hosts : ∀ id, (world.host id).Confined) (h : Ready s f xs)
    (kept : ∀ vs rest t, Calls world f s xs vs rest t → Original mapNames t) (e : ScopeId) (r : Except Failure Value)
    (t : Store) : CallEnds world mapClosure [f, .list xs] e s r t ↔ Maps world f s xs r t := by
  induction xs generalizing s e r t with
  | nil => rw [callEnds_nil_iff h, maps_nil_iff]
  | cons x xs ih =>
    -- what map needs is kept by a call that gives a value, and both sides start with the same call
    have following (v t) (call : CallEnds world f [x] s.nextScope (entered s f (x :: xs)) (.ok v) t) (r u) :
        CallEnds world mapClosure [f, .list xs] s.nextScope t r u ↔ Maps world f t xs r u := by
      have kept' : ∀ vs rest u, Calls world f t xs vs rest u → Original mapNames u :=
        fun vs rest u calls => kept _ _ _ (.next call calls)
      obtain ⟨_, depth, called⟩ := call
      exact ih (h.after hosts (called depth (Nat.le_refl _)) (kept' _ _ _ .start)).1 kept' _ _ _
    rw [maps_cons_iff, callEnds_cons_iff hosts h e (fun v t call => kept _ _ _ (.next call .start))
      fun v t w u call last => ((following v t call _ _).1 last).list]
    exact ⟨fun first => first.mono fun v t call r u => (following v t call r u).1,
      fun first => first.mono fun v t call r u => (following v t call r u).2⟩

/-- Map calls the procedure on the items of the list as they are, in order and once on each, in the store that the call
before has left. A call that fails is the last one and the failure of map; otherwise the values come back in order, one
for each item. This takes enough depth, and that no call rebinds a name that map looks up. Stores are closed and admit
all values there are throughout a session (`closed_kept`). -/
theorem map_calls {world : World} (hosts : ∀ id, (world.host id).Confined) {s : Store} (closed : s.Closed) {f : Value}
    {xs : List Value} (procedure : s.Admits f) (items : ∀ x ∈ xs, s.Admits x)
    (kept : ∀ vs rest t, Calls world f s xs vs rest t → Original mapNames t) :
    s.lookup? Store.root ⟨"map"⟩ = some mapClosure ∧
      (∀ e r t, CallEnds world mapClosure [f, .list xs] e s r t ↔ Maps world f s xs r t) ∧
      ∀ vs rest t, Calls world f s xs vs rest t → ∃ done, xs = done ++ rest ∧ done.length = vs.length := by
  have original : Original mapNames s := kept [] xs s .start
  refine ⟨Store.lookup?_of_bound ?_, ?_, fun vs rest t calls => calls.items⟩
  · exact original "map" (by decide)
  · exact callEnds_map_iff hosts ⟨closed, original, procedure, items⟩ kept

theorem map_calls_of_assignment :
    let world : World := ⟨true, fun _ => .arguments⟩
    let note : Value := headed "set!" [.named "n", headed "cons" [.named "m", .named "n"]]
    let f : Value := .closure 4 [⟨"m"⟩] (beginOf [note, headed "car" [.named "m"]]) Store.root
    let xs : List Value := [.list [.named "gone"], .list [.int 7, .int 8]]
    let s : Store := ⟨#[⟨bindings ++ [(⟨"n"⟩, .list [])], none⟩], 5⟩
    ∃ t, Maps world f s xs (.ok (.list [.named "gone", .int 7])) t ∧
      t.lookup? Store.root ⟨"n"⟩ = some (.list xs.reverse) := by
  intro world note f xs s
  have hosts : ∀ id, (world.host id).Confined := fun _ => HostProcedure.arguments_seesFrame.confined
  have name : ∀ n (t : Store), t.Admits (.named n) := fun n t => Value.IsPlain.madeOf trivial
  have int : ∀ n (t : Store), t.Admits (.int n) := fun n t => Value.IsPlain.madeOf trivial
  let code : Value := beginOf [definition "n" (headed "list" []), lambdaOf [⟨"m"⟩] [note, headed "car" [.named "m"]]]
  let made : Except Failure Value × Store := (evaluate world 4 code Store.root).run store
  have same : made = (.ok f, s) := by decide +kernel
  have admits : store.Admits code := by
    simp [code, note, beginOf, lambdaOf, definition, headed, Value.madeOf_list, name]
  have settled : closed.Later store made.2 ∧ ∀ v, made.1 = .ok v → made.2.Admits v :=
    Discipline.evaluate (closed_kept hosts) 4 store_closed (by decide : Store.root < store.frames.size) admits
  rw [same] at settled
  let call (x : Value) (rest : List Value) (s : Store) : Except Failure Value × Store :=
    (apply world (evaluate world 4) f [x] s.nextScope).run (entered s f (x :: rest))
  let t : Store := (call (.list [.named "gone"]) [.list [.int 7, .int 8]] s).2
  have first : CallEnds world f [.list [.named "gone"]] s.nextScope (entered s f xs) (.ok (.named "gone")) t :=
    callEnds_of_ok 4 (by decide +kernel)
  have second : CallEnds world f [.list [.int 7, .int 8]] t.nextScope (entered t f [.list [.int 7, .int 8]])
    (.ok (.int 7)) (call (.list [.int 7, .int 8]) [] t).2 := callEnds_of_ok 4 (by decide +kernel)
  have kept : ∀ vs rest u, Calls world f s xs vs rest u → Original mapNames u := by
    intro vs rest u calls
    change Calls world f s [.list [.named "gone"], .list [.int 7, .int 8]] vs rest u at calls
    rcases calls with _ | ⟨one, _ | ⟨two, ⟨⟩⟩⟩
    · decide +kernel
    · rw [(one.unique first).2]
      decide +kernel
    · rw [(one.unique first).2] at two
      rw [(two.unique second).2]
      decide +kernel
  have items : ∀ x ∈ xs, s.Admits x := by simp [xs, Value.madeOf_list, name, int]
  obtain ⟨_, ends, _⟩ := map_calls hosts settled.1.store (settled.2 f rfl) items kept
  refine ⟨_, (ends Store.root _ _).1 (callEnds_of_ok 12 (by decide +kernel)), ?_⟩
  decide +kernel

end MicroScheme.Library
