import MicroScheme.Proofs.Evaluation.Call
import MicroScheme.Proofs.Evaluation.Conditional
import MicroScheme.Proofs.Session.LetIn
import MicroScheme.Proofs.Text.Scan

set_option autoImplicit false

namespace MicroScheme

namespace Library

def headed (name : String) (operands : List Value) : Value := .list (.named name :: operands)

def definition (name : String) (x : Value) : Value := headed "define" [.named name, x]

def orderBody (opposite : String) : Value := headed "not" [headed opposite [.named "a", .named "b"]]

def nullBody : Value := headed "=" [headed "length" [.named "xs"], .int 0]

def mapItem : Value := headed "f" [headed "car" [.named "xs"]]

def mapRest : Value := headed "map" [.named "f", headed "cdr" [.named "xs"]]

def mapBody : Value :=
  ifOf (headed "null?" [.named "xs"]) (headed "list" []) (headed "cons" [mapItem, mapRest])

def forms : List Value :=
  [definition "else" (.bool true),
    definition ">=" (lambdaOf [⟨"a"⟩, ⟨"b"⟩] [orderBody "<"]),
    definition "<=" (lambdaOf [⟨"a"⟩, ⟨"b"⟩] [orderBody ">"]),
    definition "head" (.named "car"),
    definition "tail" (.named "cdr"),
    definition "null?" (lambdaOf [⟨"xs"⟩] [nullBody]),
    definition "map" (lambdaOf [⟨"f"⟩, ⟨"xs"⟩] [mapBody])]

def nullClosure : Value := .closure 2 [⟨"xs"⟩] nullBody Store.root

def mapClosure : Value := .closure 3 [⟨"f"⟩, ⟨"xs"⟩] mapBody Store.root

def bindings : Bindings :=
  Primitive.all.map (fun p => (⟨p.operator⟩, .native (.primitive p))) ++
    [(⟨"else"⟩, .bool true),
      (⟨">="⟩, .closure 0 [⟨"a"⟩, ⟨"b"⟩] (orderBody "<") Store.root),
      (⟨"<="⟩, .closure 1 [⟨"a"⟩, ⟨"b"⟩] (orderBody ">") Store.root),
      (⟨"head"⟩, .native (.primitive .car)),
      (⟨"tail"⟩, .native (.primitive .cdr)),
      (⟨"null?"⟩, nullClosure),
      (⟨"map"⟩, mapClosure)]

def store : Store := ⟨#[⟨bindings, none⟩], 4⟩

theorem ofText_of_eq {text : String} {cs : List Char} (h : text = String.ofList cs) :
    Token.ofText text = (Token.scan false [] cs).map String.ofList := by
  rw [Token.ofText_eq_scan, h, String.toList_ofList]

set_option maxRecDepth 5000 in
theorem allOfText_text : Form.allOfText text = (forms, none) := by
  rw [Form.allOfText, ofText_of_eq (rfl : text = String.ofList _)]
  decide +kernel

variable {world : World} {depth : Nat} {e : ScopeId} {s t : Store}

theorem run_definition {x v last : Value} {xs : List Value} (name : String)
    (run : (evaluate world depth x e).run s = (.ok v, t)) :
    (evaluateBody (evaluate world (depth + 1)) e last (definition name x :: xs)).run s =
      (evaluateBody (evaluate world (depth + 1)) e .unspecified xs).run (t.define e ⟨name⟩ v) := by
  have form : evaluate world (depth + 1) (definition name x) e =
      SpecialForm.define (evaluate world depth) e [.named name, x] := evaluateStep_keyword world _ .define _ e
  have defined : (evaluate world (depth + 1) (definition name x) e).run s =
      (.ok .unspecified, t.define e ⟨name⟩ v) := by
    rw [form, SpecialForm.define, run_bind_ok run]
    rfl
  rw [evaluateBody, run_bind_ok defined]

theorem run_forms (world : World) (depth : Nat) :
    (evaluateBody (evaluate world (depth + 2)) Store.root .unspecified forms).run Session.primitiveStore =
      (.ok .unspecified, store) := by
  rw [forms, run_definition (v := .bool true) (t := Session.primitiveStore) _ rfl,
    run_definition _ (run_lambdaOf world depth _ _ _ _ _), run_definition _ (run_lambdaOf world depth _ _ _ _ _),
    run_definition _ (hasValue_symbol (v := .native (.primitive .car)) (by decide +kernel)),
    run_definition _ (hasValue_symbol (v := .native (.primitive .cdr)) (by decide +kernel)),
    run_definition _ (run_lambdaOf world depth _ _ _ _ _), run_definition _ (run_lambdaOf world depth _ _ _ _ _)]
  refine congrArg (Prod.mk _) ?_
  decide +kernel

theorem loadText_text (world : World) (depth : Nat) :
    (loadText world (depth + 2) text Store.root).run Session.primitiveStore = (.ok (), store) := by
  rw [loadText, allOfText_text]
  exact run_bind_ok (run_forms world depth)

end Library

namespace Session

theorem exec_of_run {α : Type} {s : Session} {m : World → Eval α} {a : α} {t : Store}
    (run : (m s.world).run s.store = (.ok a, t)) : s.exec m = (.ok a, { s with store := t }) := by
  have exec : s.exec m =
    (((m s.world).run s.store).1.mapError .failure, { s with store := ((m s.world).run s.store).2 }) := rfl
  rw [exec, run]
  rfl

theorem start_of_loaded {depth : Nat} {o : SessionOptions} {code : String} {t : Store} (prelude : preludeText o = .ok code)
    (loaded : (loadText (unloaded o).world depth code Store.root).run primitiveStore = (.ok (), t)) :
    start depth o = .ok { unloaded o with store := bindHosts 0 t o.hosts } := by
  have run := exec_of_run (s := unloaded o) (m := fun w => loadText w depth code Store.root) loaded
  unfold unloaded at run ⊢
  rw [start, prelude]
  dsimp only [bind, Except.bind]
  rw [run]
  rfl

end Session

namespace Library

theorem start_library (depth : Nat) {o : SessionOptions} (prelude : o.prelude = .library)
    (packaged : Setting.content? o.libraryPath = none) :
    Session.start (depth + 2) o = .ok { Session.unloaded o with store := Session.bindHosts 0 store o.hosts } := by
  have code : Session.preludeText o = .ok text := by rw [Session.preludeText, prelude, source?, packaged]
  exact Session.start_of_loaded code (loadText_text _ depth)

theorem store_closed : store.Closed :=
  (Session.start_wellFormed (o := ⟨.library, none, ⟨[], none⟩, none, []⟩) (by simp)
    (start_library 0 rfl rfl)).store

/-- The root scope binds these names as it does when the library has been loaded. -/
def Original (names : List String) (s : Store) : Prop :=
  ∀ n ∈ names, (s.frame Store.root).bindings.get? ⟨n⟩ = bindings.get? ⟨n⟩

instance (names : List String) (s : Store) : Decidable (Original names s) :=
  inferInstanceAs (Decidable (∀ n ∈ names, _ = _))

variable {names : List String} {s : Store}

theorem original_store (names : List String) : Original names store := fun _ _ => rfl

theorem get?_operator (p : Primitive) : bindings.get? ⟨p.operator⟩ = some (.native (.primitive p)) := by
  cases p <;> rfl

theorem keyword?_operator (p : Primitive) : keyword? (.named p.operator) = none := by
  cases p <;> rfl

theorem Original.define (h : Original names s) {name : String} (other : name ∉ names) (e : ScopeId) (v : Value) :
    Original names (s.define e ⟨name⟩ v) := by
  intro n mem
  have different : (⟨n⟩ : Symbol) ≠ ⟨name⟩ := fun same => other (Symbol.mk.inj same ▸ mem)
  rw [Store.get?_define_of_ne v (.inl different)]
  exact h n mem

theorem Original.addFrame (h : Original names s) (there : Store.root < s.frames.size) (f : Frame) :
    Original names (s.addFrame f) := by
  intro n mem
  have old : Store.root ≠ s.nextScope := Nat.ne_of_lt there
  rw [Store.frame_addFrame, if_neg old]
  exact h n mem

theorem Original.root_lt (h : Original names s) {name : String} (mem : name ∈ names) {v : Value}
    (bound : bindings.get? ⟨name⟩ = some v) : Store.root < s.frames.size := by
  refine Store.lt_size_of_names (n := ⟨name⟩) (Bindings.binds_iff.1 ?_)
  rw [Bindings.binds, h name mem, bound, Option.isSome_some]

theorem original_bindHosts {hosts : List (String × HostProcedure)} (other : ∀ host ∈ hosts, host.1 ∉ names)
    (first : Nat) (h : Original names s) : Original names (Session.bindHosts first s hosts) := by
  induction hosts generalizing first s with
  | nil => exact h
  | cons host hosts ih =>
    obtain ⟨here, rest⟩ := List.forall_mem_cons.1 other
    exact ih rest (first + 1) (h.define here _ _)

theorem start_original (depth : Nat) {o : SessionOptions} (prelude : o.prelude = .library)
    (packaged : Setting.content? o.libraryPath = none) (other : ∀ host ∈ o.hosts, host.1 ∉ names) :
    ∃ s, Session.start (depth + 2) o = .ok s ∧ Original names s.store :=
  ⟨_, start_library depth prelude packaged, original_bindHosts other 0 (original_store names)⟩

/-- The scope is one in which a procedure of the library runs, with these bindings of its own. -/
structure Running (names : List String) (s : Store) (e : ScopeId) (b : Bindings) : Prop where
  rooted : s.Rooted
  original : Original names s
  frame : s.frame e = ⟨b, some Store.root⟩

variable {e : ScopeId} {b : Bindings} {world : World} {depth : Nat} {v : Value}

theorem Running.lt_size (h : Running names s e b) : e < s.frames.size := by
  refine Nat.lt_of_not_le fun absent => ?_
  have frame := h.frame
  rw [Store.frame_of_ge absent] at frame
  cases frame

theorem Running.root_lt (h : Running names s e b) : Store.root < s.frames.size :=
  Nat.lt_trans (h.rooted e Store.root (by rw [h.frame])) h.lt_size

theorem running_addFrame (rooted : s.Rooted) (original : Original names s) (there : Store.root < s.frames.size)
    (b : Bindings) : Running names (s.addFrame ⟨b, some Store.root⟩) s.nextScope b where
  rooted d o out := by
    rw [Store.frame_addFrame] at out
    split at out
    · next new =>
      cases out
      exact new ▸ there
    · exact rooted d o out
  original := original.addFrame there _
  frame := by rw [Store.frame_addFrame, if_pos rfl]

theorem Running.enter (h : Running names s e b) (b' : Bindings) :
    Running names (s.addFrame ⟨b', some Store.root⟩) s.nextScope b' :=
  running_addFrame h.rooted h.original h.root_lt b'

theorem Running.stays (h : Running names s e b) (b' : Bindings) :
    Running names (s.addFrame ⟨b', some Store.root⟩) e b where
  rooted := (h.enter b').rooted
  original := (h.enter b').original
  frame := by
    have old : e ≠ s.nextScope := Nat.ne_of_lt h.lt_size
    rw [Store.frame_addFrame, if_neg old, h.frame]

theorem Running.hasValue_own (h : Running names s e b) {n : Symbol} (bound : b.get? n = some v) :
    HasValue (evaluate world (depth + 1)) e s (.symbol n) v :=
  hasValue_symbol (Store.lookup?_of_bound (by rw [h.frame]; exact bound))

theorem Running.hasValue_root (h : Running names s e b) {n : String} (mem : n ∈ names) (free : b.get? ⟨n⟩ = none)
    (bound : bindings.get? ⟨n⟩ = some v) : HasValue (evaluate world (depth + 1)) e s (.named n) v := by
  refine hasValue_symbol ?_
  rw [Store.lookup?_of_free h.rooted (by rw [h.frame]; exact free) (by rw [h.frame])]
  exact Store.lookup?_of_bound (by rw [h.original n mem, bound])

theorem Running.hasValue_primitive (h : Running names s e b) {p : Primitive} {operands args : List Value}
    (mem : p.operator ∈ names) (free : b.get? ⟨p.operator⟩ = none)
    (arguments : List.Forall₂ (HasValue (evaluate world (depth + 1)) e s) operands args) (called : p.call args = .ok v) :
    HasValue (evaluate world (depth + 2)) e s (headed p.operator operands) v :=
  MicroScheme.hasValue_primitive (keyword?_operator p) (h.hasValue_root mem free (get?_operator p)) arguments called

end Library

end MicroScheme
