import MicroScheme.Proofs.Library.Bindings
import MicroScheme.Proofs.Value.Comparison

set_option autoImplicit false

namespace MicroScheme.Library

def orderNames : List String := [">=", "<=", ">", "<", "=", "not"]

/-- In the scope these names stand for what they do when the library has been loaded. -/
def Visible (names : List String) (s : Store) (e : ScopeId) : Prop :=
  ∀ n ∈ names, s.lookup? e ⟨n⟩ = bindings.get? ⟨n⟩

instance (names : List String) (s : Store) (e : ScopeId) : Decidable (Visible names s e) :=
  inferInstanceAs (Decidable (∀ n ∈ names, _ = _))

def orderBound (a b : Number) : Bindings := [(⟨"a"⟩, .number a), (⟨"b"⟩, .number b)]

def orderClosure (id : Nat) (opposite : Primitive) : Value :=
  .closure id [⟨"a"⟩, ⟨"b"⟩] (orderBody opposite.operator) Store.root

def compared (name : String) (a b : Number) : Value := headed name [.number a, .number b]

theorem orderBound_operator (a b : Number) (p : Primitive) : (orderBound a b).get? ⟨p.operator⟩ = none := by
  cases p <;> rfl

theorem call_not (answer : Bool) : Primitive.not.call [.bool answer] = .ok (.bool !answer) := by
  cases answer <;> rfl

variable {world : World} {n : Nat} {s t : Store} {c e : ScopeId} {a b : Number} {name : String} {r : Bool}

theorem Original.visible (original : Original orderNames s) : Visible orderNames s Store.root := by
  intro name mem
  have known : ∃ v, bindings.get? ⟨name⟩ = some v := by
    simp only [orderNames, List.mem_cons, List.not_mem_nil, or_false] at mem
    rcases mem with rfl | rfl | rfl | rfl | rfl | rfl <;> exact ⟨_, rfl⟩
  obtain ⟨v, bound⟩ := known
  rw [bound]
  exact Store.lookup?_of_bound ((original name mem).trans bound)

section

variable {opposite : Primitive} (known : opposite.operator ∈ orderNames)
  (called : opposite.call [.number a, .number b] = .ok (.bool r))
include known called

theorem hasValue_compared (visible : Visible orderNames s e) :
    HasValue (evaluate world (n + 2)) e s (compared opposite.operator a b) (.bool r) := by
  have procedure : HasValue (evaluate world (n + 1)) e s (.named opposite.operator) (.native (.primitive opposite)) :=
    hasValue_symbol ((visible _ known).trans (get?_operator opposite))
  exact hasValue_primitive (keyword?_operator opposite) procedure
    (.cons (hasValue_number a) (.cons (hasValue_number b) .nil)) called

theorem hasValue_orderBody (h : Running orderNames t c (orderBound a b)) :
    HasValue (evaluate world (n + 3)) c t (orderBody opposite.operator) (.bool !r) := by
  have left : HasValue (evaluate world (n + 1)) c t (.named "a") (.number a) := h.hasValue_own rfl
  have right : HasValue (evaluate world (n + 1)) c t (.named "b") (.number b) := h.hasValue_own rfl
  have inner : HasValue (evaluate world (n + 2)) c t (headed opposite.operator [.named "a", .named "b"])
      (.bool r) :=
    h.hasValue_primitive known (orderBound_operator a b opposite) (.cons left (.cons right .nil)) called
  exact h.hasValue_primitive (p := .not) (by decide) rfl (.cons inner .nil) (call_not r)

theorem run_compared {id : Nat} (rooted : s.Rooted) (original : Original orderNames s)
    (visible : Visible orderNames s e) (mem : name ∈ orderNames) (plain : keyword? (.named name) = none)
    (bound : bindings.get? ⟨name⟩ = some (orderClosure id opposite)) :
    (evaluate world (n + 4) (compared name a b) e).run s =
      (.ok (.bool !r), s.addFrame ⟨orderBound a b, some Store.root⟩) := by
  have procedure : HasValue (evaluate world (n + 3)) e s (.named name) (orderClosure id opposite) :=
    hasValue_symbol ((visible name mem).trans bound)
  have running : Running orderNames (s.addFrame ⟨orderBound a b, some Store.root⟩) s.nextScope (orderBound a b) :=
    running_addFrame rooted original (original.root_lt mem bound) _
  rw [compared, headed, run_application plain procedure (.cons (hasValue_number a) (.cons (hasValue_number b) .nil)),
    orderClosure, run_apply_closure rfl]
  exact hasValue_orderBody known called running

end

/-- What the comparison gives when it is applied by its name to the two numbers. -/
def answer (world : World) (depth : Nat) (s : Store) (e : ScopeId) (name : String) (a b : Number) :
    Except Failure Value :=
  ((evaluate world depth (compared name a b) e).run s).1

def Holds (world : World) (depth : Nat) (s : Store) (e : ScopeId) (name : String) (a b : Number) : Prop :=
  answer world depth s e name a b = .ok (.bool true)

instance (world : World) (depth : Nat) (s : Store) (e : ScopeId) (name : String) (a b : Number) :
    Decidable (Holds world depth s e name a b) :=
  inferInstanceAs (Decidable (_ = _))

theorem holds_iff {depth : Nat} (given : answer world depth s e name a b = .ok (.bool r)) :
    Holds world depth s e name a b ↔ r = true := by
  simp [Holds, given]

theorem answer_primitive {p : Primitive} (visible : Visible orderNames s e) (known : p.operator ∈ orderNames)
    (called : p.call [.number a, .number b] = .ok (.bool r)) (depth : Nat) :
    answer world (depth + 2) s e p.operator a b = .ok (.bool r) := by
  rw [answer, hasValue_compared known called visible]

section

variable (rooted : s.Rooted) (original : Original orderNames s) (visible : Visible orderNames s e)
include rooted original visible

theorem answer_atLeast (depth : Nat) (a b : Number) :
    answer world (depth + 4) s e ">=" a b = .ok (.bool !a.less b) := by
  rw [answer, run_compared (by decide) (Primitive.call_less_pair a b) rooted original visible (by decide) rfl rfl]

theorem answer_atMost (depth : Nat) (a b : Number) :
    answer world (depth + 4) s e "<=" a b = .ok (.bool !b.less a) := by
  rw [answer, run_compared (by decide) (Primitive.call_greater_pair a b) rooted original visible (by decide) rfl rfl]

end

/-- The comparisons all give #t or #f. Between two numbers >= holds exactly if > or = does or one of the numbers is NaN,
and <= exactly if < or = does or one of them is NaN. -/
theorem order_negated (world : World) {s : Store} {e : ScopeId} (rooted : s.Rooted) (original : Original orderNames s)
    (visible : Visible orderNames s e) (depth : Nat) (a b : Number) :
    (∀ name ∈ [">=", "<=", ">", "<", "="], ∃ r, answer world (depth + 4) s e name a b = .ok (.bool r)) ∧
    (Holds world (depth + 4) s e ">=" a b ↔ Holds world (depth + 4) s e ">" a b ∨
      Holds world (depth + 4) s e "=" a b ∨ a = .float .nan ∨ b = .float .nan) ∧
    (Holds world (depth + 4) s e "<=" a b ↔ Holds world (depth + 4) s e "<" a b ∨
      Holds world (depth + 4) s e "=" a b ∨ a = .float .nan ∨ b = .float .nan) := by
  have less : answer world (depth + 4) s e "<" a b = .ok (.bool (a.less b)) :=
    answer_primitive visible (by decide) (Primitive.call_less_pair a b) (depth + 2)
  have greater : answer world (depth + 4) s e ">" a b = .ok (.bool (b.less a)) :=
    answer_primitive visible (by decide) (Primitive.call_greater_pair a b) (depth + 2)
  have equal : answer world (depth + 4) s e "=" a b = .ok (.bool (a.equal b)) :=
    answer_primitive visible (by decide) (Primitive.call_equal_pair (.number a) (.number b)) (depth + 2)
  have atLeast : answer world (depth + 4) s e ">=" a b = .ok (.bool !a.less b) :=
    answer_atLeast rooted original visible depth a b
  have atMost : answer world (depth + 4) s e "<=" a b = .ok (.bool !b.less a) :=
    answer_atMost rooted original visible depth a b
  refine ⟨?_, ?_, ?_⟩
  · simp [less, greater, equal, atLeast, atMost]
  · rw [holds_iff atLeast, holds_iff greater, holds_iff equal, Bool.not_eq_true', Number.not_less_iff]
  · rw [holds_iff atMost, holds_iff less, holds_iff equal, Bool.not_eq_true', Number.not_less_iff, Number.equal_comm,
      or_comm (a := b = _)]

theorem order_negated_of_neighbours :
    let world : World := ⟨true, fun _ => .arguments⟩
    let a : Number := .int (2 ^ 53 + 1)
    let b : Number := .float (Binary64.ofInt (2 ^ 53))
    store.Rooted ∧ Original orderNames store ∧ Visible orderNames store Store.root ∧
      Holds world 4 store Store.root ">" a b ∧ Holds world 4 store Store.root ">=" a b ∧
      ¬ Holds world 4 store Store.root "<=" a b := by
  intro world a b
  have rooted : store.Rooted := store_closed.outer
  have original := original_store orderNames
  have visible := original.visible
  obtain ⟨_, atLeast, atMost⟩ := order_negated world rooted original visible 0 a b
  have greater : Holds world 4 store Store.root ">" a b := by decide +kernel
  have others : ¬ Holds world 4 store Store.root "<" a b ∧ ¬ Holds world 4 store Store.root "=" a b ∧
      a ≠ .float .nan ∧ b ≠ .float .nan := by decide +kernel
  refine ⟨rooted, original, visible, greater, atLeast.2 (.inl greater), fun holds => ?_⟩
  obtain ⟨less, equal, ha, hb⟩ := others
  rcases atMost.1 holds with h | h | h | h
  exacts [less h, equal h, ha h, hb h]

/-- NaN, got by subtracting infinity from itself, is neither greater than a number nor equal to it, but >= it. -/
theorem nan_at_least :
    let world : World := ⟨true, fun _ => .arguments⟩
    let infinity : Value := .float (.infinite false)
    let difference : Value := headed "-" [infinity, infinity]
    let result (name : String) : Except Failure Value :=
      ((evaluate world 4 (headed name [difference, .int 1]) Store.root).run store).1
    result ">=" = .ok (.bool true) ∧ result ">" = .ok (.bool false) ∧ result "=" = .ok (.bool false) := by
  decide +kernel

end MicroScheme.Library
