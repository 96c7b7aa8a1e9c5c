import MicroScheme.Proofs.Evaluation.Run
import MicroScheme.Proofs.Store.Frame

set_option autoImplicit false

namespace MicroScheme

/-- Position `i` is the last at which the symbol is a formal. -/
def LastAt (formals : List Symbol) (i : Nat) (n : Symbol) : Prop :=
  formals[i]? = some n ∧ ∀ j, i < j → formals[j]? ≠ some n

def argumentAt (args : List Value) (i : Nat) : Value := (args[i]?).getD .unspecified

namespace Bindings

variable {n : Symbol} {v : Value} {b : Bindings}

theorem names_putAll (pairs : List (Symbol × Value)) (b : Bindings) :
    (b.putAll pairs).names = b.names ++ ((names pairs).filter (· ∉ b.names)).eraseDups := by
  -- The frame grows from pair to pair; a new name is taken out of all that come after it.
  induction pairs generalizing b with
  | nil => simp [putAll, names]
  | cons pair pairs ih =>
    change ((b.put pair.1 pair.2).putAll pairs).names = _
    have first : names (pair :: pairs) = pair.1 :: names pairs := rfl
    rw [ih, names_put, first]
    by_cases bound : pair.1 ∈ b.names
    · rw [if_pos bound, List.filter_cons_of_neg (by simpa using bound)]
    · have later : ((names pairs).filter (· ∉ b.names ++ [pair.1])) =
          ((names pairs).filter (· ∉ b.names)).filter fun m => !m == pair.1 := by
        rw [List.filter_filter]
        refine List.filter_congr fun m _ => ?_
        by_cases hm : m ∈ b.names <;> simp [hm, Bool.beq_eq_decide_eq]
      rw [if_neg bound, List.filter_cons_of_pos (by simpa using bound), List.eraseDups_cons, later,
        List.append_assoc, List.singleton_append]

theorem get?_putAll_of_notMem {pairs : List (Symbol × Value)} (absent : n ∉ names pairs) :
    (b.putAll pairs).get? n = b.get? n := by
  induction pairs generalizing b with
  | nil => rfl
  | cons pair pairs ih =>
    obtain ⟨other, absent⟩ := not_or.1 (mt List.mem_cons.2 absent)
    exact (ih (b := b.put pair.1 pair.2) absent).trans (get?_put_of_ne pair.2 b other)

theorem get?_putAll_of_last {before after : List (Symbol × Value)} (absent : n ∉ names after) :
    (b.putAll (before ++ (n, v) :: after)).get? n = some v := by
  have split : b.putAll (before ++ (n, v) :: after) = ((b.putAll before).put n v).putAll after := by
    rw [putAll, List.foldl_append]
    rfl
  rw [split, get?_putAll_of_notMem absent, get?_put_self]

theorem get?_of_mem {pair : Symbol × Value} (distinct : b.names.Nodup) (mem : pair ∈ b) : b.get? pair.1 = some pair.2 := by
  induction b with
  | nil => cases mem
  | cons first b ih =>
    obtain ⟨fresh, distinct⟩ := List.nodup_cons.1 distinct
    rcases List.mem_cons.1 mem with rfl | mem
    · exact if_pos rfl
    · have other : first.1 ≠ pair.1 := fun same => fresh (same ▸ List.mem_map_of_mem mem)
      exact (if_neg other).trans (ih distinct mem)

end Bindings

theorem getElem?_parameters (formals : List Symbol) (args : List Value) (i : Nat) :
    (parameters formals args)[i]? = (formals[i]?).map fun n => (n, argumentAt args i) := by
  induction formals generalizing args i with
  | nil => rfl
  | cons n formals ih =>
    cases args with
    | nil =>
      cases i with
      | zero => rfl
      | succ i => exact ih [] i
    | cons v args =>
      cases i with
      | zero => rfl
      | succ i => exact ih args i

theorem names_parameters (formals : List Symbol) (args : List Value) :
    Bindings.names (parameters formals args) = formals := by
  refine List.ext_getElem? fun i => ?_
  rw [Bindings.names, List.getElem?_map, getElem?_parameters, Option.map_map]
  exact Option.map_id'

theorem exists_lastAt {formals : List Symbol} {n : Symbol} (mem : n ∈ formals) : ∃ i, LastAt formals i n := by
  induction formals with
  | nil => cases mem
  | cons m formals ih =>
    by_cases again : n ∈ formals
    · obtain ⟨i, here, last⟩ := ih again
      refine ⟨i + 1, here, fun j after => ?_⟩
      obtain ⟨j, rfl⟩ := Nat.exists_eq_succ_of_ne_zero (Nat.ne_zero_of_lt after)
      exact last j (Nat.lt_of_succ_lt_succ after)
    · obtain rfl := (List.mem_cons.1 mem).resolve_right again
      refine ⟨0, rfl, fun j after found => ?_⟩
      obtain ⟨j, rfl⟩ := Nat.exists_eq_succ_of_ne_zero (Nat.ne_zero_of_lt after)
      exact again (List.mem_of_getElem? found)

theorem get?_parameters {formals : List Symbol} {i : Nat} {n : Symbol} (args : List Value) (last : LastAt formals i n) :
    (Bindings.putAll [] (parameters formals args)).get? n = some (argumentAt args i) := by
  obtain ⟨here, last⟩ := last
  have pair : (parameters formals args)[i]? = some (n, argumentAt args i) := by
    rw [getElem?_parameters, here]
    rfl
  obtain ⟨bound, same⟩ := List.getElem?_eq_some_iff.1 pair
  have split : parameters formals args =
      (parameters formals args).take i ++ (n, argumentAt args i) :: (parameters formals args).drop (i + 1) := by
    rw [← same, ← List.drop_eq_getElem_cons bound, List.take_append_drop]
  have absent : n ∉ Bindings.names ((parameters formals args).drop (i + 1)) := by
    rw [Bindings.names, List.map_drop, ← Bindings.names, names_parameters]
    intro mem
    obtain ⟨j, found⟩ := List.mem_iff_getElem?.1 mem
    rw [List.getElem?_drop] at found
    exact last _ (Nat.lt_of_lt_of_le (Nat.lt_succ_self i) (Nat.le_add_right _ j)) found
  rw [split]
  exact Bindings.get?_putAll_of_last absent

/-- The later store has one frame more, for a call of a closure. The frame lies in the captured scope and binds each
formal once, in the order of their first occurrences, to the argument at the last; no other argument is bound. -/
structure Store.NewScope (s t : Store) (formals : List Symbol) (args : List Value) (captured : ScopeId) : Prop where
  size : t.frames.size = s.frames.size + 1
  old : ∀ d, d ≠ s.nextScope → t.frame d = s.frame d
  closures : t.closures = s.closures
  outer : (t.frame s.nextScope).outer = some captured
  names : (t.frame s.nextScope).bindings.names = formals.eraseDups
  values : ∀ i n, LastAt formals i n → (t.frame s.nextScope).bindings.get? n = some (argumentAt args i)
  only : ∀ pair ∈ (t.frame s.nextScope).bindings, ∃ i < formals.length,
    LastAt formals i pair.1 ∧ pair.2 = argumentAt args i

theorem newScope_addFrame (s : Store) (formals : List Symbol) (args : List Value) (captured : ScopeId) :
    s.NewScope (s.addFrame ⟨Bindings.putAll [] (parameters formals args), some captured⟩) formals args captured := by
  let bound := Bindings.putAll [] (parameters formals args)
  have frame : (s.addFrame ⟨bound, some captured⟩).frame s.nextScope = ⟨bound, some captured⟩ := by
    rw [Store.frame_addFrame, if_pos rfl]
  have names : bound.names = formals.eraseDups := by
    have all : formals.filter (· ∉ Bindings.names []) = formals := List.filter_eq_self.2 (by simp [Bindings.names])
    rw [Bindings.names_putAll, names_parameters, all]
    rfl
  refine ⟨Store.size_addFrame s _, fun d old => ?_, rfl, ?_, ?_, fun i n last => ?_, fun pair mem => ?_⟩
  · rw [Store.frame_addFrame, if_neg old]
  · rw [frame]
  · rw [frame, names]
  · rw [frame]
    exact get?_parameters args last
  · rw [frame] at mem
    have formal : pair.1 ∈ formals := List.mem_eraseDups.1 (names ▸ List.mem_map_of_mem mem)
    obtain ⟨i, last⟩ := exists_lastAt formal
    have found : bound.get? pair.1 = some pair.2 :=
      Bindings.get?_of_mem (Bindings.nodup_putAll (b := []) _ List.nodup_nil) mem
    exact ⟨i, (List.getElem?_eq_some_iff.1 last.1).1, last, Option.some.inj (found.symm.trans (get?_parameters args last))⟩

/-- A call fails exactly if strict arity refuses its number of arguments. It then says so and leaves the store as it
is, and otherwise adds one scope and changes no other. -/
theorem bindParameters_newScope (world : World) (formals : List Symbol) (args : List Value) (captured : ScopeId)
    (s : Store) :
    ((∃ f, ((bindParameters world formals args captured).run s).1 = .error f) ↔
      args.length ≠ formals.length ∧ world.strictArity = true) ∧
    ((bindParameters world formals args captured).run s = (.error (.wrongCount (.closure formals args.length)), s) ∨
      ∃ t, (bindParameters world formals args captured).run s = (.ok s.nextScope, t) ∧
        s.NewScope t formals args captured) := by
  rw [Eval.run_bindParameters]
  by_cases refused : args.length ≠ formals.length ∧ world.strictArity = true
  · have counted : (args.length ≠ formals.length && world.strictArity) = true := by simpa using refused
    rw [if_pos counted]
    exact ⟨iff_of_true ⟨_, rfl⟩ refused, .inl rfl⟩
  · have counted : ¬ (args.length ≠ formals.length && world.strictArity) = true := by simpa using refused
    rw [if_neg counted]
    refine ⟨iff_of_false ?_ refused, .inr ⟨_, rfl, newScope_addFrame s formals args captured⟩⟩
    rintro ⟨_, ⟨⟩⟩

example : Bindings.putAll [] (parameters [⟨"x"⟩, ⟨"y"⟩, ⟨"x"⟩] [.int 1, .int 2]) =
    [(⟨"x"⟩, .unspecified), (⟨"y"⟩, .int 2)] := rfl

end MicroScheme
