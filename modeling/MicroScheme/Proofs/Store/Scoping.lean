import MicroScheme.Proofs.Evaluation.Run
import MicroScheme.Proofs.Store.Frame

set_option autoImplicit false

namespace MicroScheme.Store

/-- Every scope that lies in another lies in one made before it, so that the scopes form trees. -/
def Rooted (s : Store) : Prop := ∀ d o, (s.frame d).outer = some o → o < d

/-- The second scope is the first one or lies around it. -/
inductive Outside (s : Store) : ScopeId → ScopeId → Prop where
  | here {e : ScopeId} : Outside s e e
  | outer {e o d : ScopeId} : (s.frame e).outer = some o → Outside s o d → Outside s e d

/-- From the first scope outward, the second is the nearest one that binds the symbol. -/
inductive Nearest (s : Store) (n : Symbol) : ScopeId → ScopeId → Prop where
  | here {e : ScopeId} : n ∈ (s.frame e).bindings.names → Nearest s n e e
  | outer {e o d : ScopeId} : n ∉ (s.frame e).bindings.names → (s.frame e).outer = some o → Nearest s n o d →
    Nearest s n e d

variable {s t : Store} {e d c : ScopeId} {m n : Symbol} {v : Value}

theorem Nearest.binds (h : s.Nearest n e d) : n ∈ (s.frame d).bindings.names := by
  induction h with
  | here binds => exact binds
  | outer _ _ _ ih => exact ih

theorem Nearest.outside (h : s.Nearest n e d) : s.Outside e d := by
  induction h with
  | here _ => exact .here
  | outer _ out _ ih => exact .outer out ih

theorem Outside.exists_nearest (h : s.Outside e d) (binds : n ∈ (s.frame d).bindings.names) :
    ∃ c, s.Nearest n e c := by
  induction h with
  | here => exact ⟨_, .here binds⟩
  | @outer e o d out _ ih =>
    by_cases own : n ∈ (s.frame e).bindings.names
    · exact ⟨e, .here own⟩
    · obtain ⟨c, nearest⟩ := ih binds
      exact ⟨c, .outer own out nearest⟩

theorem nearest_congr (outers : ∀ d, (t.frame d).outer = (s.frame d).outer)
    (names : ∀ d, n ∈ (t.frame d).bindings.names ↔ n ∈ (s.frame d).bindings.names) :
    t.Nearest n e d ↔ s.Nearest n e d := by
  constructor
  · intro h
    induction h with
    | here binds => exact .here ((names _).1 binds)
    | outer free out _ ih => exact .outer (fun binds => free ((names _).2 binds)) (outers _ ▸ out) ih
  · intro h
    induction h with
    | here binds => exact .here ((names _).2 binds)
    | outer free out _ ih => exact .outer (fun binds => free ((names _).1 binds)) ((outers _).trans out) ih

theorem nearest_iff_of_binds (own : n ∈ (s.frame e).bindings.names) : s.Nearest n e d ↔ e = d := by
  constructor
  · rintro (_ | ⟨free, _, _⟩)
    · rfl
    · exact absurd own free
  · rintro rfl
    exact .here own

theorem nearest_iff_of_free (free : n ∉ (s.frame e).bindings.names) :
    s.Nearest n e d ↔ ∃ o, (s.frame e).outer = some o ∧ s.Nearest n o d := by
  constructor
  · rintro (binds | ⟨_, out, nearest⟩)
    · exact absurd binds free
    · exact ⟨_, out, nearest⟩
  · rintro ⟨o, out, nearest⟩
    exact .outer free out nearest

theorem find?_chainFrom_iff (rooted : s.Rooted) (fuel : Nat) (h : e < fuel) :
    ((s.chainFrom fuel e).find? fun d => (s.frame d).bindings.binds n) = some d ↔ s.Nearest n e d := by
  induction fuel generalizing e with
  | zero => exact absurd h (Nat.not_lt_zero e)
  | succ fuel ih =>
    rw [chainFrom]
    by_cases own : n ∈ (s.frame e).bindings.names
    · have found : (s.frame e).bindings.binds n = true := Bindings.binds_iff.2 own
      rw [nearest_iff_of_binds own]
      split <;> rw [List.find?_cons_of_pos (by exact found), Option.some.injEq]
    · have missed : ¬ (s.frame e).bindings.binds n = true := fun found => own (Bindings.binds_iff.1 found)
      rw [nearest_iff_of_free own]
      cases ho : (s.frame e).outer with
      | none =>
        rw [List.find?_cons_of_neg (by exact missed)]
        simp
      | some o =>
        -- going outward the numbers of the scopes decrease, and so the fuel lasts
        rw [List.find?_cons_of_neg (by exact missed),
          ih (Nat.lt_of_lt_of_le (rooted e o ho) (Nat.le_of_lt_succ h))]
        simp

theorem owner?_eq_some_iff (rooted : s.Rooted) : s.owner? e n = some d ↔ s.Nearest n e d := by
  by_cases there : e < s.frames.size
  · exact find?_chainFrom_iff rooted _ there
  · have empty : s.frame e = ⟨[], none⟩ := frame_of_ge (Nat.le_of_not_lt there)
    constructor
    · intro found
      have outward : ∀ c o, c = e → (s.frame c).outer = some o → o = e := by
        rintro c o rfl ho
        rw [empty] at ho
        cases ho
      have binds := owner?_binds found
      rw [mem_chainFrom outward rfl (owner?_mem_chain found), empty] at binds
      cases binds
    · rintro (binds | ⟨_, out, _⟩)
      · rw [empty] at binds
        cases binds
      · rw [empty] at out
        cases out

theorem owner?_eq_none_iff (rooted : s.Rooted) :
    s.owner? e n = none ↔ ∀ d, s.Outside e d → n ∉ (s.frame d).bindings.names := by
  rw [Option.eq_none_iff_forall_ne_some]
  constructor
  · intro unowned d outside binds
    obtain ⟨c, nearest⟩ := outside.exists_nearest binds
    exact unowned c ((owner?_eq_some_iff rooted).2 nearest)
  · intro free d owner
    have nearest := (owner?_eq_some_iff rooted).1 owner
    exact free d nearest.outside nearest.binds

theorem lookup?_eq (s : Store) (e : ScopeId) (n : Symbol) :
    s.lookup? e n = (s.owner? e n).bind fun d => (s.frame d).bindings.get? n := rfl

theorem lt_size_of_names (h : n ∈ (s.frame d).bindings.names) : d < s.frames.size := by
  refine Nat.lt_of_not_le fun absent => ?_
  rw [frame_of_ge absent] at h
  cases h

theorem lookup?_of_bound (bound : (s.frame e).bindings.get? n = some v) : s.lookup? e n = some v := by
  have own : (s.frame e).bindings.binds n = true := by rw [Bindings.binds, bound, Option.isSome_some]
  have there : e < s.frames.size := lt_size_of_names (Bindings.binds_iff.1 own)
  obtain ⟨rest, first⟩ : ∃ rest, s.chain e = e :: rest := by
    obtain ⟨fuel, hfuel⟩ := Nat.exists_eq_succ_of_ne_zero (Nat.ne_zero_of_lt there)
    rw [chain, hfuel, chainFrom]
    split
    · exact ⟨[], rfl⟩
    · exact ⟨_, rfl⟩
  have owner : s.owner? e n = some e := by
    rw [owner?, first]
    exact List.find?_cons_of_pos own
  rw [lookup?_eq, owner]
  exact bound

theorem lookup?_of_free (rooted : s.Rooted) (free : (s.frame e).bindings.get? n = none)
    (out : (s.frame e).outer = some d) : s.lookup? e n = s.lookup? d n := by
  have absent : n ∉ (s.frame e).bindings.names := fun own => by
    have bound := Bindings.binds_iff.2 own
    rw [Bindings.binds, free] at bound
    cases bound
  have owner : s.owner? e n = s.owner? d n := by
    ext c
    rw [owner?_eq_some_iff rooted, owner?_eq_some_iff rooted, nearest_iff_of_free absent]
    simp [out]
  rw [lookup?_eq, owner, lookup?_eq]

theorem owner?_congr (rooted : s.Rooted) (rooted' : t.Rooted) (h : ∀ d, t.Nearest n e d ↔ s.Nearest n e d) :
    t.owner? e n = s.owner? e n := by
  ext d
  rw [owner?_eq_some_iff rooted', owner?_eq_some_iff rooted]
  exact h d

theorem Rooted.define (rooted : s.Rooted) (e : ScopeId) (n : Symbol) (v : Value) : (s.define e n v).Rooted := by
  intro d o ho
  rw [outer_define] at ho
  exact rooted d o ho

theorem mem_names_define : m ∈ ((s.define e n v).frame d).bindings.names ↔
    (m = n ∧ e = d ∧ d < s.frames.size) ∨ m ∈ (s.frame d).bindings.names := by
  rw [frame_define]
  split
  · next here =>
    rw [Bindings.names_put]
    split
    · next bound =>
      constructor
      · exact .inr
      · rintro (⟨rfl, _⟩ | mem)
        · exact bound
        · exact mem
    · rw [List.mem_append, List.mem_singleton, or_comm]
      simp [here]
  · next elsewhere => simp [elsewhere]

theorem get?_define_self (v : Value) (there : e < s.frames.size) :
    ((s.define e n v).frame e).bindings.get? n = some v := by
  rw [frame_define, if_pos ⟨rfl, there⟩]
  exact Bindings.get?_put_self n v _

theorem get?_define_of_ne (v : Value) (h : m ≠ n ∨ e ≠ d) :
    ((s.define e n v).frame d).bindings.get? m = (s.frame d).bindings.get? m := by
  rw [frame_define]
  split
  · next here =>
    rcases h with other | elsewhere
    · exact Bindings.get?_put_of_ne v _ other
    · exact absurd here.1 elsewhere
  · rfl

theorem lookup?_define_of_owner (owner : (s.define c n v).owner? d m = s.owner? d m)
    (other : m ≠ n ∨ s.owner? d m ≠ some c) : (s.define c n v).lookup? d m = s.lookup? d m := by
  rw [lookup?_eq, lookup?_eq, owner]
  cases ho : s.owner? d m with
  | none => rfl
  | some o => exact get?_define_of_ne v (other.imp_right fun elsewhere same => elsewhere (same ▸ ho))

theorem lookup?_define_self (rooted : s.Rooted) (nearest : (s.define e n v).Nearest n d e) :
    (s.define e n v).lookup? d n = some v := by
  rw [lookup?_eq, (owner?_eq_some_iff (rooted.define e n v)).2 nearest]
  have there := lt_size_of_names nearest.binds
  rw [size_define] at there
  exact get?_define_self v there

/-- A definition takes a symbol away from its owner only where it makes itself the owner. -/
theorem nearest_define_of_ne (h : ¬ (m = n ∧ (s.define e n v).Nearest n d e)) :
    (s.define e n v).Nearest m d c ↔ s.Nearest m d c := by
  by_cases same : m = n
  · subst same
    have away : ¬ (s.define e m v).Nearest m d e := fun nearest => h ⟨rfl, nearest⟩
    constructor
    · intro nearest
      induction nearest with
      | @here d binds =>
        rcases mem_names_define.1 binds with ⟨_, rfl, _⟩ | old
        · exact (away (.here binds)).elim
        · exact .here old
      | outer free out nearest ih =>
        have away' := fun inner => away (.outer free out inner)
        rw [outer_define] at out
        exact .outer (fun old => free (mem_names_define.2 (.inr old))) out
          (ih (fun both => away' both.2) away')
    · intro nearest
      induction nearest with
      | @here d old => exact .here (mem_names_define.2 (.inr old))
      | @outer d o c free out nearest ih =>
        have away' : m ∉ ((s.define e m v).frame d).bindings.names := by
          intro binds
          rcases mem_names_define.1 binds with ⟨_, rfl, _⟩ | old
          · exact away (.here binds)
          · exact free old
        have out' : ((s.define e m v).frame d).outer = some o := (outer_define s e d m v).trans out
        have further := fun inner => away (.outer away' out' inner)
        exact .outer away' out' (ih (fun both => further both.2) further)
  · refine nearest_congr (outer_define s e · n v) fun d => ?_
    rw [mem_names_define, or_iff_right fun both => same both.1]

theorem lookup?_define_of_ne (rooted : s.Rooted) (h : ¬ (m = n ∧ (s.define e n v).Nearest n d e)) :
    (s.define e n v).lookup? d m = s.lookup? d m := by
  have owner : (s.define e n v).owner? d m = s.owner? d m :=
    owner?_congr rooted (rooted.define e n v) fun c => nearest_define_of_ne h
  refine lookup?_define_of_owner owner ?_
  by_cases same : m = n
  · refine .inr fun own => h ⟨same, ?_⟩
    rw [← owner, owner?_eq_some_iff (rooted.define e n v), same] at own
    exact own
  · exact .inl same

theorem owner?_define_owned (rooted : s.Rooted) (owned : n ∈ (s.frame c).bindings.names) (d : ScopeId) (m : Symbol) :
    (s.define c n v).owner? d m = s.owner? d m := by
  refine owner?_congr rooted (rooted.define c n v) fun o => nearest_congr (outer_define s c · n v) fun d => ?_
  rw [mem_names_define, or_iff_right_iff_imp]
  rintro ⟨rfl, rfl, _⟩
  exact owned

theorem lookup?_define_owned (rooted : s.Rooted) (owned : n ∈ (s.frame c).bindings.names)
    (owner : s.owner? d n = some c) : (s.define c n v).lookup? d n = some v := by
  rw [lookup?_eq, owner?_define_owned rooted owned, owner]
  exact get?_define_self v (lt_size_of_names owned)

theorem run_lookup_congr {w : Option Value} (left : t.lookup? d m = w) (right : s.lookup? d m = w) :
    ((Eval.lookup m d).run t).1 = ((Eval.lookup m d).run s).1 := by
  rw [Eval.run_lookup, Eval.run_lookup, left, right]
  cases w <;> rfl

theorem run_assign_ok_iff :
    (Eval.assign n v e).run s = (.ok (), t) ↔ ∃ c, s.owner? e n = some c ∧ t = s.define c n v := by
  rw [Eval.run_assign]
  cases s.owner? e n with
  | none => exact ⟨nofun, nofun⟩
  | some c =>
    constructor
    · rintro ⟨⟩
      exact ⟨c, rfl, rfl⟩
    · rintro ⟨_, ⟨⟩, rfl⟩
      rfl

theorem run_assign_error_iff {f : Failure} :
    (Eval.assign n v e).run s = (.error f, t) ↔ s.owner? e n = none ∧ f = .unbound n.name ∧ t = s := by
  rw [Eval.run_assign]
  cases s.owner? e n with
  | none =>
    constructor
    · rintro ⟨⟩
      exact ⟨rfl, rfl, rfl⟩
    · rintro ⟨_, rfl, rfl⟩
      rfl
  | some c => exact ⟨nofun, nofun⟩

/-- Defining a symbol changes its lookups from where the scope of the definition is now the nearest that binds it;
assigning it, its lookups from where it has the same owner; and nothing else. An assignment fails exactly if no scope
outward binds the symbol, and then writes nothing. -/
theorem lookup_after_write {s : Store} (rooted : s.Rooted) (e : ScopeId) (n : Symbol) (v : Value) :
    (∃ t, (Eval.define n v e).run s = (.ok (), t) ∧ ∀ d m,
      (m = n ∧ t.Nearest n d e → (Eval.lookup m d).run t = (.ok v, t)) ∧
      (¬ (m = n ∧ t.Nearest n d e) → ((Eval.lookup m d).run t).1 = ((Eval.lookup m d).run s).1)) ∧
    (∀ t, (Eval.assign n v e).run s = (.ok (), t) → ∀ d m, t.owner? d m = s.owner? d m ∧
      (m = n ∧ s.owner? d n = s.owner? e n → (Eval.lookup m d).run t = (.ok v, t)) ∧
      (¬ (m = n ∧ s.owner? d n = s.owner? e n) →
        ((Eval.lookup m d).run t).1 = ((Eval.lookup m d).run s).1)) ∧
    ((∃ f t, (Eval.assign n v e).run s = (.error f, t)) ↔
      ∀ d, s.Outside e d → n ∉ (s.frame d).bindings.names) ∧
    ∀ f t, (Eval.assign n v e).run s = (.error f, t) → f = .unbound n.name ∧ t = s := by
  refine ⟨⟨s.define e n v, rfl, fun d m => ⟨?_, fun h => ?_⟩⟩, fun t assigned d m => ?_, ?_, fun f t failed => ?_⟩
  · rintro ⟨rfl, nearest⟩
    rw [Eval.run_lookup, lookup?_define_self rooted nearest]
  · exact run_lookup_congr (lookup?_define_of_ne rooted h) rfl
  · obtain ⟨c, owner, rfl⟩ := run_assign_ok_iff.1 assigned
    have owned := owner?_binds owner
    have kept := owner?_define_owned (v := v) rooted owned d m
    refine ⟨kept, ?_, fun h => ?_⟩
    · rintro ⟨rfl, same⟩
      rw [Eval.run_lookup, lookup?_define_owned rooted owned (same.trans owner)]
    · refine run_lookup_congr (lookup?_define_of_owner kept ?_) rfl
      by_cases same : m = n
      · exact .inr fun other => h ⟨same, owner ▸ same ▸ other⟩
      · exact .inl same
  · rw [← owner?_eq_none_iff rooted]
    constructor
    · rintro ⟨f, t, failed⟩
      exact (run_assign_error_iff.1 failed).1
    · exact fun unowned => ⟨_, s, run_assign_error_iff.2 ⟨unowned, rfl, rfl⟩⟩
  · exact (run_assign_error_iff.1 failed).2

theorem lookup_after_write_of_shadowed :
    let n : Symbol := ⟨"n"⟩
    let s : Store := ⟨#[⟨[(n, .int 1)], none⟩, ⟨[], some 0⟩, ⟨[(⟨"m"⟩, .int 2)], some 1⟩, ⟨[], some 0⟩], 0⟩
    s.Rooted ∧
      (∃ t, (Eval.define n (.int 3) 1).run s = (.ok (), t) ∧ (Eval.lookup n 2).run t = (.ok (.int 3), t) ∧
        ((Eval.lookup n 3).run t).1 = ((Eval.lookup n 3).run s).1) ∧
      (∃ t, (Eval.assign n (.int 3) 1).run s = (.ok (), t) ∧ (Eval.lookup n 3).run t = (.ok (.int 3), t) ∧
        ((Eval.lookup ⟨"m"⟩ 2).run t).1 = ((Eval.lookup ⟨"m"⟩ 2).run s).1) ∧
      ∃ f t, (Eval.assign ⟨"m"⟩ (.int 3) 1).run s = (.error f, t) := by
  intro n s
  have rooted : s.Rooted := by
    intro d o ho
    match d with
    | 0 => cases ho
    | 1 | 2 | 3 =>
      cases ho
      decide
    | d + 4 =>
      rw [frame_of_ge (Nat.le_add_left 4 d)] at ho
      cases ho
  obtain ⟨⟨t, defined, after⟩, assigned, _⟩ := lookup_after_write rooted 1 n (.int 3)
  cases defined
  have nearest : (s.define 1 n (.int 3)).Nearest n 2 1 := .outer (by decide) rfl (.here (by decide))
  have farther : ¬ (s.define 1 n (.int 3)).Nearest n 3 1 := fun h =>
    absurd ((owner?_eq_some_iff (rooted.define 1 n _)).2 h) (by decide)
  have unbound := (owner?_eq_none_iff (s := s) (e := 1) (n := ⟨"m"⟩) rooted).1 (by decide)
  have written : (Eval.assign n (.int 3) 1).run s = (.ok (), s.define 0 n (.int 3)) := rfl
  exact ⟨rooted, ⟨_, rfl, (after 2 n).1 ⟨rfl, nearest⟩, (after 3 n).2 fun h => farther h.2⟩,
    ⟨_, written, (assigned _ written 3 n).2.1 ⟨rfl, by decide⟩, (assigned _ written 2 ⟨"m"⟩).2.2 (by decide)⟩,
    (lookup_after_write rooted 1 ⟨"m"⟩ (.int 3)).2.2.1.2 unbound⟩

end MicroScheme.Store
