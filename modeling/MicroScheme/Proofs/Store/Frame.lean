import MicroScheme.Evaluation.Apply

set_option autoImplicit false

namespace MicroScheme

namespace Bindings

theorem mem_put {p : Symbol × Value} {n : Symbol} {v : Value} {b : Bindings} (h : p ∈ put n v b) :
    p = (n, v) ∨ p ∈ b := by
  induction b with
  | nil => exact .inl (List.mem_singleton.1 h)
  | cons q b ih =>
    by_cases hq : q.1 = n
    · rw [put, if_pos hq] at h
      rcases List.mem_cons.1 h with rfl | h
      · exact .inl (by rw [hq])
      · exact .inr (List.mem_cons_of_mem _ h)
    · rw [put, if_neg hq] at h
      rcases List.mem_cons.1 h with rfl | h
      · exact .inr List.mem_cons_self
      · exact (ih h).imp_right (List.mem_cons_of_mem _)

theorem nodup_put {n : Symbol} {b : Bindings} (v : Value) (h : (names b).Nodup) : (names (put n v b)).Nodup := by
  rw [names_put]
  split
  · exact h
  · next absent =>
    exact List.nodup_append.2 ⟨h, List.pairwise_singleton _ _, fun m hm k hk same =>
      absent (List.mem_singleton.1 hk ▸ same ▸ hm)⟩

theorem mem_putAll {p : Symbol × Value} {pairs : List (Symbol × Value)} {b : Bindings}
    (h : p ∈ putAll b pairs) : p ∈ pairs ∨ p ∈ b := by
  induction pairs generalizing b with
  | nil => exact .inr h
  | cons q pairs ih =>
    rcases ih (b := put q.1 q.2 b) h with h | h
    · exact .inl (List.mem_cons_of_mem _ h)
    · rcases mem_put h with rfl | h
      · exact .inl List.mem_cons_self
      · exact .inr h

theorem nodup_putAll (pairs : List (Symbol × Value)) {b : Bindings} (h : (names b).Nodup) :
    (names (putAll b pairs)).Nodup := by
  induction pairs generalizing b with
  | nil => exact h
  | cons q pairs ih => exact ih (nodup_put q.2 h)

theorem mem_of_get? {n : Symbol} {v : Value} {b : Bindings} (h : get? n b = some v) : (n, v) ∈ b := by
  induction b with
  | nil => simp [get?] at h
  | cons q b ih =>
    by_cases hq : q.1 = n
    · rw [get?, if_pos hq] at h
      rw [← hq, ← Option.some.inj h]
      exact List.mem_cons_self
    · rw [get?, if_neg hq] at h
      exact List.mem_cons_of_mem _ (ih h)

theorem binds_iff {n : Symbol} {b : Bindings} : binds n b = true ↔ n ∈ names b := by
  induction b with
  | nil => simp [binds, get?, names]
  | cons q b ih =>
    by_cases hq : q.1 = n
    · simp [binds, get?, names, hq]
    · have hn : n ∈ names (q :: b) ↔ n ∈ names b := by simp [names, Ne.symm hq]
      rw [hn, ← ih, binds, get?, if_neg hq, binds]

end Bindings

theorem mem_parameters {p : Symbol × Value} {ns : List Symbol} {vs : List Value} (h : p ∈ parameters ns vs) :
    p.2 ∈ vs ∨ p.2 = .unspecified := by
  induction ns generalizing vs with
  | nil => simp [parameters] at h
  | cons n ns ih =>
    cases vs with
    | nil =>
      rcases List.mem_cons.1 h with rfl | h
      · exact .inr rfl
      · exact ih h
    | cons v vs =>
      rcases List.mem_cons.1 h with rfl | h
      · exact .inl List.mem_cons_self
      · exact (ih h).imp_left (List.mem_cons_of_mem _)

namespace Store

theorem frame_of_ge {s : Store} {d : ScopeId} (h : s.frames.size ≤ d) : s.frame d = ⟨[], none⟩ := by
  rw [frame, Array.getElem?_eq_none h]
  rfl

theorem frame_initial (d : ScopeId) : initial.frame d = ⟨[], none⟩ := by
  cases d <;> rfl

theorem frame_define (s : Store) (e d : ScopeId) (n : Symbol) (v : Value) :
    (s.define e n v).frame d =
      if e = d ∧ d < s.frames.size then { s.frame d with bindings := (s.frame d).bindings.put n v }
      else s.frame d := by
  unfold frame define
  rw [Array.getElem?_modify]
  by_cases hd : d < s.frames.size
  · by_cases he : e = d <;> simp [he, hd]
  · simp [hd]

theorem frame_addFrame (s : Store) (f : Frame) (d : ScopeId) :
    (s.addFrame f).frame d = if d = s.nextScope then f else s.frame d := by
  unfold frame addFrame nextScope
  rw [Array.getElem?_push]
  split <;> rfl

theorem size_define (s : Store) (e : ScopeId) (n : Symbol) (v : Value) :
    (s.define e n v).frames.size = s.frames.size := Array.size_modify

theorem size_addFrame (s : Store) (f : Frame) : (s.addFrame f).frames.size = s.frames.size + 1 :=
  Array.size_push f

theorem outer_define (s : Store) (e d : ScopeId) (n : Symbol) (v : Value) :
    ((s.define e n v).frame d).outer = (s.frame d).outer := by
  rw [frame_define]
  split <;> rfl

theorem mem_chainFrom {s : Store} {p : ScopeId → Prop} (outward : ∀ d o, p d → (s.frame d).outer = some o → p o)
    {fuel : Nat} {e d : ScopeId} (he : p e) (hd : d ∈ s.chainFrom fuel e) : p d := by
  induction fuel generalizing e with
  | zero => simp [chainFrom] at hd
  | succ fuel ih =>
    rw [chainFrom] at hd
    cases ho : (s.frame e).outer with
    | none =>
      rw [ho] at hd
      exact List.mem_singleton.1 hd ▸ he
    | some o =>
      rw [ho] at hd
      rcases List.mem_cons.1 hd with rfl | hd
      · exact he
      · exact ih (outward e o he ho) hd

theorem owner?_binds {s : Store} {e d : ScopeId} {n : Symbol} (h : s.owner? e n = some d) :
    n ∈ (s.frame d).bindings.names := by
  have hd := List.find?_some h
  exact Bindings.binds_iff.1 hd

theorem owner?_mem_chain {s : Store} {e d : ScopeId} {n : Symbol} (h : s.owner? e n = some d) : d ∈ s.chain e :=
  List.mem_of_find?_eq_some h

theorem lookup?_eq_some {s : Store} {e : ScopeId} {n : Symbol} {v : Value} (h : s.lookup? e n = some v) :
    ∃ d, s.owner? e n = some d ∧ (n, v) ∈ (s.frame d).bindings := by
  obtain ⟨d, hd, hv⟩ := Option.bind_eq_some_iff.1 h
  exact ⟨d, hd, Bindings.mem_of_get? hv⟩

section

variable {P : Value → Prop} {s : Store} (bound : ∀ d, ∀ pair ∈ (s.frame d).bindings, P pair.2)

include bound

theorem bound_define (e : ScopeId) (n : Symbol) {v : Value} (hv : P v) (d : ScopeId) :
    ∀ pair ∈ ((s.define e n v).frame d).bindings, P pair.2 := by
  intro pair mem
  rw [frame_define] at mem
  split at mem
  · rcases Bindings.mem_put mem with rfl | mem
    · exact hv
    · exact bound d pair mem
  · exact bound d pair mem

theorem bound_addFrame {f : Frame} (hf : ∀ pair ∈ f.bindings, P pair.2) (d : ScopeId) :
    ∀ pair ∈ ((s.addFrame f).frame d).bindings, P pair.2 := by
  intro pair mem
  rw [frame_addFrame] at mem
  split at mem
  · exact hf pair mem
  · exact bound d pair mem

theorem bound_lookup? {e : ScopeId} {n : Symbol} {v : Value} (hv : s.lookup? e n = some v) : P v := by
  obtain ⟨d, _, mem⟩ := lookup?_eq_some hv
  exact bound d _ mem

end

end Store

end MicroScheme
