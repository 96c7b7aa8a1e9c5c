import Mathlib.Data.List.Find
import MicroScheme.Proofs.Store.Frame
import MicroScheme.Proofs.Value.Native

set_option autoImplicit false

namespace MicroScheme

/-- How the states of two runs correspond, and by which failures either run may end before the other. -/
structure Pairing where
  same : Nat → Nat → Prop
  allowed : ScopeId → Prop
  other : ScopeId → Frame → Frame → Prop
  leftExcused : Failure → Prop
  rightExcused : Failure → Prop

namespace Pairing

abbrev Alike (P : Pairing) (v w : Value) : Prop := Value.Alike P.same P.allowed v w

structure FrameAlike (P : Pairing) (f g : Frame) : Prop where
  outer : f.outer = g.outer
  outward : ∀ o, f.outer = some o → P.allowed o
  bindings : Bindings.Alike P.same P.allowed f.bindings g.bindings

/-- Closures and scopes that are made from now on correspond, and so do the allowed scopes that there are. -/
structure Agree (P : Pairing) (s t : Store) : Prop where
  size : s.frames.size = t.frames.size
  closures : ∀ k, P.same (s.closures + k) (t.closures + k)
  fresh : ∀ d, s.frames.size ≤ d → P.allowed d
  frames : ∀ d, P.allowed d → P.FrameAlike (s.frame d) (t.frame d)
  others : ∀ d, ¬ P.allowed d → P.other d (s.frame d) (t.frame d)

variable {P : Pairing}

theorem FrameAlike.eq {f g : Frame} (h : P.FrameAlike f g) (equal : ∀ i j, P.same i j → i = j) : f = g := by
  have bindings := h.bindings.eq equal
  have outer := h.outer
  cases f
  cases g
  rw [Frame.mk.injEq]
  exact ⟨bindings, outer⟩

theorem bindings_get? {b c : Bindings} (h : Bindings.Alike P.same P.allowed b c) (n : Symbol) :
    (b.get? n = none ∧ c.get? n = none) ∨ ∃ v w, b.get? n = some v ∧ c.get? n = some w ∧ P.Alike v w := by
  induction h with
  | nil => exact .inl ⟨rfl, rfl⟩
  | @cons p q b c hpq _ ih =>
    rw [Bindings.get?, Bindings.get?, ← hpq.1]
    split
    · exact .inr ⟨p.2, q.2, rfl, rfl, hpq.2⟩
    · exact ih

theorem bindings_binds {b c : Bindings} (h : Bindings.Alike P.same P.allowed b c) (n : Symbol) :
    b.binds n = c.binds n := by
  rcases bindings_get? h n with ⟨hb, hc⟩ | ⟨v, w, hb, hc, _⟩
  · rw [Bindings.binds, Bindings.binds, hb, hc]
  · rw [Bindings.binds, Bindings.binds, hb, hc]
    rfl

theorem bindings_put {b c : Bindings} (h : Bindings.Alike P.same P.allowed b c) (n : Symbol) {v w : Value}
    (hvw : P.Alike v w) : Bindings.Alike P.same P.allowed (b.put n v) (c.put n w) := by
  induction h with
  | nil => exact .cons ⟨rfl, hvw⟩ .nil
  | @cons p q b c hpq hbc ih =>
    rw [Bindings.put, Bindings.put, ← hpq.1]
    split
    · exact .cons ⟨rfl, hvw⟩ hbc
    · exact .cons ⟨rfl, hpq.2⟩ ih

theorem bindings_putAll {b c ps qs : Bindings} (h : Bindings.Alike P.same P.allowed b c)
    (hps : Bindings.Alike P.same P.allowed ps qs) :
    Bindings.Alike P.same P.allowed (b.putAll ps) (c.putAll qs) := by
  induction hps generalizing b c with
  | nil => exact h
  | @cons p q ps qs hpq _ ih =>
    rw [Bindings.putAll, Bindings.putAll, List.foldl_cons, List.foldl_cons, ← hpq.1]
    exact ih (bindings_put h _ hpq.2)

theorem parameters_alike (formals : List Symbol) {xs ys : List Value} (h : List.Forall₂ P.Alike xs ys) :
    Bindings.Alike P.same P.allowed (parameters formals xs) (parameters formals ys) := by
  induction formals generalizing xs ys with
  | nil => exact .nil
  | cons n formals ih =>
    cases h with
    | nil => exact .cons ⟨rfl, .unspecified⟩ (ih .nil)
    | cons hxy hs => exact .cons ⟨rfl, hxy⟩ (ih hs)

namespace Agree

variable {s t : Store} {e : ScopeId}

theorem chainFrom (agree : P.Agree s t) (he : P.allowed e) (fuel : Nat) :
    s.chainFrom fuel e = t.chainFrom fuel e := by
  induction fuel generalizing e with
  | zero => rfl
  | succ fuel ih =>
    have frames := agree.frames e he
    rw [Store.chainFrom, Store.chainFrom, ← frames.outer]
    cases ho : (s.frame e).outer with
    | none => rfl
    | some o => exact congrArg (e :: ·) (ih (frames.outward o ho))

theorem allowed_of_chain (agree : P.Agree s t) (he : P.allowed e) {d : ScopeId} (hd : d ∈ s.chain e) :
    P.allowed d :=
  Store.mem_chainFrom (fun c o hc ho => (agree.frames c hc).outward o ho) he hd

theorem owner? (agree : P.Agree s t) (he : P.allowed e) (n : Symbol) : s.owner? e n = t.owner? e n := by
  have chains : s.chain e = t.chain e := by
    rw [Store.chain, Store.chain, ← agree.size]
    exact agree.chainFrom he _
  rw [Store.owner?, Store.owner?, ← chains]
  refine List.find?_congr fun d hd => ?_
  exact bindings_binds (agree.frames d (agree.allowed_of_chain he hd)).bindings n

theorem lookup? (agree : P.Agree s t) (he : P.allowed e) (n : Symbol) :
    (s.lookup? e n = none ∧ t.lookup? e n = none) ∨
      ∃ v w, s.lookup? e n = some v ∧ t.lookup? e n = some w ∧ P.Alike v w := by
  rw [Store.lookup?, Store.lookup?, ← agree.owner? he]
  cases ho : s.owner? e n with
  | none => exact .inl ⟨rfl, rfl⟩
  | some d =>
    have hd : P.allowed d := agree.allowed_of_chain he (Store.owner?_mem_chain ho)
    exact bindings_get? (agree.frames d hd).bindings n

theorem define (agree : P.Agree s t) {d : ScopeId} (hd : P.allowed d) (n : Symbol) {v w : Value}
    (hvw : P.Alike v w) : P.Agree (s.define d n v) (t.define d n w) where
  size := by
    rw [Store.size_define, Store.size_define]
    exact agree.size
  closures := agree.closures
  fresh c hc := agree.fresh c (Store.size_define s d n v ▸ hc)
  frames c hc := by
    have frames := agree.frames c hc
    rw [Store.frame_define, Store.frame_define, ← agree.size]
    split
    · exact ⟨frames.outer, frames.outward, bindings_put frames.bindings n hvw⟩
    · exact frames
  others c hc := by
    have different : d ≠ c := by
      rintro rfl
      exact hc hd
    rw [Store.frame_define, Store.frame_define, if_neg fun both => different both.1,
      if_neg fun both => different both.1]
    exact agree.others c hc

theorem addFrame (agree : P.Agree s t) {f g : Frame} (hfg : P.FrameAlike f g) :
    P.Agree (s.addFrame f) (t.addFrame g) where
  size := by
    rw [Store.size_addFrame, Store.size_addFrame, agree.size]
  closures := agree.closures
  fresh d hd := by
    rw [Store.size_addFrame] at hd
    exact agree.fresh d (Nat.le_of_succ_le hd)
  frames d hd := by
    rw [Store.frame_addFrame, Store.frame_addFrame, Store.nextScope, Store.nextScope, ← agree.size]
    split
    · exact hfg
    · exact agree.frames d hd
  others d hd := by
    have old : d ≠ s.nextScope := by
      rintro rfl
      exact hd (agree.fresh _ (Nat.le_refl _))
    have old' : d ≠ t.nextScope := by
      rw [Store.nextScope, ← agree.size]
      exact old
    rw [Store.frame_addFrame, Store.frame_addFrame, if_neg old, if_neg old']
    exact agree.others d hd

theorem newClosure (agree : P.Agree s t) :
    P.Agree { s with closures := s.closures + 1 } { t with closures := t.closures + 1 } where
  size := agree.size
  closures k := by
    have later := agree.closures (1 + k)
    rw [← Nat.add_assoc, ← Nat.add_assoc] at later
    exact later
  fresh := agree.fresh
  frames := agree.frames
  others := agree.others

end Agree

end Pairing

end MicroScheme
