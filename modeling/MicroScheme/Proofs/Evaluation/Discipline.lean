import MicroScheme.Proofs.Evaluation.Charter

set_option autoImplicit false

namespace MicroScheme

structure Discipline where
  store : Store → Prop
  scope : Store → ScopeId → Prop
  code : Store → Value → Prop
  value : Store → Value → Prop

namespace Discipline

variable {D : Discipline} {world : World} {eval : Evaluator} {s : Store} {e : ScopeId}

structure Later (D : Discipline) (s t : Store) : Prop where
  store : D.store t
  scope : ∀ {e}, D.scope s e → D.scope t e
  code : ∀ {x}, D.code s x → D.code t x
  value : ∀ {v}, D.value s v → D.value t v

theorem later_refl (hs : D.store s) : D.Later s s := ⟨hs, id, id, id⟩

theorem Later.trans {s t u : Store} (first : D.Later s t) (next : D.Later t u) : D.Later s u :=
  ⟨next.store, next.scope ∘ first.scope, next.code ∘ first.code, next.value ∘ first.value⟩

/-- The charter of a discipline, whose record is the store itself. -/
def charter (D : Discipline) : Charter Store where
  view := id
  later := D.Later
  store := D.store
  scope := D.scope
  form := D.code
  code := D.code
  value := D.value
  failure _ := True

theorem lasts (D : Discipline) : D.charter.Lasts where
  refl hs := later_refl hs
  trans := Later.trans
  store := Later.store
  scope later := later.scope
  form later := later.code
  code later := later.code
  value later := later.value

theorem moves {t : Store} {post : Store → Prop} (later : D.Later s t) (holds : post t) : D.charter.Moves s t post :=
  ⟨t, rfl, later, holds⟩

theorem keptBy (hosts : ∀ id, (world.host id).KeepsStore) {p : Native} {args : List Value} (hs : D.store s)
    (value : ∀ v, (p.call world e args s).1 = .ok v → D.value s v) : D.charter.KeptBy world p s e args :=
  D.lasts.keptBy hosts hs value fun _ _ => trivial

def Keeps (D : Discipline) (eval : Evaluator) : Prop :=
  ∀ {s e x}, D.store s → D.scope s e → D.code s x → Ensures D.Later (eval x e) s D.value

theorem Keeps.charter (keeps : D.Keeps eval) : D.charter.Keeps eval :=
  fun hs he hx => (keeps hs he hx).attains

theorem apply (laws : D.charter.Kept world) (keeps : D.Keeps eval) {p : Value} {args : List Value}
    (hs : D.store s) (he : D.scope s e) (hp : D.value s p) (ha : ∀ v ∈ args, D.value s v) :
    Ensures D.Later (MicroScheme.apply world eval p args e) s D.value :=
  (laws.apply keeps.charter hs he hp ha).ensures

theorem evaluate (laws : D.charter.Kept world) (depth : Nat) : D.Keeps (MicroScheme.evaluate world depth) :=
  fun hs he hx => (laws.evaluate trivial depth hs he hx).ensures

end Discipline

end MicroScheme
