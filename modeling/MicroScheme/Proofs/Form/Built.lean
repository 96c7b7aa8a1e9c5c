import MicroScheme.Form

set_option autoImplicit false

namespace MicroScheme.Form

/-- What holds of every atom of the tokens, and of a list if it holds of the items. -/
structure Builds (p : Value → Prop) (ts : List Token) : Prop where
  atom : ∀ t ∈ ts, t ≠ Token.opening → t ≠ Token.closing → p (Atom.ofToken t)
  list : ∀ items, (∀ x ∈ items, p x) → p (.list items)

def OpenLists.Each (p : Value → Prop) (lists : OpenLists) : Prop := ∀ items ∈ lists, ∀ x ∈ items, p x

def Progress.Each (p : Value → Prop) : Progress → Prop
  | .reading lists => OpenLists.Each p lists
  | .complete v => p v
  | .stray => True

variable {p : Value → Prop}

theorem OpenLists.each_nil : OpenLists.Each p [] := fun _ mem => (nomatch mem)

theorem Progress.place_each {v : Value} {lists : OpenLists} (hv : p v) (h : OpenLists.Each p lists) :
    (Progress.place v lists).Each p := by
  cases lists with
  | nil => exact hv
  | cons items outer =>
    have inner := h items List.mem_cons_self
    intro items' mem
    rcases List.mem_cons.1 mem with rfl | mem
    · exact List.forall_mem_cons.2 ⟨hv, inner⟩
    · exact h items' (List.mem_cons_of_mem _ mem)

theorem Progress.take_each {t : Token} {ts : List Token} {lists : OpenLists} (builds : Builds p (t :: ts))
    (h : OpenLists.Each p lists) : (Progress.take lists t).Each p := by
  unfold Progress.take
  split
  · intro items mem
    rcases List.mem_cons.1 mem with rfl | mem
    · simp
    · exact h items mem
  · next notOpening =>
    split
    · cases lists with
      | nil => trivial
      | cons items outer =>
        have list : p (.list items.reverse) :=
          builds.list _ fun x hx => h items List.mem_cons_self x (List.mem_reverse.1 hx)
        exact place_each list fun items' mem => h items' (List.mem_cons_of_mem _ mem)
    · next notClosing => exact place_each (builds.atom t List.mem_cons_self notOpening notClosing) h

theorem Builds.tail {t : Token} {ts : List Token} (builds : Builds p (t :: ts)) : Builds p ts :=
  ⟨fun u hu => builds.atom u (List.mem_cons_of_mem _ hu), builds.list⟩

theorem readWithin_built {ts : List Token} {lists : OpenLists} (builds : Builds p ts)
    (h : OpenLists.Each p lists) {v : Value} (hv : (readWithin lists ts).1 = .ok v) : p v := by
  induction ts generalizing lists with
  | nil => cases hv
  | cons t ts ih =>
    have each := Progress.take_each builds h
    rw [readWithin] at hv
    cases progress : Progress.take lists t with
    | reading inner =>
      rw [progress] at hv each
      exact ih builds.tail each hv
    | complete w =>
      rw [progress] at hv each
      exact Except.ok.inj hv ▸ each
    | stray =>
      rw [progress] at hv
      cases hv

theorem readAllWithin_built {ts : List Token} {lists : OpenLists} (builds : Builds p ts)
    (h : OpenLists.Each p lists) : ∀ v ∈ (readAllWithin lists ts).1, p v := by
  induction ts generalizing lists with
  | nil => cases lists <;> simp [readAllWithin]
  | cons t ts ih =>
    have each := Progress.take_each builds h
    rw [readAllWithin]
    cases progress : Progress.take lists t with
    | reading inner =>
      rw [progress] at each
      exact ih builds.tail each
    | complete w =>
      rw [progress] at each
      exact List.forall_mem_cons.2 ⟨each, ih builds.tail OpenLists.each_nil⟩
    | stray => simp

theorem read_built {text : String} (builds : Builds p (Token.ofText text)) {v : Value}
    (hv : ofText text = .ok v) : p v :=
  readWithin_built builds OpenLists.each_nil hv

theorem readAll_built {text : String} (builds : Builds p (Token.ofText text)) :
    ∀ v ∈ (allOfText text).1, p v :=
  readAllWithin_built builds OpenLists.each_nil

end MicroScheme.Form
