import Mathlib.Data.List.Forall2

/-!
# Options and lists

What two machines have found, and what their functions are given, is related one by one:
nothing to nothing, and of two lists each member to the one at its place. What a run makes
is added at the end of a list, so that it keeps its place.
-/

namespace Option.Rel

variable {α β : Type} {R S : α → β → Prop} {o : Option α} {o' : Option β}

theorem imp (h : Rel R o o') (hRS : ∀ a b, R a b → S a b) : Rel S o o' := by
  cases h with
  | none => exact .none
  | some h => exact .some (hRS _ _ h)

theorem isSome_eq (h : Rel R o o') : o'.isSome = o.isSome := by cases h <;> rfl

end Option.Rel

namespace List

variable {α β : Type}

section Forall₂

variable {R : α → β → Prop} {as : List α} {bs : List β}

theorem Forall₂.exists_right (h : Forall₂ R as bs) {a : α} (ha : a ∈ as) : ∃ b, R a b := by
  obtain ⟨i, hi, rfl⟩ := mem_iff_getElem.mp ha
  exact ⟨_, h.get hi (h.length_eq ▸ hi)⟩

theorem Forall₂.exists_left (h : Forall₂ R as bs) {b : β} (hb : b ∈ bs) : ∃ a, R a b := by
  obtain ⟨i, hi, rfl⟩ := mem_iff_getElem.mp hb
  exact ⟨_, h.get (h.length_eq ▸ hi) hi⟩

end Forall₂

theorem IsPrefix.getElem?_eq_some {l l' : List α} (h : l <+: l') {i : Nat} {a : α}
    (ha : l[i]? = some a) : l'[i]? = some a := by
  obtain ⟨hlt, rfl⟩ := getElem?_eq_some_iff.mp ha
  exact prefix_iff_getElem?.mp h i hlt

/-- What is in a list to which one thing has been added was there before or is the new one. -/
theorem getElem?_concat_cases {l : List α} {a b : α} {i : Nat} (h : (l ++ [a])[i]? = some b) :
    l[i]? = some b ∨ (i = l.length ∧ b = a) := by
  rw [getElem?_append] at h
  split at h
  · exact .inl h
  · rename_i hge
    rw [getElem?_singleton] at h
    split at h
    · rename_i hzero
      cases h
      exact .inr ⟨Nat.le_antisymm (Nat.sub_eq_zero_iff_le.mp hzero) (Nat.le_of_not_lt hge), rfl⟩
    · cases h

/-- Of two places in a list one comes before the other, or they are the same. -/
theorem places_cases {l l₁ l₂ r₁ r₂ : List α} {a b : α} (h : l = l₁ ++ a :: r₁)
    (h' : l = l₂ ++ b :: r₂) :
    (l₁ = l₂ ∧ a = b) ∨ (∃ more, l₂ = l₁ ++ a :: more) ∨ ∃ more, l₁ = l₂ ++ b :: more := by
  rcases append_eq_append_iff.mp (h.symm.trans h') with ⟨more, rfl, hmore⟩ | ⟨more, rfl, hmore⟩
  · cases more with
    | nil => cases hmore; exact .inl ⟨(append_nil _).symm, rfl⟩
    | cons => cases hmore; exact .inr (.inl ⟨_, rfl⟩)
  · cases more with
    | nil => cases hmore; exact .inl ⟨append_nil _, rfl⟩
    | cons => cases hmore; exact .inr (.inr ⟨_, rfl⟩)

end List
