import Lox.Store

/-!
# What the operations on scopes do

One equation for each operation and each way to look at the scopes. A scope is only
ever looked at by its variables and its parent, so these say all of them.
-/

namespace Lox

theorem Bindings.lookup_insert (bindings : Bindings) (name n : String) (value : Value) :
    (bindings.insert name value).lookup n =
      if n = name then some value else bindings.lookup n := by
  induction bindings with
  | nil => simp only [insert, List.lookup_cons, List.lookup_nil]; grind
  | cons b rest ih =>
      obtain ⟨other, old⟩ := b
      rw [insert]
      split
      · rename_i h
        subst h
        simp only [List.lookup_cons]
        grind
      · simp only [List.lookup_cons, ih]
        grind

namespace Store

variable (store : Store)

/-- The number of scopes that exist. -/
def size : Nat := store.scopes.size

@[simp] theorem size_push (parent : Option ScopeId) : (store.push parent).2.size = store.size + 1 :=
  Array.size_push _

@[simp] theorem size_define (scope : ScopeId) (name : String) (value : Value) :
    (store.define scope name value).size = store.size :=
  Array.size_modify

theorem lookup?_push (parent : Option ScopeId) (s : ScopeId) (name : String) :
    (store.push parent).2.lookup? s name = store.lookup? s name := by
  rw [lookup?, lookup?, push, Array.getElem?_push]
  split
  · rename_i h
    subst h
    rw [Array.getElem?_eq_none (Nat.le_refl _)]
    rfl
  · rfl

theorem parent?_push (parent : Option ScopeId) (s : ScopeId) :
    (store.push parent).2.parent? s = if s = store.size then parent else store.parent? s := by
  rw [parent?, parent?, push, Array.getElem?_push, size]
  split <;> rfl

theorem lookup?_define (scope : ScopeId) (name : String) (value : Value) (s : ScopeId)
    (n : String) :
    (store.define scope name value).lookup? s n =
      if s = scope ∧ n = name ∧ s < store.size then some value else store.lookup? s n := by
  rw [lookup?, lookup?, define, Array.getElem?_modify, size]
  by_cases hs : scope = s
  · subst hs
    rw [if_pos rfl]
    by_cases hlt : scope < store.scopes.size
    · rw [Array.getElem?_eq_getElem hlt]
      show (Bindings.insert _ _ _).lookup n = _
      rw [Bindings.lookup_insert]
      grind
    · rw [Array.getElem?_eq_none (Nat.le_of_not_lt hlt)]
      grind
  · rw [if_neg hs]
    grind

theorem parent?_define (scope : ScopeId) (name : String) (value : Value) (s : ScopeId) :
    (store.define scope name value).parent? s = store.parent? s := by
  rw [parent?, parent?, define, Array.getElem?_modify]
  split
  · cases store.scopes[s]? <;> rfl
  · rfl

variable {store}

theorem lt_of_parent? {s p : ScopeId} (h : store.parent? s = some p) : s < store.size := by
  rw [parent?] at h
  rcases Nat.lt_or_ge s store.scopes.size with hlt | hge
  · exact hlt
  · rw [Array.getElem?_eq_none hge] at h
    cases h

theorem lt_of_lookup? {s : ScopeId} {name : String} {v : Value}
    (h : store.lookup? s name = some v) : s < store.size := by
  rw [lookup?] at h
  rcases Nat.lt_or_ge s store.scopes.size with hlt | hge
  · exact hlt
  · rw [Array.getElem?_eq_none hge] at h
    cases h

/-- How far out a scope is depends on the parents alone. -/
theorem ancestor?_congr {store' : Store} (hp : ∀ s, store'.parent? s = store.parent? s)
    (scope : ScopeId) (distance : Nat) :
    store'.ancestor? scope distance = store.ancestor? scope distance := by
  induction distance generalizing scope with
  | zero => rfl
  | succ distance ih =>
      rw [ancestor?, ancestor?, hp]
      exact Option.bind_congr fun parent _ => ih parent

/-- Which scope is the nearest depends on the parents and on where the name is bound. -/
theorem nearest?_congr {store' : Store} (hp : ∀ s, store'.parent? s = store.parent? s)
    {name name' : String}
    (hl : ∀ s, (store'.lookup? s name').isSome = (store.lookup? s name).isSome) (limit : Nat)
    (scope : ScopeId) : store'.nearest? name' limit scope = store.nearest? name limit scope := by
  induction limit generalizing scope with
  | zero => rfl
  | succ limit ih =>
      rw [nearest?, nearest?, hl, hp]
      congr 1
      exact Option.bind_congr fun parent _ => ih parent

/-- A scope that lies in no other is the only one to look in. -/
theorem nearest?_of_root {scope : ScopeId} (hroot : store.parent? scope = none) (name : String)
    {limit : Nat} (hlimit : 0 < limit) : store.nearest? name limit scope =
      if (store.lookup? scope name).isSome then some scope else none := by
  obtain ⟨limit, rfl⟩ := Nat.exists_eq_succ_of_ne_zero (Nat.ne_of_gt hlimit)
  rw [nearest?, hroot]
  rfl

/-- Nothing is bound in a scope that is yet to be made. -/
theorem lookup?_of_size_le {s : ScopeId} (h : store.size ≤ s) (name : String) :
    store.lookup? s name = none := by
  cases hv : store.lookup? s name with
  | none => rfl
  | some v => exact absurd (lt_of_lookup? hv) (Nat.not_lt_of_le h)

/-- The scopes of a list lie around one another, up to a last one around them all. -/
def Chain (store : Store) (last : ScopeId) : List ScopeId → ScopeId → Prop
  | [], scope => scope = last
  | s :: outer, scope => scope = s ∧ ∃ parent, store.parent? s = some parent ∧
    store.Chain last outer parent

theorem ancestor?_of_chain {last scope : ScopeId} {scopes : List ScopeId}
    (h : store.Chain last scopes scope) {distance : Nat} {s : ScopeId}
    (hs : scopes[distance]? = some s) : store.ancestor? scope distance = some s := by
  induction scopes generalizing scope distance with
  | nil => cases hs
  | cons x outer ih =>
      obtain ⟨rfl, parent, hp, hc⟩ := h
      cases distance with
      | zero => exact hs
      | succ distance =>
          rw [ancestor?, hp]
          exact ih hc hs

theorem Chain.mono {store' : Store}
    (hp : ∀ s parent, store.parent? s = some parent → store'.parent? s = some parent)
    {last scope : ScopeId} {scopes : List ScopeId} (h : store.Chain last scopes scope) :
    store'.Chain last scopes scope := by
  induction scopes generalizing scope with
  | nil => exact h
  | cons x outer ih =>
      obtain ⟨rfl, parent, hx, hc⟩ := h
      exact ⟨rfl, parent, hp _ _ hx, ih hc⟩

/-- Binds names one after the other in one scope. -/
def defineAll (store : Store) (scope : ScopeId) (bindings : List (Token × Value)) : Store :=
  bindings.foldl (fun store b => store.define scope b.1.lexeme b.2) store

theorem size_defineAll (store : Store) (scope : ScopeId) (bindings : List (Token × Value)) :
    (store.defineAll scope bindings).size = store.size := by
  induction bindings generalizing store with
  | nil => rfl
  | cons b bindings ih => exact (ih _).trans (size_define ..)

theorem parent?_defineAll (store : Store) (scope : ScopeId) (bindings : List (Token × Value))
    (s : ScopeId) : (store.defineAll scope bindings).parent? s = store.parent? s := by
  induction bindings generalizing store with
  | nil => rfl
  | cons b bindings ih => exact (ih _).trans (parent?_define ..)

theorem lookup?_defineAll_of_ne {scope s : ScopeId} (hs : s ≠ scope) (store : Store)
    (bindings : List (Token × Value)) (name : String) :
    (store.defineAll scope bindings).lookup? s name = store.lookup? s name := by
  induction bindings generalizing store with
  | nil => rfl
  | cons b bindings ih =>
      refine (ih _).trans ?_
      rw [lookup?_define, if_neg fun h => hs h.1]

theorem isSome_lookup?_defineAll {scope : ScopeId} (store : Store) (hs : scope < store.size)
    (bindings : List (Token × Value)) (name : String) :
    ((store.defineAll scope bindings).lookup? scope name).isSome ↔
      (∃ b ∈ bindings, b.1.lexeme = name) ∨ (store.lookup? scope name).isSome := by
  induction bindings generalizing store with
  | nil => simp [defineAll]
  | cons b bindings ih =>
      refine (ih (store.define scope b.1.lexeme b.2) (by rw [size_define]; exact hs)).trans ?_
      rw [lookup?_define]
      simp only [List.mem_cons, exists_eq_or_imp]
      grind

/-- What is found after binding a name was found before or is the new value. -/
theorem eq_of_lookup?_define {scope s : ScopeId} {store : Store} {name n : String}
    {value v : Value} (h : (store.define scope name value).lookup? s n = some v) :
    store.lookup? s n = some v ∨ v = value := by
  rw [lookup?_define] at h
  split at h
  · exact .inr (Option.some.inj h).symm
  · exact .inl h

/-- What is found after binding names was found before or is one of the new values. -/
theorem mem_of_lookup?_defineAll {scope s : ScopeId} (store : Store)
    (bindings : List (Token × Value)) {name : String} {v : Value}
    (h : (store.defineAll scope bindings).lookup? s name = some v) :
    store.lookup? s name = some v ∨ ∃ b ∈ bindings, b.2 = v := by
  induction bindings generalizing store with
  | nil => exact .inl h
  | cons b bindings ih =>
      rcases ih _ h with h | ⟨b', hb', rfl⟩
      · exact (eq_of_lookup?_define h).imp_right fun hv => ⟨b, List.mem_cons_self .., hv.symm⟩
      · exact .inr ⟨b', List.mem_cons_of_mem _ hb', rfl⟩

end Store

end Lox
