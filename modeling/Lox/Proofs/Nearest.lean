import Lox.Proofs.Machine.Run
import Lox.Proofs.Store
import Mathlib.Data.Fintype.Card

/-!
# Looking outwards and counting scopes

A variable is come to in two ways. Looking for its name, scope after scope outwards, ends at
the nearest scope that binds it; going a given number of scopes outwards ends at the scope
there, whatever it binds. Where the number is that of the nearest scope the two agree, in
what they read and in what they change.

The search gives up after as many scopes as there are. That is never what ends it: up to the
nearest scope that binds the name no scope is met twice, since behind a scope that is met
again the way would be the same as before.
-/

namespace Lox

namespace Store

variable {store : Store} {scope other found : ScopeId} {name : String} {distance : Nat}

theorem ancestor?_add (store : Store) (scope : ScopeId) (m n : Nat) :
    store.ancestor? scope (m + n) = (store.ancestor? scope m).bind (store.ancestor? · n) := by
  induction m generalizing scope with
  | zero => rw [Nat.zero_add, ancestor?, Option.bind_some]
  | succ m ih =>
      rw [Nat.succ_add, ancestor?, ancestor?, Option.bind_assoc]
      exact Option.bind_congr fun parent _ => ih parent

/-- Of the scopes outwards this one, so far away, is the first that binds the name. -/
structure Nearest (store : Store) (name : String) (scope : ScopeId) (distance : Nat)
    (found : ScopeId) : Prop where
  reached : store.ancestor? scope distance = some found
  binds : (store.lookup? found name).isSome
  first : ∀ d < distance, ∀ s, store.ancestor? scope d = some s → store.lookup? s name = none

/-- A scope on the way to the nearest one exists, and the rest of the way leads on from it. -/
theorem Nearest.passes (h : store.Nearest name scope distance found) {i : Nat}
    (hi : i ≤ distance) : ∃ s < store.size, store.ancestor? scope i = some s ∧
      store.ancestor? s (distance - i) = some found := by
  have hsplit := ancestor?_add store scope i (distance - i)
  rw [Nat.add_sub_cancel' hi, h.reached] at hsplit
  obtain ⟨s, hs, hrest⟩ := Option.bind_eq_some_iff.mp hsplit.symm
  refine ⟨s, ?_, hs, hrest⟩
  cases hleft : distance - i with
  | zero =>
      rw [hleft] at hrest
      cases hrest
      obtain ⟨v, hv⟩ := Option.isSome_iff_exists.mp h.binds
      exact lt_of_lookup? hv
  | succ left =>
      rw [hleft, ancestor?] at hrest
      obtain ⟨parent, hp, -⟩ := Option.bind_eq_some_iff.mp hrest
      exact lt_of_parent? hp

/-- If a scope came twice, the nearest one would be come to earlier from the first time on. -/
theorem Nearest.passes_once (h : store.Nearest name scope distance found) {i j : Nat}
    (hij : i < j) (hj : j ≤ distance) : store.ancestor? scope i ≠ store.ancestor? scope j := by
  intro hsame
  obtain ⟨s, -, hs, hrest⟩ := h.passes hj
  have hearly : store.ancestor? scope (i + (distance - j)) = some found := by
    rw [ancestor?_add, hsame, hs]
    exact hrest
  have hbinds := h.binds
  rw [h.first _ (by omega) found hearly] at hbinds
  cases hbinds

theorem Nearest.distance_lt (h : store.Nearest name scope distance found) :
    distance < store.size := by
  choose f hlt hat hrest using fun i : Fin (distance + 1) => h.passes (Nat.le_of_lt_succ i.isLt)
  have hinjective : Function.Injective fun i => (⟨f i, hlt i⟩ : Fin store.size) := by
    intro i j hij
    have hsame : store.ancestor? scope i = store.ancestor? scope j := by
      rw [hat, hat, Fin.mk.inj hij]
    rcases Nat.lt_trichotomy i j with hlt | heq | hgt
    · exact absurd hsame (h.passes_once hlt (Nat.le_of_lt_succ j.isLt))
    · exact Fin.ext heq
    · exact absurd hsame.symm (h.passes_once hgt (Nat.le_of_lt_succ i.isLt))
  have hcard := Fintype.card_le_of_injective _ hinjective
  rwa [Fintype.card_fin, Fintype.card_fin] at hcard

/-- The search comes to the nearest scope if it goes that far. -/
theorem Nearest.nearest?_eq (h : store.Nearest name scope distance found) {limit : Nat}
    (hlimit : distance < limit) : store.nearest? name limit scope = some found := by
  induction distance generalizing scope limit with
  | zero =>
      obtain ⟨limit, rfl⟩ := Nat.exists_eq_succ_of_ne_zero (Nat.ne_of_gt hlimit)
      cases h.reached
      rw [nearest?, if_pos h.binds]
  | succ distance ih =>
      obtain ⟨limit, rfl⟩ := Nat.exists_eq_succ_of_ne_zero (Nat.ne_of_gt (Nat.zero_lt_of_lt hlimit))
      have hreached := h.reached
      rw [ancestor?] at hreached
      obtain ⟨parent, hp, hrest⟩ := Option.bind_eq_some_iff.mp hreached
      have houter : store.Nearest name parent distance found := by
        refine ⟨hrest, h.binds, fun d hd s hs => h.first (d + 1) (Nat.succ_lt_succ hd) s ?_⟩
        rw [ancestor?, hp]
        exact hs
      rw [nearest?, h.first 0 (Nat.succ_pos _) scope rfl, hp]
      exact ih houter (Nat.lt_of_succ_lt_succ hlimit)

theorem Nearest.binder?_eq (h : store.Nearest name scope distance found) :
    store.binder? scope name = some found :=
  h.nearest?_eq h.distance_lt

theorem Nearest.binderAt?_eq (h : store.Nearest name scope distance found) :
    store.binderAt? scope distance name = some found := by
  rw [binderAt?, h.reached]
  exact Option.filter_eq_some_iff.mpr ⟨rfl, h.binds⟩

/-- What the search comes to is some scopes away and binds the name. -/
theorem exists_of_nearest? {limit : Nat} (h : store.nearest? name limit scope = some found) :
    ∃ distance, store.ancestor? scope distance = some found ∧
      (store.lookup? found name).isSome := by
  induction limit generalizing scope with
  | zero => cases h
  | succ limit ih =>
      rw [nearest?] at h
      split at h
      · rename_i hbinds
        cases h
        exact ⟨0, rfl, hbinds⟩
      · obtain ⟨parent, hp, hrest⟩ := Option.bind_eq_some_iff.mp h
        obtain ⟨distance, hreached, hbinds⟩ := ih hrest
        exact ⟨distance + 1, by rw [ancestor?, hp]; exact hreached, hbinds⟩

/-- No scope outwards binds the name. -/
def Unbound (store : Store) (name : String) (scope : ScopeId) : Prop :=
  ∀ distance s, store.ancestor? scope distance = some s → store.lookup? s name = none

theorem Unbound.binder?_eq (h : store.Unbound name scope) : store.binder? scope name = none := by
  cases hb : store.binder? scope name with
  | none => rfl
  | some found =>
      obtain ⟨distance, hreached, hbinds⟩ := exists_of_nearest? hb
      rw [h distance found hreached] at hbinds
      cases hbinds

/-- Where the name is bound already, another value for it leaves the nearest scopes as they are. -/
theorem Nearest.define (h : store.Nearest name other distance found) (value : Value) :
    (store.define found name value).Nearest name other distance found where
  reached := (ancestor?_congr (parent?_define _ _ _ _) _ _).trans h.reached
  binds := by
    rw [lookup?_define]
    split
    · rfl
    · exact h.binds
  first d hd s hs := by
    rw [ancestor?_congr (parent?_define _ _ _ _)] at hs
    have hnone := h.first d hd s hs
    have hne : s ≠ found := by
      rintro rfl
      have hbinds := h.binds
      rw [hnone] at hbinds
      cases hbinds
    rwa [lookup?_define, if_neg fun hsame => hne hsame.1]

/-- The two ways to a variable from a scope. -/
inductive Way
  | outwards
  | steps (distance : Nat)

/-- The scope of a variable. -/
def seek? (store : Store) (scope : ScopeId) (name : String) : Way → Option ScopeId
  | .outwards => store.binder? scope name
  | .steps distance => store.binderAt? scope distance name

def read? (store : Store) (scope : ScopeId) (name : String) : Way → Option Value
  | .outwards => store.get? scope name
  | .steps distance => store.getAt? scope distance name

def write? (store : Store) (scope : ScopeId) (name : String) (value : Value) : Way → Option Store
  | .outwards => store.assign? scope name value
  | .steps distance => store.assignAt? scope distance name value

theorem read?_eq (store : Store) (scope : ScopeId) (name : String) (way : Way) :
    store.read? scope name way = (store.seek? scope name way).bind (store.lookup? · name) := by
  cases way with
  | outwards => rfl
  | steps distance =>
      show store.getAt? scope distance name = (store.binderAt? scope distance name).bind _
      rw [getAt?, binderAt?]
      cases store.ancestor? scope distance with
      | none => rfl
      | some s => cases h : store.lookup? s name <;> simp [h, Option.filter]

theorem write?_eq (store : Store) (scope : ScopeId) (name : String) (value : Value) (way : Way) :
    store.write? scope name value way =
      (store.seek? scope name way).map (store.define · name value) := by
  cases way <;> rfl

/-- There is nothing to be found on this way. -/
def Missing (store : Store) (scope : ScopeId) (name : String) : Way → Prop
  | .outwards => store.Unbound name scope
  | .steps distance => ∀ s, store.ancestor? scope distance = some s → store.lookup? s name = none

theorem Missing.seek?_eq {way : Way} (h : store.Missing scope name way) :
    store.seek? scope name way = none := by
  cases way with
  | outwards => exact Unbound.binder?_eq h
  | steps distance =>
      refine Option.filter_eq_none_iff.mpr fun s hs => ?_
      rw [h s hs]
      exact Bool.false_ne_true

theorem Nearest.seek?_eq (h : store.Nearest name scope distance found) {way : Way}
    (hway : way = .outwards ∨ way = .steps distance) : store.seek? scope name way = some found := by
  rcases hway with rfl | rfl
  · exact h.binder?_eq
  · exact h.binderAt?_eq

/-- The stores differ in the value of one variable alone. -/
structure Updates (store : Store) (scope : ScopeId) (name : String) (value : Value)
    (store' : Store) : Prop where
  size : store'.size = store.size
  parent : ∀ s, store'.parent? s = store.parent? s
  lookup : ∀ s n, store'.lookup? s n =
    if s = scope ∧ n = name then some value else store.lookup? s n

theorem Updates.define (h : scope < store.size) {value : Value} :
    store.Updates scope name value (store.define scope name value) where
  size := size_define ..
  parent := parent?_define _ _ _ _
  lookup s n := by
    rw [lookup?_define]
    grind

end Store

/-! ## Reading and writing from a scope -/

namespace Run

open Store (Way)

/-- The fault of a name that is not defined. -/
def undefined (name : Token) : Machine.Fault := ⟨.undefinedVariable name.lexeme, name.line⟩

/-- Reads a variable from a scope on one of the ways. -/
def readFrom (scope : ScopeId) (name : Token) (way : Way) : Run Value := do
  match (← get).store.read? scope name.lexeme way with
  | some value => return value
  | none => throw (undefined name)

/-- Changes a variable from a scope on one of the ways. -/
def writeFrom (scope : ScopeId) (name : Token) (value : Value) (way : Way) : Run Unit := do
  match (← get).store.write? scope name.lexeme value way with
  | some store => modify fun m => { m with store }
  | none => throw (undefined name)

theorem run_readFrom (m : Machine) (scope : ScopeId) (name : Token) (way : Way) :
    (readFrom scope name way).run m =
      match m.store.read? scope name.lexeme way with
      | some v => some (.ok v, m)
      | none => some (.error (undefined name), m) := by
  rw [readFrom, run_bind, run_get]
  show (match m.store.read? scope name.lexeme way with
    | some v => _
    | none => _ : Run Value).run m = _
  cases m.store.read? scope name.lexeme way <;> rfl

theorem run_writeFrom (m : Machine) (scope : ScopeId) (name : Token) (value : Value) (way : Way) :
    (writeFrom scope name value way).run m =
      match m.store.write? scope name.lexeme value way with
      | some store => some (.ok (), { m with store })
      | none => some (.error (undefined name), m) := by
  rw [writeFrom, run_bind, run_get]
  show (match m.store.write? scope name.lexeme value way with
    | some store => _
    | none => _ : Run Unit).run m = _
  cases m.store.write? scope name.lexeme value way <;> rfl

/-- Where a program looks for a variable: at the recorded distance from the scope in force, or
from the global scope outwards. -/
def lookedUp (m : Machine) (id : NodeId) : ScopeId × Way :=
  match m.distances.find? id with
  | some distance => (m.current, .steps distance)
  | none => (m.globals, .outwards)

theorem readVariable_eq (m : Machine) (id : NodeId) (name : Token) :
    (readVariable id name).run m = (readFrom (lookedUp m id).1 name (lookedUp m id).2).run m := by
  rw [run_readVariable, run_readFrom, Machine.read?, lookedUp]
  cases m.distances.find? id <;> rfl

theorem writeVariable_eq (m : Machine) (id : NodeId) (name : Token) (value : Value) :
    (writeVariable id name value).run m =
      (writeFrom (lookedUp m id).1 name value (lookedUp m id).2).run m := by
  rw [run_writeVariable, run_writeFrom, Store.write?_eq, Machine.target?, lookedUp]
  cases m.distances.find? id with
  | some distance =>
      simp only [Store.seek?]
      cases m.store.binderAt? m.current distance name.lexeme <;> rfl
  | none =>
      simp only [Store.seek?]
      cases m.store.binder? m.globals name.lexeme <;> rfl

/-- Neither reading nor writing finds the variable, and nothing is changed. -/
def Fails (m : Machine) (scope : ScopeId) (name : Token) (way : Way) : Prop :=
  (readFrom scope name way).run m = some (.error (undefined name), m) ∧
    ∀ value, (writeFrom scope name value way).run m = some (.error (undefined name), m)

theorem Fails.of_missing {m : Machine} {scope : ScopeId} {name : Token} {way : Way}
    (h : m.store.Missing scope name.lexeme way) : Fails m scope name way := by
  refine ⟨?_, fun value => ?_⟩
  · rw [run_readFrom, Store.read?_eq, h.seek?_eq]
    rfl
  · rw [run_writeFrom, Store.write?_eq, h.seek?_eq]
    rfl

/-- Looking outwards and going as many scopes outwards as it is to the nearest one that binds
the name read the same value and change the same variable, and nothing but that. From all
scopes for which it is the nearest the new value is read. If no scope outwards binds the name
all ways fail, and where the scope that is so far away is missing or does not bind it that way
fails, whatever other scopes do. A failure changes nothing, and names the line. -/
theorem walk_meets_index (m : Machine) (scope : ScopeId) (name : Token) :
    (∀ distance found, m.store.Nearest name.lexeme scope distance found →
      ∃ old, m.store.lookup? found name.lexeme = some old ∧
        (∀ way, way = .outwards ∨ way = .steps distance →
          (readFrom scope name way).run m = some (.ok old, m)) ∧
        ∀ value, ∃ m', m' = { m with store := m'.store } ∧
          m.store.Updates found name.lexeme value m'.store ∧
          (∀ way, way = .outwards ∨ way = .steps distance →
            (writeFrom scope name value way).run m = some (.ok (), m')) ∧
          ∀ other distance', m.store.Nearest name.lexeme other distance' found →
            (readFrom other name .outwards).run m' = some (.ok value, m')) ∧
    (m.store.Unbound name.lexeme scope → ∀ way, Fails m scope name way) ∧
    (∀ distance, (∀ s, m.store.ancestor? scope distance = some s →
      m.store.lookup? s name.lexeme = none) → Fails m scope name (.steps distance)) ∧
    (∀ i j, m.store.ancestor? scope (i + j) =
      (m.store.ancestor? scope i).bind (m.store.ancestor? · j)) ∧
    (undefined name).cause.message = s!"Undefined variable '{name.lexeme}'." ∧
    (undefined name).line = name.line ∧
    ∀ id, (readVariable id name).run m =
        (readFrom (lookedUp m id).1 name (lookedUp m id).2).run m ∧
      ∀ value, (writeVariable id name value).run m =
        (writeFrom (lookedUp m id).1 name value (lookedUp m id).2).run m := by
  refine ⟨fun distance found h => ?_, fun h way => ?_, fun distance h => .of_missing h,
    Store.ancestor?_add m.store scope, rfl, rfl, fun id => ⟨readVariable_eq m id name,
      writeVariable_eq m id name⟩⟩
  · obtain ⟨old, hold⟩ := Option.isSome_iff_exists.mp h.binds
    refine ⟨old, hold, fun way hway => ?_, fun value => ?_⟩
    · rw [run_readFrom, Store.read?_eq, h.seek?_eq hway, Option.bind_some, hold]
    · refine ⟨{ m with store := m.store.define found name.lexeme value }, rfl,
        .define (Store.lt_of_lookup? hold), fun way hway => ?_, fun other distance' h' => ?_⟩
      · rw [run_writeFrom, Store.write?_eq, h.seek?_eq hway]
        rfl
      · rw [run_readFrom, Store.read?_eq, (h'.define value).seek?_eq (.inl rfl), Option.bind_some,
          Store.lookup?_define, if_pos ⟨rfl, rfl, Store.lt_of_lookup? hold⟩]
  · cases way with
    | outwards => exact .of_missing h
    | steps distance => exact @Fails.of_missing _ _ _ (.steps distance) (h distance)

/-- A global variable is shadowed one scope further in, and looked for from within another. -/
theorem shadowed_walk_meets_index :
    let shadowing : Store := ⟨#[⟨[("a", .bool true)], none⟩, ⟨[("a", .nil)], some 0⟩, ⟨[], some 1⟩]⟩
    let m : Machine := { Machine.bare with store := shadowing }
    let a : Token := ⟨.identifier, "a", 7⟩
    m.store.Nearest "a" 2 1 1 ∧ (readFrom 2 a .outwards).run m = some (.ok .nil, m) ∧
      (readFrom 2 a (.steps 1)).run m = some (.ok .nil, m) ∧ Fails m 2 a (.steps 0) ∧
      Fails m 2 a (.steps 3) ∧
      ∃ m', (writeFrom 2 a (.string "x") .outwards).run m = some (.ok (), m') ∧
        (readFrom 1 a .outwards).run m' = some (.ok (.string "x"), m') ∧
        m'.store.lookup? 0 "a" = some (.bool true) := by
  intro shadowing m a
  have hnearest : m.store.Nearest "a" 2 1 1 := by
    refine ⟨rfl, rfl, fun d hd s hs => ?_⟩
    obtain rfl := Nat.lt_one_iff.mp hd
    cases hs
    rfl
  have hinner : m.store.Nearest "a" 1 0 1 := ⟨rfl, rfl, fun d hd => absurd hd (Nat.not_lt_zero d)⟩
  obtain ⟨hfinds, -, hmisses, -⟩ := walk_meets_index m 2 a
  obtain ⟨old, hold, hread, hwrite⟩ := hfinds 1 1 hnearest
  cases hold
  obtain ⟨m', -, hupdates, hwritten, hagain⟩ := hwrite (.string "x")
  refine ⟨hnearest, hread _ (.inl rfl), hread _ (.inr rfl), hmisses 0 fun s hs => ?_,
    hmisses 3 fun s hs => ?_, m', hwritten _ (.inl rfl), hagain 1 0 hinner, ?_⟩
  · cases hs
    rfl
  · cases hs
  · rw [hupdates.lookup]
    rfl

end Run

end Lox
