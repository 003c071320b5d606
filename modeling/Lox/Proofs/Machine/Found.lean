import Lox.Proofs.Machine.Mirror

/-!
# Where variables are found

In the scopes of a mirrored run each scope lies in those that the places around it say. So
the scope at a recorded distance is at the place that the resolver meant, and calls the
name as the use does. Where no two local variables have a name in common, and none has the
name of a global one, no other scope on the way out binds the name, and the walk by name
stops at the same scope.
-/

namespace Lox

/-- No two local variables have a name in common, and none has that of a global variable, be
it declared or only used. -/
structure Layout.Distinct (y : Layout) : Prop where
  places : ∀ {place place' name binder binder'}, y.ListsAt place name binder →
    y.ListsAt place' name binder' → place = place'
  globals : ∀ {place name binder}, y.ListsAt place name binder → name ∉ y.globals
  unrecorded : ∀ {id name}, (id, name) ∈ y.uses → y.distances.find? id = none →
    ∀ place binder, ¬ y.ListsAt place name.lexeme binder

/-- The places around the scope in which the variable of a node is looked for. -/
def Layout.siteOf (y : Layout) (around : List Place) (id : NodeId) : List Place :=
  match y.distances.find? id with
  | some distance => around.drop distance
  | none => []

/-- A use says what its name is called where it is looked for. -/
theorem Renaming.New.use {ρ : Renaming} {y : Layout} (h : ρ.New y) {around : List Place}
    {id : NodeId} {t : Token} (hu : y.Uses around id t) :
    (ρ.use around id t).lexeme = ρ.called (y.siteOf around id) t.lexeme := by
  unfold Layout.siteOf
  cases hd : y.distances.find? id with
  | some distance => exact ρ.lexeme_use (h.used _ hu.mem) (h.distances ▸ hd)
  | none => exact congrArg Token.lexeme (ρ.use_unrecorded (h.distances ▸ hd))

namespace Mirror

variable {μ : Mirror} {w : World}

namespace Stores

variable {globals : ScopeId} {s s' : Store} (h : μ.Stores w globals s s')
include h

theorem isSome_lookup? {scope : ScopeId} {around : List Place}
    (hs : w.sites[scope]? = some around) (name : String) :
    (s'.lookup? scope (μ.spelling.called around name)).isSome =
      (s.lookup? scope name).isSome := (h.lookup? scope around hs name).isSome_eq

/-- Without a renaming the same names are bound everywhere. -/
theorem isSome_lookup?_same (hsame : μ.spelling.fresh = μ.spelling.name) (name : String)
    (scope : ScopeId) : (s'.lookup? scope name).isSome = (s.lookup? scope name).isSome := by
  cases hs : w.sites[scope]? with
  | some around =>
      have hl := h.isSome_lookup? hs name
      rw [Renaming.called_same hsame] at hl
      exact hl
  | none =>
      have hge : s.size ≤ scope := h.sites ▸ List.getElem?_eq_none_iff.mp hs
      rw [Store.lookup?_of_size_le hge, Store.lookup?_of_size_le (h.size ▸ hge)]

/-- A scope has no more scopes around it than were made before it. -/
theorem length_le {scope : ScopeId} {around : List Place} (hs : w.sites[scope]? = some around) :
    around.length ≤ scope := by
  induction around generalizing scope with
  | nil => exact Nat.zero_le _
  | cons place outer ih =>
      obtain ⟨parent, hlt, -, hp⟩ := h.outward scope place outer hs
      exact Nat.lt_of_le_of_lt (ih hp) hlt

/-- The scope so far out is at the place so far out. -/
theorem ancestor? {scope : ScopeId} {around : List Place} (hs : w.sites[scope]? = some around)
    {distance : Nat} (hd : distance ≤ around.length) :
    ∃ found, s.ancestor? scope distance = some found ∧
      w.sites[found]? = some (around.drop distance) := by
  induction distance generalizing scope around with
  | zero => exact ⟨scope, rfl, hs⟩
  | succ distance ih =>
      cases around with
      | nil => exact absurd hd (Nat.not_succ_le_zero _)
      | cons place outer =>
          obtain ⟨parent, -, hp, hsite⟩ := h.outward scope place outer hs
          obtain ⟨found, hf, hfound⟩ := ih hsite (Nat.le_of_succ_le_succ hd)
          exact ⟨found, by rw [Store.ancestor?, hp]; exact hf, hfound⟩

/-- Looked for among the global variables, a name is found there or nowhere. -/
theorem binder?_globals (name : String) : s.binder? globals name =
    if (s.lookup? globals name).isSome then some globals else none :=
  Store.nearest?_of_root (h.alone globals h.top).2 name (Nat.zero_lt_of_lt (h.lt_size h.top))

/-- On the other side it is the same. -/
theorem binder?_globals' (name : String) : s'.binder? globals name = s.binder? globals name := by
  have hroot : s'.parent? globals = none := (h.parent? globals).trans (h.alone globals h.top).2
  have hpos : 0 < s'.size := h.size ▸ Nat.zero_lt_of_lt (h.lt_size h.top)
  rw [h.binder?_globals, ← h.isSome_lookup? h.top]
  exact Store.nearest?_of_root hroot name hpos

/-- A scope binds no name that is not listed at its place. -/
theorem not_bound {scope : ScopeId} {around : List Place} (hs : w.sites[scope]? = some around)
    {name : String} (hmiss : ∀ binder, ¬ μ.layout.Lists around name binder) :
    ¬ (s.lookup? scope name).isSome = true := fun hbound =>
  (h.listed scope around name hs hbound).elim hmiss

/-- From a scope that does not bind the name the walk goes on to the one around it. -/
theorem nearest?_outward {scope : ScopeId} {place : Place} {outer : List Place}
    (hs : w.sites[scope]? = some (place :: outer)) {name : String}
    (hunbound : ¬ (s.lookup? scope name).isSome = true) :
    ∃ parent, s.parent? scope = some parent ∧ w.sites[parent]? = some outer ∧
      ∀ limit, s.nearest? name (limit + 1) scope = s.nearest? name limit parent := by
  obtain ⟨parent, -, hp, hsite⟩ := h.outward scope place outer hs
  refine ⟨parent, hp, hsite, fun limit => ?_⟩
  rw [Store.nearest?, if_neg hunbound, hp, Option.bind_some]

/-- A name that none of the scopes around declares is found among the global variables. -/
theorem nearest?_of_miss {scope : ScopeId} {around : List Place}
    (hs : w.sites[scope]? = some around) {name : String}
    (hmiss : ∀ place ∈ around, ∀ binder, ¬ μ.layout.ListsAt place name binder) {limit : Nat}
    (hlimit : around.length < limit) : s.nearest? name limit scope =
      if (s.lookup? globals name).isSome then some globals else none := by
  induction around generalizing scope limit with
  | nil =>
      obtain ⟨rfl, hroot⟩ := h.alone scope hs
      exact Store.nearest?_of_root hroot name hlimit
  | cons place outer ih =>
      obtain ⟨hplace, houter⟩ := List.forall_mem_cons.mp hmiss
      obtain ⟨limit, rfl⟩ := Nat.exists_eq_succ_of_ne_zero (Nat.ne_of_gt (Nat.zero_lt_of_lt hlimit))
      obtain ⟨parent, -, hsite, hstep⟩ := h.nearest?_outward hs (h.not_bound hs hplace)
      rw [hstep]
      exact ih hsite houter (Nat.lt_of_succ_lt_succ hlimit)

/-- A name that no other scope has is found in the scope that declares it, or nowhere. -/
theorem nearest?_of_hit (hdistinct : μ.layout.Distinct) {scope : ScopeId} {around : List Place}
    (hs : w.sites[scope]? = some around) (hnodup : around.Nodup) {distance : Nat} {place : Place}
    (hat : around[distance]? = some place) {name : String} {binder : Binder}
    (hname : μ.layout.ListsAt place name binder) {limit : Nat} (hlimit : around.length < limit) :
    s.nearest? name limit scope =
      (s.ancestor? scope distance).filter fun found => (s.lookup? found name).isSome := by
  induction distance generalizing scope around limit with
  | zero =>
      obtain ⟨outer, rfl⟩ := List.head?_eq_some_iff.mp (List.head?_eq_getElem?.trans hat)
      obtain ⟨hplace, -⟩ := List.nodup_cons.mp hnodup
      obtain ⟨limit, rfl⟩ := Nat.exists_eq_succ_of_ne_zero (Nat.ne_of_gt (Nat.zero_lt_of_lt hlimit))
      rw [Store.ancestor?, Option.filter_some]
      by_cases hbound : (s.lookup? scope name).isSome = true
      · rw [Store.nearest?, if_pos hbound, if_pos hbound]
      · -- no scope further out has the name, and neither has the outermost
        obtain ⟨parent, -, hsite, hstep⟩ := h.nearest?_outward hs hbound
        have hglobal := h.not_bound h.top fun _ hl => hdistinct.globals hname hl
        rw [hstep, h.nearest?_of_miss hsite ?_ (Nat.lt_of_succ_lt_succ hlimit), if_neg hglobal,
          if_neg hbound]
        intro other hmem binder' hl
        exact hplace (hdistinct.places hl hname ▸ hmem)
  | succ distance ih =>
      cases around with
      | nil => cases hat
      | cons first outer =>
          obtain ⟨hfirst, houter⟩ := List.nodup_cons.mp hnodup
          obtain ⟨limit, rfl⟩ :=
            Nat.exists_eq_succ_of_ne_zero (Nat.ne_of_gt (Nat.zero_lt_of_lt hlimit))
          have hmem : place ∈ outer := List.mem_of_getElem? hat
          have hunbound := h.not_bound hs fun _ hl => hfirst (hdistinct.places hl hname ▸ hmem)
          obtain ⟨parent, hp, hsite, hstep⟩ := h.nearest?_outward hs hunbound
          rw [hstep, Store.ancestor?, hp, Option.bind_some]
          exact ih hsite houter hat (Nat.lt_of_succ_lt_succ hlimit)

end Stores

variable {m m' : Machine} {around : List Place} {id : NodeId} {t : Token}

/-- Found by its distance, a variable is in a scope at the place that the resolver meant. -/
theorem site_of_target? (hm : μ.Machines w m m') (hs : w.sites[m.current]? = some around)
    (hu : μ.layout.Uses around id t) {scope : ScopeId} (h : m.target? id t = some scope) :
    w.sites[scope]? = some (μ.layout.siteOf around id) := by
  rw [Machine.target?, hm.distances] at h
  unfold Layout.siteOf
  cases hd : μ.layout.distances.find? id with
  | none =>
      rw [hd] at h
      change m.store.binder? m.globals t.lexeme = _ at h
      rw [hm.store.binder?_globals] at h
      split at h
      · cases h
        exact hm.store.top
      · cases h
  | some distance =>
      rw [hd] at h
      change m.store.binderAt? m.current distance t.lexeme = _ at h
      obtain ⟨place, binder, hat, -⟩ := hu.at? distance hd
      have hlt := (List.getElem?_eq_some_iff.mp hat).1
      obtain ⟨found, hfound, hsite⟩ := hm.store.ancestor? hs (Nat.le_of_lt hlt)
      rw [Store.binderAt?, hfound, Option.filter_some] at h
      split at h
      · cases h
        exact hsite
      · cases h

/-- Both sides find a variable by its distance, be it renamed or not. -/
theorem finds_target (hnew : μ.spelling.New μ.layout) :
    μ.Finds Machine.target? Machine.target? := by
  intro w m m' around id t hm hs hu
  have hname := hnew.use hu
  refine ⟨?_, fun scope hscope => ⟨_, site_of_target? hm hs hu hscope, hname,
    Machine.isSome_of_target? hscope⟩⟩
  rw [Machine.target?, Machine.target?, hm.distances, hm.distances', hm.globals, hm.current, hname]
  unfold Layout.siteOf
  cases hd : μ.layout.distances.find? id with
  | none => exact hm.store.binder?_globals' _
  | some distance =>
      obtain ⟨place, binder, hat, -⟩ := hu.at? distance hd
      have hlt := (List.getElem?_eq_some_iff.mp hat).1
      obtain ⟨found, hfound, hsite⟩ := hm.store.ancestor? hs (Nat.le_of_lt hlt)
      show m'.store.binderAt? m.current distance _ = m.store.binderAt? m.current distance _
      rw [Store.binderAt?, Store.binderAt?, Store.ancestor?_congr hm.store.parent?, hfound,
        Option.filter_some, Option.filter_some, hm.store.isSome_lookup? hsite]

/-- Where the names of variables tell them apart, the walk by name finds what is found by the
distance. -/
theorem finds_walk (hdistinct : μ.layout.Distinct) (hsame : μ.spelling.fresh = μ.spelling.name) :
    μ.Finds Machine.target? Machine.walk? := by
  intro w m m' around id t hm hs hu
  have hname : ∀ site, (μ.spelling.use around id t).lexeme = μ.spelling.called site t.lexeme :=
    fun site => by rw [Renaming.use_same hsame, Renaming.called_same hsame]
  refine ⟨?_, fun scope hscope => ⟨_, site_of_target? hm hs hu hscope, hname _,
    Machine.isSome_of_target? hscope⟩⟩
  have hlimit : around.length < m.store.size :=
    Nat.lt_of_le_of_lt (hm.store.length_le hs) (hm.store.lt_size hs)
  have hwalk : m'.walk? id (μ.spelling.use around id t) =
      m.store.nearest? t.lexeme m.store.size m.current := by
    rw [Machine.walk?, Renaming.use_same hsame, hm.current, ← hm.store.size]
    exact Store.nearest?_congr hm.store.parent? (hm.store.isSome_lookup?_same hsame _) _ _
  rw [hwalk, Machine.target?, hm.distances]
  cases hd : μ.layout.distances.find? id with
  | none =>
      show _ = m.store.binder? m.globals t.lexeme
      rw [hm.store.binder?_globals]
      exact hm.store.nearest?_of_miss hs
        (fun place _ binder => hdistinct.unrecorded hu.mem hd place binder) hlimit
  | some distance =>
      obtain ⟨place, binder, hat, hl⟩ := hu.at? distance hd
      exact hm.store.nearest?_of_hit hdistinct hs hu.nodup hat hl hlimit

end Mirror

end Lox
