import Lox.Proofs.Machine.Guarded
import Lox.Proofs.Split
import Mathlib.Data.List.Nodup
import Mathlib.Logic.Relation

/-!
# The scopes around a scope

Scopes hold functions and functions hold scopes, so the two can go round in circles. The
parents cannot: a scope is made within one that was there before it, and its parent is
never changed. Whatever is run, whatever distances are recorded and however a run ends,
around each scope that can be come to there are finitely many others, none of them twice,
and the global one is the last. That is why looking for a variable comes to an end.
-/

namespace Lox

namespace Store

variable {store : Store} {last scope : ScopeId} {scopes : List ScopeId}

/-- The scope or one of those around it binds the name, or none of them does: what comes of
looking outwards for as long as there is a scope to look in. -/
inductive Search (store : Store) (name : String) : ScopeId → Option ScopeId → Prop
  | here {s : ScopeId} (h : (store.lookup? s name).isSome = true) : Search store name s (some s)
  | outward {s parent : ScopeId} {found : Option ScopeId}
    (h : (store.lookup? s name).isSome = false) (hp : store.parent? s = some parent)
    (hrest : Search store name parent found) : Search store name s found
  | nowhere {s : ScopeId} (h : (store.lookup? s name).isSome = false)
    (hp : store.parent? s = none) : Search store name s none

/-- Around the scope lie these others and then the global one, none of them twice and nothing
around the last. They are all that is met on the way outwards, counting scopes or looking
for a name, and the number of scopes is no bound on the search. -/
structure Founded (store : Store) (globals scope : ScopeId) (scopes : List ScopeId) : Prop where
  chain : store.Chain globals scopes scope
  nodup : (scopes ++ [globals]).Nodup
  root : store.parent? globals = none
  ancestor : ∀ distance, store.ancestor? scope distance = (scopes ++ [globals])[distance]?
  binder : ∀ name, store.binder? scope name =
    (scopes ++ [globals]).find? fun s => (store.lookup? s name).isSome
  search : ∀ name, store.Search name scope (store.binder? scope name)

section Chains

variable (h : store.Chain last scopes scope) (hroot : store.parent? last = none)
include h hroot

theorem Chain.ancestor?_eq (distance : Nat) :
    store.ancestor? scope distance = (scopes ++ [last])[distance]? := by
  induction scopes generalizing scope distance with
  | nil =>
      cases (h : scope = last)
      cases distance with
      | zero => rfl
      | succ distance => rw [ancestor?, hroot]; rfl
  | cons x outer ih =>
      obtain ⟨rfl, parent, hp, hc⟩ := h
      cases distance with
      | zero => rfl
      | succ distance => rw [ancestor?, hp]; exact ih hc distance

theorem Chain.nearest?_eq (name : String) {limit : Nat} (hlimit : scopes.length < limit) :
    store.nearest? name limit scope =
      (scopes ++ [last]).find? fun s => (store.lookup? s name).isSome := by
  induction scopes generalizing scope limit with
  | nil =>
      cases (h : scope = last)
      rw [nearest?_of_root hroot name hlimit, List.nil_append, List.find?_singleton]
  | cons x outer ih =>
      obtain ⟨rfl, parent, hp, hc⟩ := h
      obtain ⟨limit, rfl⟩ := Nat.exists_eq_succ_of_ne_zero (Nat.ne_of_gt (Nat.zero_lt_of_lt hlimit))
      rw [nearest?, hp, List.cons_append, List.find?_cons]
      cases (store.lookup? _ name).isSome with
      | true => rfl
      | false => exact ih hc (Nat.lt_of_succ_lt_succ hlimit)

theorem Chain.search (name : String) : store.Search name scope
    ((scopes ++ [last]).find? fun s => (store.lookup? s name).isSome) := by
  induction scopes generalizing scope with
  | nil =>
      cases (h : scope = last)
      rw [List.nil_append, List.find?_singleton]
      cases hb : (store.lookup? last name).isSome with
      | true => exact .here hb
      | false => exact .nowhere hb hroot
  | cons x outer ih =>
      obtain ⟨rfl, parent, hp, hc⟩ := h
      rw [List.cons_append, List.find?_cons]
      cases hb : (store.lookup? _ name).isSome with
      | true => exact .here hb
      | false => exact .outward hb hp (ih hc)

theorem Chain.founded (hnodup : (scopes ++ [last]).Nodup) (hlength : scopes.length < store.size) :
    store.Founded last scope scopes where
  chain := h
  nodup := hnodup
  root := hroot
  ancestor := h.ancestor?_eq hroot
  binder name := h.nearest?_eq hroot name hlength
  search name := by
    have hb : store.binder? scope name = _ := h.nearest?_eq hroot name hlength
    exact hb ▸ h.search hroot name

end Chains

/-- Where every scope but one lies in an earlier scope, that one is around them all. -/
theorem exists_chain (hout : ∀ s < store.size, s ≠ last → ∃ parent < s,
    store.parent? s = some parent) {s : ScopeId} (hs : s < store.size) :
    ∃ scopes, store.Chain last scopes s ∧ (scopes ++ [last]).Nodup ∧ (∀ x ∈ scopes, x ≤ s) ∧
      scopes.length ≤ s := by
  induction s using Nat.strongRecOn with
  | ind s ih =>
      by_cases hlast : s = last
      · exact ⟨[], hlast, List.nodup_singleton last, List.forall_mem_nil _, Nat.zero_le _⟩
      · obtain ⟨parent, hlt, hp⟩ := hout s hs hlast
        obtain ⟨outer, hc, hnodup, hle, hlength⟩ := ih parent hlt (Nat.lt_trans hlt hs)
        -- all scopes around the parent are as early as the parent, so none of them is this one
        have hnew : s ∉ outer ++ [last] := by
          rw [List.mem_append, List.mem_singleton, not_or]
          exact ⟨fun h => Nat.not_lt_of_le (hle s h) hlt, hlast⟩
        refine ⟨s :: outer, ⟨rfl, parent, hp, hc⟩, List.nodup_cons.mpr ⟨hnew, hnodup⟩, ?_,
          Nat.lt_of_le_of_lt hlength hlt⟩
        · intro x hx
          rcases List.mem_cons.mp hx with rfl | hx
          · exact Nat.le_refl _
          · exact Nat.le_trans (hle x hx) (Nat.le_of_lt hlt)

end Store

/-! ## What becomes of the scopes -/

/-- Scopes are added, with the parents of the others as they were, and names are bound. -/
structure Machine.Grows (m m' : Machine) : Prop where
  size : m.store.size ≤ m'.store.size
  parent : ∀ s < m.store.size, m'.store.parent? s = m.store.parent? s
  bound : ∀ s name, (m.store.lookup? s name).isSome → (m'.store.lookup? s name).isSome
  globals : m'.globals = m.globals

namespace Machine

/-- Without the scopes being touched. -/
theorem Grows.of_store {m m' : Machine} (hs : m'.store = m.store) (hg : m'.globals = m.globals) :
    m.Grows m' where
  size := Nat.le_of_eq (congrArg Store.size hs).symm
  parent s _ := congrArg (Store.parent? · s) hs
  bound s name h := by rwa [hs]
  globals := hg

theorem Grows.refl (m : Machine) : m.Grows m := .of_store rfl rfl

theorem Grows.trans {m₁ m₂ m₃ : Machine} (h : m₁.Grows m₂) (h' : m₂.Grows m₃) : m₁.Grows m₃ where
  size := Nat.le_trans h.size h'.size
  parent s hs := (h'.parent s (Nat.lt_of_lt_of_le hs h.size)).trans (h.parent s hs)
  bound s name hb := h'.bound s name (h.bound s name hb)
  globals := h'.globals.trans h.globals

theorem Grows.define (m : Machine) (scope : ScopeId) (name : String) (value : Value) :
    m.Grows { m with store := m.store.define scope name value } where
  size := Nat.le_of_eq (Store.size_define ..).symm
  parent s _ := Store.parent?_define ..
  bound s n h := by
    rw [Store.lookup?_define]
    split
    · rfl
    · exact h
  globals := rfl

/-- A new scope is none of those that were there before. -/
theorem Grows.entered (m : Machine) (parent : ScopeId) (bindings : List (Token × Value)) :
    m.Grows (m.entered parent bindings) where
  size := by
    rw [store_entered, Store.size_defineAll, Store.size_push]
    exact Nat.le_succ _
  parent s hs := by
    rw [store_entered, Store.parent?_defineAll, Store.parent?_push, if_neg (Nat.ne_of_lt hs)]
  bound s name h := by
    obtain ⟨v, hv⟩ := Option.isSome_iff_exists.mp h
    have hne : s ≠ m.store.size := Nat.ne_of_lt (Store.lt_of_lookup? hv)
    rwa [store_entered, Store.lookup?_defineAll_of_ne hne, Store.lookup?_push]
  globals := rfl

theorem kept_grows : Kept Grows where
  refl := Grows.refl
  trans := Grows.trans
  print _ _ := .of_store rfl rfl
  define m := Grows.define m m.current
  write m scope name value _ := Grows.define m scope name value
  close _ := .of_store rfl rfl
  leave m parent bindings _ h :=
    have hin := (Grows.entered m parent bindings).trans h
    ⟨hin.size, hin.parent, hin.bound, hin.globals⟩

theorem Grows.register (m : Machine) (native : Native) : m.Grows (m.register native) :=
  have h := Grows.define m m.globals native.name
    (.native m.natives.size native.name native.arity)
  ⟨h.size, h.parent, h.bound, h.globals⟩

end Machine

/-- A function was made in a scope that exists. -/
def Value.Placed (store : Store) : Value → Prop
  | .function _ _ closure => closure < store.size
  | _ => True

theorem Value.Simple.placed {v : Value} (h : v.Simple) (store : Store) : v.Placed store := by
  cases v with
  | function => exact h.elim
  | _ => trivial

theorem Value.Placed.mono {store store' : Store} {v : Value} (h : v.Placed store)
    (hle : store.size ≤ store'.size) : v.Placed store' := by
  cases v with
  | function => exact Nat.lt_of_lt_of_le h hle
  | _ => trivial

/-- Every scope but the global one lies in an earlier scope, and functions and the place of
the run are in scopes that exist. -/
structure Machine.Rooted (m : Machine) : Prop where
  globals : m.globals < m.store.size
  root : m.store.parent? m.globals = none
  outward : ∀ s < m.store.size, s ≠ m.globals → ∃ parent < s, m.store.parent? s = some parent
  current : m.current < m.store.size
  stored : ∀ s name v, m.store.lookup? s name = some v → v.Placed m.store
  natives : ∀ native ∈ m.natives, native.Honest

namespace Machine

variable {m m' : Machine} {values : List Value}

theorem Rooted.define (h : m.Rooted) (scope : ScopeId) (name : String) {v : Value}
    (hv : v.Placed m.store) : Rooted { m with store := m.store.define scope name v } where
  globals := by rw [Store.size_define]; exact h.globals
  root := (Store.parent?_define ..).trans h.root
  outward s hs hne := by
    rw [Store.size_define] at hs
    rw [Store.parent?_define]
    exact h.outward s hs hne
  current := by rw [Store.size_define]; exact h.current
  stored s n w hw := by
    have hplaced : w.Placed m.store := by
      rcases Store.eq_of_lookup?_define hw with hold | rfl
      · exact h.stored s n w hold
      · exact hv
    exact hplaced.mono (Nat.le_of_eq (Store.size_define ..).symm)
  natives := h.natives

theorem Rooted.entered (h : m.Rooted) {parent : ScopeId} {bindings : List (Token × Value)}
    (hparent : parent < m.store.size) (hb : ∀ b ∈ bindings, b.2.Placed m.store) :
    (m.entered parent bindings).Rooted := by
  have hgrows := Grows.entered m parent bindings
  have hsize : (m.entered parent bindings).store.size = m.store.size + 1 := by
    rw [store_entered, Store.size_defineAll, Store.size_push]
  constructor
  case globals => exact Nat.lt_of_lt_of_le h.globals hgrows.size
  case root => exact (hgrows.parent _ h.globals).trans h.root
  case outward =>
    intro s hs hne
    rcases Nat.lt_succ_iff_lt_or_eq.mp (hsize ▸ hs) with hold | rfl
    · rw [hgrows.parent s hold]
      exact h.outward s hold hne
    · refine ⟨parent, hparent, ?_⟩
      rw [store_entered, Store.parent?_defineAll, Store.parent?_push, if_pos rfl]
  case current => exact hsize ▸ Nat.lt_succ_self _
  case stored =>
    intro s name v hv
    have hplaced : v.Placed m.store := by
      rcases mem_of_lookup?_entered hv with hold | ⟨b, hmem, rfl⟩
      · exact h.stored s name v hold
      · exact hb b hmem
    exact hplaced.mono hgrows.size
  case natives => exact h.natives

/-- Nothing that a run does makes a value out of a scope that is not there. -/
theorem guarded_rooted :
    Guarded Grows Rooted (fun m v => v.Placed m.store) fun _ => True where
  kept := kept_grows
  carry h hv := hv.mono h.size
  moved _ hv := hv
  plain h := h.simple.placed _
  stored h hv := h.stored _ _ _ hv
  native {m native arguments v} h hn hargs happly := by
    cases v with
    | function => exact hargs _ (h.natives native hn arguments _ _ _ happly)
    | _ => trivial
  print h := ⟨h.globals, h.root, h.outward, h.current, h.stored, h.natives⟩
  bind h hv := h.define _ _ hv
  close h := ⟨h.globals, h.root, h.outward, h.current, h.stored, h.natives⟩
  closed h _ := h.current
  enterBlock h := h.entered h.current fun _ hb => nomatch hb
  enterCall h hclosure hb := h.entered hclosure hb
  leave h hgrows h' := ⟨h'.globals, h'.root, h'.outward, Nat.lt_of_lt_of_le h.current hgrows.size,
    h'.stored, h'.natives⟩
  enters _ _ := trivial

theorem Rooted.register (h : m.Rooted) {native : Native} (hn : native.Honest) :
    (m.register native).Rooted := by
  have hdefine := h.define m.globals native.name
    (v := .native m.natives.size native.name native.arity) trivial
  refine ⟨hdefine.globals, hdefine.root, hdefine.outward, hdefine.current, hdefine.stored, ?_⟩
  intro other hmem
  rcases Array.mem_push.mp hmem with hold | rfl
  · exact h.natives other hold
  · exact hn

theorem rooted_bare : bare.Rooted where
  globals := Nat.zero_lt_one
  root := rfl
  outward s hs hne := absurd (Nat.lt_one_iff.mp hs) hne
  current := Nat.zero_lt_one
  stored s name v hv := by
    have hnone : bare.store.lookup? s name = none :=
      (Store.lookup?_push Store.empty none s name).trans rfl
    rw [hnone] at hv
    cases hv
  natives _ h := absurd h (Array.not_mem_empty _)

theorem rooted_new {clock : Native} (h : clock.Honest) : (new clock).Rooted :=
  rooted_bare.register h

/-! ## The scopes that can be come to -/

/-- The scopes that can be come to: the one in force, those in which functions were made that
are at hand or the value of a variable, and the scopes around them. -/
inductive Reaches (m : Machine) (values : List Value) : ScopeId → Prop
  | current : Reaches m values m.current
  | atHand {serial : Nat} {declaration : Declaration} {closure : ScopeId}
    (h : .function serial declaration closure ∈ values) : Reaches m values closure
  | stored {s : ScopeId} {name : String} {serial : Nat} {declaration : Declaration}
    {closure : ScopeId} (h : m.store.lookup? s name = some (.function serial declaration closure)) :
    Reaches m values closure
  | outward {s parent : ScopeId} (hs : Reaches m values s) (hp : m.store.parent? s = some parent) :
    Reaches m values parent

/-- All the scopes that can be come to are founded. -/
def Grounded (m : Machine) (values : List Value) : Prop :=
  ∀ s, m.Reaches values s → ∃ scopes, m.store.Founded m.globals s scopes

theorem Reaches.lt_size {s : ScopeId} (h : m.Reaches values s) (hm : m.Rooted)
    (hv : ∀ v ∈ values, v.Placed m.store) : s < m.store.size := by
  induction h with
  | current => exact hm.current
  | atHand h => exact hv _ h
  | stored h => exact hm.stored _ _ _ h
  | @outward s parent _ hp ih =>
      -- the global scope has no parent, and every other has one that is earlier
      by_cases hs : s = m.globals
      · rw [hs, hm.root] at hp
        cases hp
      · obtain ⟨p, hlt, hp'⟩ := hm.outward s ih hs
        rw [hp] at hp'
        exact Nat.lt_trans (Option.some.inj hp' ▸ hlt) ih

theorem Rooted.grounded (hm : m.Rooted) (hv : ∀ v ∈ values, v.Placed m.store) :
    m.Grounded values := by
  intro s hs
  have hlt := hs.lt_size hm hv
  obtain ⟨scopes, hc, hnodup, -, hlength⟩ := Store.exists_chain hm.outward hlt
  exact ⟨scopes, hc.founded hm.root hnodup (Nat.lt_of_le_of_lt hlength hlt)⟩

/-! ## From one run to the next -/

/-- What a machine comes to while it is used from outside: native functions are registered
that make up no functions of their own, any distances recorded, the output taken out, jobs
done and programs run, whether they end well or in a fault. The values that come out of it
can be used again. -/
inductive Later (m : Machine) (values : List Value) : Machine → List Value → Prop
  | refl : Later m values m values
  | register {m' : Machine} {values' : List Value} (h : Later m values m' values')
    {native : Native} (hn : native.Honest) : Later m values (m'.register native) values'
  | distances {m' : Machine} {values' : List Value} (h : Later m values m' values')
    (distances : Distances) : Later m values { m' with distances } values'
  | takeOutput {m' : Machine} {values' : List Value} (h : Later m values m' values') :
    Later m values m'.takeOutput.2 values'
  | job {m' m'' : Machine} {values' : List Value} (h : Later m values m' values') {t : Job}
    (ht : ∀ v ∈ t.values, v ∈ values' ∨ v.Simple) {result : Except Fault t.Result}
    (hends : t.Ends m' result m'') : Later m values m'' (t.handed result ++ values')
  | program {m' m'' : Machine} {values' : List Value} (h : Later m values m' values')
    {fuel : Nat} {body : List Stmt} {result : Except Fault Unit}
    (hends : (Run.program fuel body).run m' = some (result, m'')) : Later m values m'' values'

theorem Later.trans {m'' : Machine} {values' values'' : List Value}
    (h : m.Later values m' values') (h' : m'.Later values' m'' values'') :
    m.Later values m'' values'' := by
  induction h' with
  | refl => exact h
  | register _ hn ih => exact ih.register hn
  | distances _ distances ih => exact ih.distances distances
  | takeOutput _ ih => exact ih.takeOutput
  | job _ ht hends ih => exact ih.job ht hends
  | program _ hends ih => exact ih.program hends

theorem Later.grows {values' : List Value} (h : m.Later values m' values') : m.Grows m' := by
  induction h with
  | refl => exact .refl m
  | register _ _ ih => exact ih.trans (.register _ _)
  | distances _ _ ih | takeOutput _ ih => exact ih.trans (.of_store rfl rfl)
  | job _ _ hends ih => exact ih.trans (hends.keeps kept_grows)
  | program _ hends ih => exact ih.trans (Run.program_keeps kept_grows _ _ _ _ _ hends)

end Machine

open Machine

/-- A function that a job hands on was made in a scope that exists. -/
theorem Job.placed_of_handed {t : Job} {m : Machine} {result : Except Machine.Fault t.Result}
    (h : ∀ a, result = .ok a → ∀ v ∈ t.gives a, v.Placed m.store) :
    ∀ v ∈ t.handed result, v.Placed m.store := by
  cases result with
  | ok a => exact h a rfl
  | error fault => exact fun _ hmem => nomatch hmem

theorem Machine.Later.rooted {m m' : Machine} {values values' : List Value}
    (h : m.Later values m' values') (hm : m.Rooted) (hv : ∀ v ∈ values, v.Placed m.store) :
    m'.Rooted ∧ ∀ v ∈ values', v.Placed m'.store := by
  induction h with
  | refl => exact ⟨hm, hv⟩
  | register _ hn ih =>
      exact ⟨ih.1.register hn, fun v hmem => (ih.2 v hmem).mono (Grows.register _ _).size⟩
  | distances _ _ ih | takeOutput _ ih =>
      obtain ⟨hr, hplaced⟩ := ih
      exact ⟨⟨hr.globals, hr.root, hr.outward, hr.current, hr.stored, hr.natives⟩, hplaced⟩
  | job _ ht hends ih =>
      have hgiven := fun v hmem => (ht v hmem).elim (ih.2 v) (·.placed _)
      obtain ⟨hr, hgives⟩ := hends.guards guarded_rooted [] trivial ih.1 hgiven
      refine ⟨hr, fun v hmem => ?_⟩
      rcases List.mem_append.mp hmem with hmem | hmem
      · exact Job.placed_of_handed hgives v hmem
      · exact (ih.2 v hmem).mono (hends.keeps kept_grows).size
  | program _ hends ih =>
      obtain ⟨result', hall⟩ := Job.ends_of_program hends
      obtain ⟨hr, -⟩ := hall.guards guarded_rooted [] trivial ih.1 fun _ hmem => nomatch hmem
      exact ⟨hr, fun v hmem => (ih.2 v hmem).mono (hall.keeps kept_grows).size⟩

/-- A run of a session is one of the things that can be done with its machine. -/
theorem Session.later_of_run {s t : Session} {fuel : Nat} {source : String} {status : Status}
    (h : s.run fuel source = some (status, t)) (values : List Value) :
    s.machine.Later values t.machine values := by
  have hbound : s.machine.Later values (s.bound source).machine values := .distances .refl _
  rcases machine_of_run h with ht | ⟨-, ht | ⟨result, hm⟩⟩
  · exact ht ▸ .refl
  · exact ht ▸ hbound
  · exact .program hbound hm

/-- Whatever has been done with a new machine, every scope that can be come to has finitely
many others around it, none of them twice and the global one last, so looking outwards comes
to an end: between runs, at every moment within a run with the values that are held there,
and behind everything that ends, be it in a fault. And never does a scope get another
parent or lose a name. -/
theorem scopes_founded {clock : Native} (hclock : clock.Honest) {m : Machine}
    {values : List Value} (hm : (new clock).Later [] m values) :
    m.Grounded values ∧
    (∀ m' values', m.Later values m' values' → m.Grows m') ∧
    ∀ (t : Job) (p : Moment), (∀ v ∈ t.values, v ∈ values ∨ v.Simple) →
      Relation.ReflTransGen Enters ⟨t, m, values⟩ p →
      m.Grows p.machine ∧ p.machine.Grounded p.values ∧
      (∀ q, Enters p q → p.machine.Grows q.machine) ∧
      ∀ result m', p.job.Ends p.machine result m' →
        p.machine.Grows m' ∧ m'.Grounded (p.job.handed result ++ p.values) := by
  obtain ⟨hrooted, hplaced⟩ := hm.rooted (rooted_new hclock) fun _ h => nomatch h
  refine ⟨hrooted.grounded hplaced, fun _ _ h => h.grows, fun t p ht hp => ?_⟩
  have hstart : Moment.Holds Rooted (fun m v => v.Placed m.store) ⟨t, m, values⟩ := by
    refine ⟨hrooted, fun v hmem => ?_⟩
    rcases List.mem_append.mp hmem with hmem | hmem
    · exact (ht v hmem).elim (hplaced v) (·.placed _)
    · exact hplaced v hmem
  have hstep : ∀ {p q}, Enters p q → p.machine.Grows q.machine := fun h =>
    h.keeps kept_grows Grows.entered
  -- whatever happens before the moment, from each step to the next the invariant is kept
  have hreached : m.Grows p.machine ∧
      p.Holds Rooted (fun m v => v.Placed m.store) := by
    induction hp with
    | refl => exact ⟨.refl m, hstart⟩
    | tail _ h ih => exact ⟨ih.1.trans (hstep h), ih.2.enters guarded_rooted h⟩
  obtain ⟨hgrows, hholds⟩ := hreached
  refine ⟨hgrows, hholds.machine.grounded hholds.values, fun _ => hstep, fun result m' h => ?_⟩
  obtain ⟨hrooted', hheld, hgives⟩ := hholds.behind guarded_rooted h
  refine ⟨h.keeps kept_grows, hrooted'.grounded fun v hmem => ?_⟩
  rcases List.mem_append.mp hmem with hmem | hmem
  · exact Job.placed_of_handed hgives v hmem
  · exact hheld v hmem

/-- A counter gives itself back, a native function hands it on, and a run stops in a fault.
Then the counter is called from outside: the scope it was made in is founded as before. -/
theorem counter_founded_behind_fault :
    let source := "fun make() \x7b var i = 0; \x7b fun next() \x7b i = i + 1; return next; \x7d
      return next; \x7d \x7d var a = make();"
    let echo : Native := ⟨"echo", 1, fun arguments => .ok (arguments.headD .nil)⟩
    let use : Expr := .call (.variable 100 ⟨.identifier, "a", 1⟩) ⟨.rightParen, ")", 1⟩ []
    ∃ (s t : Session) (m : Machine) (f : Value), (Native.clock 0).Honest ∧ echo.Honest ∧
      (Session.new (.clock 0)).run 20 source = some (.ok, s) ∧
      (s.register echo).run 20 "echo(a)(1);" = some (.runtimeError, t) ∧
      (new (.clock 0)).Later [] t.machine [] ∧
      (Job.evaluate use).Gives t.machine f m ∧ f.text = "<fn next>" ∧ t.machine.Grows m ∧
      m.Grounded [f] := by
  intro source echo use
  have hclock : (Native.clock 0).Honest := fun _ _ _ _ h => by cases h
  have hecho : echo.Honest := by
    rintro (_ | ⟨first, rest⟩) serial declaration closure h
    · cases h
    · cases h
      exact List.mem_cons_self
  have hruns : ((Session.new (.clock 0)).run 20 source).any (fun o => o.1 = .ok &&
      (((o.2.register echo).run 20 "echo(a)(1);").any fun o' => o'.1 = .runtimeError &&
        (((Run.evaluate 20 use).run o'.2.machine).any fun a =>
          a.1.map Value.text = .ok "<fn next>"))) = true := by
    decide +kernel
  simp only [Option.any_eq_true, Bool.and_eq_true, decide_eq_true_eq] at hruns
  obtain ⟨⟨_, s⟩, hs, rfl, ⟨_, t⟩, ht, rfl, ⟨result, m⟩, hm, hresult⟩ := hruns
  obtain ⟨f, rfl, htext⟩ : ∃ f, result = .ok f ∧ f.text = "<fn next>" := by
    cases result with
    | error => cases hresult
    | ok f => exact ⟨f, rfl, Except.ok.inj hresult⟩
  have hlater : (new (.clock 0)).Later [] t.machine [] :=
    ((Session.later_of_run hs []).register hecho).trans (Session.later_of_run ht [])
  have hends : (Job.evaluate use).Gives t.machine f m := ⟨20, hm⟩
  obtain ⟨-, -, hmoments⟩ := scopes_founded hclock hlater
  obtain ⟨-, -, -, hbehind⟩ := hmoments (.evaluate use) _ (List.forall_mem_nil _) .refl
  obtain ⟨hgrows, hgrounded⟩ := hbehind (.ok f) m hends
  exact ⟨s, t, m, f, hclock, hecho, hs, ht, hlater, hends, htext, hgrows, hgrounded⟩

end Lox
