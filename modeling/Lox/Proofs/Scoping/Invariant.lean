import Lox.Proofs.Scoping.Linked
import Lox.Proofs.Scoping.Traced
import Lox.Proofs.Store

/-!
# Frames and scopes agree

The scopes of the machine mirror the frames: the frames at the place of the run lie
around the current scope, those of a function around the scope it was made in, and a
frame's scope binds the names that are ready in the frame. Of the innermost frame it
binds no others, which is why a variable is missing in its own initializer.

Scopes only grow, so what agrees once agrees for good. What is said of the innermost
frame would not survive another declaration in its scope; but evaluating an expression
declares nothing in a scope that was there before.
-/

namespace Lox

open Binding

namespace Frames

/-- The names of the frames, as the resolver sees them. -/
def scopes (frames : Frames) : Scopes := frames.map Frame.names

theorem scopes_enter (frames : Frames) (name : String) (ready : Bool) :
    (frames.enter name ready).scopes = frames.scopes.enter name ready := by
  cases frames <;> rfl

theorem scopes_declare (frames : Frames) (name : Token) :
    (frames.declare name).scopes = frames.scopes.declare name := scopes_enter ..

theorem scopes_introduce (frames : Frames) (name : Token) :
    (frames.introduce name).scopes = frames.scopes.introduce name := by
  rw [introduce, scopes_enter, scopes_declare]
  rfl

theorem scopes_behind (frames : Frames) (s : Stmt) :
    (frames.behind s).scopes = frames.scopes.behind s := by
  cases s <;> first | rfl | exact scopes_introduce ..

theorem scopes_call (frames : Frames) (scope : ScopeId) (params : List Token) :
    (frames.call scope params).scopes = frames.scopes.call params := by
  have h : ∀ frames : Frames,
      (params.foldl introduce frames).scopes = params.foldl Scopes.introduce frames.scopes := by
    induction params with
    | nil => exact fun _ => rfl
    | cons name params ih =>
        intro frames
        rw [List.foldl_cons, List.foldl_cons, ih, scopes_introduce]
  exact h (frames.block scope)

/-- No initializer is under way. -/
def Ready (frames : Frames) : Prop := ∀ f ∈ frames, ∀ name, f.names.lookup name ≠ some false

end Frames

/-- The scope of the frame binds every name that is ready. -/
def Frame.Bound (store : Store) (f : Frame) : Prop :=
  ∀ name, f.names.lookup name = some true → (store.lookup? f.scope name).isSome

/-- The frames lie around a scope: their scopes do, and bind what is ready. -/
structure Frames.Around (frames : Frames) (store : Store) (globals scope : ScopeId) : Prop where
  chain : store.Chain globals (frames.map Frame.scope) scope
  bound : ∀ f ∈ frames, f.Bound store

/-- What is known of a value: a function has the frames around its body on record, and its
body is linked under their names. -/
def Value.Fits (recorded : Recorded) (c : Chronicle) : Value → Prop
  | .function serial declaration closure =>
    ∃ frames : Frames, c.births[serial]? = some frames ∧
      frames.Around c.machine.store c.machine.globals closure ∧ frames.Ready ∧
      Stmt.LinkedAll recorded true (frames.scopes.call declaration.params) declaration.body
  | _ => True

/-- A native function gives back no functions but those it is given. -/
def Native.Honest (native : Native) : Prop :=
  ∀ arguments serial declaration closure,
    native.apply arguments = .ok (.function serial declaration closure) →
      .function serial declaration closure ∈ arguments

/-! ## Uses -/

/-- Does the use stand in the initializer of the very variable? -/
def Use.Pending (u : Use) : Prop :=
  ∃ frame, u.frames.head? = some frame ∧ frame.names.lookup u.name.lexeme = some false

/-- So many scopes out from the current one is the scope that was made for the innermost
block or call around the use in which the name is declared. Its declaration there has been
run, and the scope binds the name. -/
def Use.Finds (u : Use) (distance : Nat) : Prop :=
  ∃ frame, u.frames[distance]? = some frame ∧
    (∀ k f, k < distance → u.frames[k]? = some f → f.names.lookup u.name.lexeme = none) ∧
    frame.names.lookup u.name.lexeme = some true ∧
    u.machine.store.ancestor? u.machine.current distance = some frame.scope ∧
    (u.machine.store.lookup? frame.scope u.name.lexeme).isSome

/-- What holds of every use. -/
structure Use.Fine (u : Use) : Prop where
  reads : u.access = .read → ¬ u.Pending
  finds : ∀ distance, u.machine.distances.find? u.id = some distance → ¬ u.Pending →
    u.Finds distance
  misses : u.Pending → u.machine.distances.find? u.id = some 0 ∧
    u.machine.store.lookup? u.machine.current u.name.lexeme = none

/-! ## The invariant -/

/-- What holds of a chronicle all the time. -/
structure Chronicle.Sane (recorded : Recorded) (c : Chronicle) : Prop where
  table : ∀ id distance, recorded id distance → c.machine.distances.find? id = distance
  serials : c.births.length = c.machine.functions
  values : ∀ scope name v, c.machine.store.lookup? scope name = some v → v.Fits recorded c
  natives : ∀ native ∈ c.machine.natives, native.Honest
  uses : ∀ u ∈ c.uses, u.Fine

/-- The frames lie around the current scope, and the innermost one binds nothing else. -/
structure Chronicle.At (c : Chronicle) (frames : Frames) : Prop where
  around : frames.Around c.machine.store c.machine.globals c.machine.current
  exact : ∀ f outer name, frames = f :: outer →
    (c.machine.store.lookup? f.scope name).isSome → f.names.lookup name = some true

/-- No scope is free. -/
def Nowhere : ScopeId → Prop := fun _ => False

/-- What a run leaves alone: nothing goes away, and in a scope that was there before no name
is bound newly, unless the scope is one of the given ones. -/
structure Chronicle.Evolves (free : ScopeId → Prop) (c c' : Chronicle) : Prop where
  size : c.machine.store.size ≤ c'.machine.store.size
  parent : ∀ s parent, c.machine.store.parent? s = some parent →
    c'.machine.store.parent? s = some parent
  bound : ∀ s name, (c.machine.store.lookup? s name).isSome →
    (c'.machine.store.lookup? s name).isSome
  kept : ∀ s name, s < c.machine.store.size → ¬ free s →
    (c'.machine.store.lookup? s name).isSome → (c.machine.store.lookup? s name).isSome
  globals : c'.machine.globals = c.machine.globals
  current : c'.machine.current = c.machine.current
  distances : c'.machine.distances = c.machine.distances
  natives : c'.machine.natives = c.machine.natives
  births : c.births <+: c'.births

namespace Chronicle

variable {recorded : Recorded} {free free' : ScopeId → Prop} {c c' c'' : Chronicle}
  {frames : Frames}

/-- Without the scopes being touched. -/
theorem Evolves.of_store (hstore : c'.machine.store = c.machine.store)
    (hglobals : c'.machine.globals = c.machine.globals)
    (hcurrent : c'.machine.current = c.machine.current)
    (hdistances : c'.machine.distances = c.machine.distances)
    (hnatives : c'.machine.natives = c.machine.natives) (hbirths : c.births <+: c'.births) :
    c.Evolves free c' where
  size := Nat.le_of_eq (congrArg Store.size hstore).symm
  parent s parent hp := by
    rw [hstore]
    exact hp
  bound s name hn := by
    rw [hstore]
    exact hn
  kept s name _ _ hn := by
    rw [hstore] at hn
    exact hn
  globals := hglobals
  current := hcurrent
  distances := hdistances
  natives := hnatives
  births := hbirths

theorem Evolves.refl (c : Chronicle) : c.Evolves free c :=
  .of_store rfl rfl rfl rfl rfl (List.prefix_refl _)

theorem Evolves.trans (h : c.Evolves free c') (h' : c'.Evolves free c'') : c.Evolves free c'' where
  size := Nat.le_trans h.size h'.size
  parent s parent hs := h'.parent s parent (h.parent s parent hs)
  bound s name hs := h'.bound s name (h.bound s name hs)
  kept s name hlt hfree hs :=
    h.kept s name hlt hfree (h'.kept s name (Nat.lt_of_lt_of_le hlt h.size) hfree hs)
  globals := h'.globals.trans h.globals
  current := h'.current.trans h.current
  distances := h'.distances.trans h.distances
  natives := h'.natives.trans h.natives
  births := h.births.trans h'.births

theorem Evolves.births_getElem? (h : c.Evolves free c') {serial : Nat} {frames : Frames}
    (hb : c.births[serial]? = some frames) : c'.births[serial]? = some frames := by
  have hlt : serial < c.births.length := (List.getElem?_eq_some_iff.mp hb).1
  obtain ⟨new, hn⟩ := h.births
  rw [← hn, List.getElem?_append_left hlt]
  exact hb

theorem Evolves.mono (h : c.Evolves free c') (hf : ∀ s, free s → free' s) :
    c.Evolves free' c' :=
  { h with kept := fun s name hlt hs => h.kept s name hlt fun hfree => hs (hf s hfree) }

end Chronicle

theorem Frames.Around.evolves {frames : Frames} {scope : ScopeId} {free : ScopeId → Prop}
    {c c' : Chronicle} (h : frames.Around c.machine.store c.machine.globals scope)
    (he : c.Evolves free c') : frames.Around c'.machine.store c'.machine.globals scope := by
  rw [he.globals]
  exact ⟨h.chain.mono he.parent, fun f hf name hn => he.bound _ _ (h.bound f hf name hn)⟩

theorem Value.Fits.evolves {recorded : Recorded} {v : Value} {free : ScopeId → Prop}
    {c c' : Chronicle} (h : v.Fits recorded c) (he : c.Evolves free c') : v.Fits recorded c' := by
  cases v with
  | function serial declaration closure =>
      obtain ⟨frames, hb, ha, hr⟩ := h
      exact ⟨frames, he.births_getElem? hb, ha.evolves he, hr⟩
  | _ => trivial

namespace Chronicle

variable {recorded : Recorded} {free free' : ScopeId → Prop} {c c' c'' : Chronicle}
  {frames : Frames}

/-- The scope of the innermost frame exists. -/
theorem At.lt_size {f : Frame} {outer : Frames} (h : c.At (f :: outer)) :
    f.scope < c.machine.store.size := by
  obtain ⟨-, parent, hp, -⟩ := h.around.chain
  exact Store.lt_of_parent? hp

/-- An expression leaves the frames where they are. -/
theorem At.evolves (h : c.At frames) (he : c.Evolves Nowhere c') : c'.At frames := by
  refine ⟨?_, fun f outer name hf hs => ?_⟩
  · rw [he.current]
    exact h.around.evolves he
  · subst hf
    exact h.exact f outer name rfl (he.kept f.scope name h.lt_size (fun h => h) hs)

end Chronicle

end Lox
