import Lox.Proofs.Machine.Mirrored
import Lox.Proofs.Session
import Lox.Proofs.Split

/-!
# A program in a new session

Before anything has been run there is one scope, in it are the native functions, and no
function of a program exists. From there a program that was read and bound without a
fault runs as in a mirror: it is linked, hence sited.
-/

namespace Lox

/-- A machine on which nothing has been run, with these native functions. -/
structure Machine.Unused (given : List Native) (m : Machine) : Prop where
  size : m.store.size = 1
  globals : m.globals = 0
  current : m.current = 0
  root : m.store.parent? 0 = none
  functions : m.functions = 0
  distances : m.distances = []
  values : ∀ name v, m.store.lookup? 0 name = some v →
    v.Simple ∧ name ∈ given.map Native.name
  natives : ∀ native ∈ m.natives, native ∈ given

namespace Machine

theorem unused_bare : Unused [] bare where
  size := rfl
  globals := rfl
  current := rfl
  root := rfl
  functions := rfl
  distances := rfl
  values _ _ h := by cases h
  natives _ h := by cases Array.mem_def.mp h

variable {given : List Native} {m : Machine}

theorem Unused.register (h : m.Unused given) (native : Native) :
    (m.register native).Unused (given ++ [native]) where
  size := (Store.size_define ..).trans h.size
  globals := h.globals
  current := h.current
  root := (Store.parent?_define ..).trans h.root
  functions := h.functions
  distances := h.distances
  values name v hv := by
    change (m.store.define m.globals native.name _).lookup? 0 name = some v at hv
    rw [Store.lookup?_define] at hv
    rw [List.map_append]
    split at hv
    · rename_i hc
      cases hv
      exact ⟨trivial, List.mem_append_right _ (List.mem_singleton.mpr hc.2.1)⟩
    · obtain ⟨hsimple, hname⟩ := h.values name v hv
      exact ⟨hsimple, List.mem_append_left _ hname⟩
  natives other ho := by
    rcases Array.mem_push.mp ho with ho | rfl
    · exact List.mem_append_left _ (h.natives other ho)
    · exact List.mem_append_right _ (List.mem_singleton.mpr rfl)

end Machine

namespace Session

theorem unused_registerAll {s : Session} {given : List Native} (h : s.machine.Unused given)
    (natives : List Native) : (natives.foldl register s).machine.Unused (given ++ natives) := by
  induction natives generalizing s given with
  | nil => exact (List.append_nil given).symm ▸ h
  | cons native natives ih =>
      rw [List.append_cons]
      exact ih (s := s.register native) (h.register native)

theorem unused_fresh (clock : Native) (natives : List Native) :
    (fresh clock natives).machine.Unused (clock :: natives) :=
  unused_registerAll (s := new clock) (Machine.unused_bare.register clock) natives

end Session

/-- The world in which nothing has been run. -/
def World.unused : World := ⟨[[]], []⟩

theorem World.site_unused {scope : ScopeId} {around : List Place}
    (h : unused.sites[scope]? = some around) : scope = 0 ∧ around = [] := by
  have hlt : scope < 1 := (List.getElem?_eq_some_iff.mp h).1
  obtain rfl := Nat.lt_one_iff.mp hlt
  cases h
  exact ⟨rfl, rfl⟩

namespace Mirror

variable {μ : Mirror} {given : List Native} {m : Machine}

/-- On both sides of the mirror there is at first the same machine. -/
theorem Machines.unused (h : m.Unused given)
    (hglobals : ∀ name ∈ given.map Native.name, name ∈ μ.layout.globals)
    (hn : m.natives = μ.natives) : μ.Machines .unused
      { m with distances := μ.layout.distances } { m with distances := μ.layout.distances } where
  store :=
    { sites := h.size.symm
      size := rfl
      parent? := fun _ => rfl
      top := by
        rw [h.globals]
        rfl
      alone := fun scope hs => by
        obtain ⟨rfl, -⟩ := World.site_unused hs
        exact ⟨h.globals.symm, h.root⟩
      outward := fun scope place outer hs => by
        cases (World.site_unused hs).2
      lookup? := fun scope around hs name => by
        obtain ⟨rfl, rfl⟩ := World.site_unused hs
        rw [Renaming.called_nil]
        cases hv : m.store.lookup? 0 name with
        | none => exact .none
        | some v => exact .some (.simple (h.values name v hv).1)
      listed := fun scope around name hs hbound => by
        obtain ⟨rfl, rfl⟩ := World.site_unused hs
        obtain ⟨v, hv⟩ := Option.isSome_iff_exists.mp hbound
        exact ⟨.variable, hglobals name (h.values name v hv).2⟩ }
  births := h.functions.symm
  globals := rfl
  current := rfl
  distances := rfl
  distances' := rfl
  natives := hn
  natives' := hn
  functions := rfl
  output := rfl

end Mirror

/-! ## Programs that were read and bound -/

/-- The program that is read from tokens, with its loops written out. -/
def Parsed.program (tokens : List Token) (firstId : NodeId) : List Stmt :=
  (ofTokens tokens firstId).desugar.statements

namespace Session

/-- A program is read from tokens without a fault, and bound without one in a new session. -/
structure Runs (clock : Native) (natives : List Native) (tokens : List Token)
    (firstId : NodeId) : Prop where
  read : (Parsed.ofTokens tokens firstId).faults = []
  bound : ((fresh clock natives).bind (Parsed.program tokens firstId)).log.hadError = false

section Runs

variable {clock : Native} {natives : List Native} {tokens : List Token} {firstId : NodeId}

/-- The distances that are recorded for the program. -/
def distancesOf (tokens : List Token) (firstId : NodeId) : Distances :=
  (Binding.program (Parsed.program tokens firstId) []).distances

/-- What is known of the names of the program and of the native functions. -/
def layoutOf (clock : Native) (natives : List Native) (tokens : List Token)
    (firstId : NodeId) : Layout :=
  .ofProgram (Parsed.program tokens firstId) ((clock :: natives).map Native.name)
    (distancesOf tokens firstId)

theorem machine_bound_fresh (clock : Native) (natives : List Native) (tokens : List Token)
    (firstId : NodeId) :
    ((fresh clock natives).bind (Parsed.program tokens firstId)).machine =
      { (fresh clock natives).machine with distances := distancesOf tokens firstId } := by
  rw [bind, (unused_fresh clock natives).distances]
  rfl

theorem Runs.proper (h : Runs clock natives tokens firstId) :
    Stmt.ProperAll (Parsed.program tokens firstId) := by
  obtain ⟨body, j, hreads⟩ := (Parsed.faults_eq_nil_iff tokens firstId).mp h.read
  rw [Parsed.program, (Parsed.ofTokens_iff_reads tokens firstId body j).mpr hreads]
  exact hreads.proper

theorem Runs.linked (h : Runs clock natives tokens firstId) :
    Stmt.LinkedAll (layoutOf clock natives tokens firstId).recorded false []
      (Parsed.program tokens firstId) := by
  obtain ⟨body, j, hreads⟩ := (Parsed.faults_eq_nil_iff tokens firstId).mp h.read
  have hwalk := ((Log.clean_reportAll (fun _ => rfl) _ _).mp h.bound).2
  rw [(unused_fresh clock natives).distances] at hwalk
  have hnodup : (Stmt.nodeIdsAll (Parsed.program tokens firstId)).Nodup := by
    rw [Parsed.program, (Parsed.ofTokens_iff_reads tokens firstId body j).mpr hreads]
    exact (hreads.spans.perm (Stmt.nodeIds_desugarAll body)).nodup
  exact (Binding.statements_link false _ h.proper ⟨[], [], []⟩).2 hwalk hnodup
    (fun _ _ => rfl) _ fun _ _ => rfl

theorem Runs.sited (h : Runs clock natives tokens firstId) :
    Stmt.SitedAll (layoutOf clock natives tokens firstId) [] [] 0
      (Parsed.program tokens firstId) := Layout.sited_ofProgram h.linked

/-- On both sides of a mirror for the program there is at first the same machine. -/
theorem machines_fresh {μ : Mirror} (hlayout : μ.layout = layoutOf clock natives tokens firstId)
    (hnatives : (fresh clock natives).machine.natives = μ.natives) :
    μ.Machines .unused ((fresh clock natives).bind (Parsed.program tokens firstId)).machine
      ((fresh clock natives).bind (Parsed.program tokens firstId)).machine := by
  have hdistances : distancesOf tokens firstId = μ.layout.distances := by
    rw [hlayout]
    rfl
  rw [machine_bound_fresh, hdistances]
  refine .unused (unused_fresh clock natives) (fun name hname => ?_) hnatives
  rw [hlayout]
  exact List.mem_append_left _ hname

/-- The program stands at the top level. -/
theorem site_fresh (clock : Native) (natives : List Native) (tokens : List Token)
    (firstId : NodeId) :
    World.unused.sites[((fresh clock natives).bind
      (Parsed.program tokens firstId)).machine.current]? = some [] := by
  rw [machine_bound_fresh]
  show World.unused.sites[(fresh clock natives).machine.current]? = _
  rw [(unused_fresh clock natives).current]
  rfl

end Runs

end Session

end Lox
