import Lox.Proofs.Loops.Walks
import Lox.Proofs.Loops.WrittenOut
import Lox.Proofs.Unused

/-!
# Loops mean what is written

A session runs a source with its loops written out. It might as well run the tree as it is
written, by the rules that the machine has for a loop: the initializer is run once, in a
scope of its own in which the rounds are run too; before each round the condition is
tested, in each round the body is run and then the increment, without another scope; and a
body that returns leaves the loop. Both come to the same, whatever was run before: they
end, they refuse the same sources, print the same and report the same.
-/

namespace Lox

namespace Session

/-- Runs a source as it is written, with an amount of fuel. -/
def runWritten (fuel : Nat) (s : Session) (source : String) : Option (Status × Session) :=
  let program := (s.readOf source).statements
  let s := s.parsed source
  if s.log.hadError then some (.compileError, s)
  else
    let s := s.bind program
    if s.log.hadError then some (.compileError, s)
    else s.interpret fuel program

/-- What is seen of the run of a source. -/
structure Report where
  status : Status
  output : String
  diagnostics : List Diagnostic
deriving DecidableEq

/-- Runs sources one after the other, and takes out after each of them what it has printed and
what is reported. -/
def reports (run : Session → String → Option (Status × Session)) (s : Session) :
    List String → Option (List Report)
  | [] => some []
  | source :: sources => do
    let (status, s) ← run s source
    let (output, s) := s.takeOutput
    let (diagnostics, s) := s.takeDiagnostics
    let rest ← reports run s sources
    return ⟨status, output, diagnostics⟩ :: rest

end Session

/-- What has been recorded once a program has been bound, as it is written and with its loops
written out. -/
def Records.bound (r : Records) (body : List Stmt) : Records :=
  ((Binding.program body r.1).distances, (Binding.program (Stmt.desugarAll body) r.2).distances)

/-- What a session reads is bound with the same faults in both ways, and distances are
recorded for its nodes alone. -/
theorem Session.binds_both (s : Session) {source : String}
    (hclean : (s.parsed source).log.hadError = false) (r : Records) :
    (Binding.program (Stmt.desugarAll (s.readOf source).statements) r.2).faults =
        (Binding.program (s.readOf source).statements r.1).faults ∧
      Binding.Recording (Stmt.nodeIdsAll (s.readOf source).statements) r
        (r.bound (s.readOf source).statements)
        fun known => Stmt.TiedAll known [] (s.readOf source).statements :=
  Binding.program_both (s.reads_of_clean source hclean).written r

namespace Loops

open Run (Side)

variable {x : Setting} {w : World} {s s' : Session}

/-- Two sessions of which the first runs sources as they are written. -/
structure Abreast (x : Setting) (w : World) (s s' : Session) : Prop where
  log : s'.log = s.log
  nextId : s.nextId = x.nextId
  nextId' : s'.nextId = x.nextId
  unrecorded : ∀ id, x.nextId ≤ id → x.records.found id = (none, none)
  machines : Machines x w s.machine s'.machine
  current : s.machine.current = x.globals
  current' : s'.machine.current = x.globals

namespace Abreast

/-- Both read the same. -/
theorem readOf (h : Abreast x w s s') (source : String) : s'.readOf source = s.readOf source := by
  rw [Session.readOf, Session.readOf, h.nextId, h.nextId']

theorem le_nextId (h : Abreast x w s s') (source : String) :
    x.nextId ≤ (s.readOf source).nextId := by
  rw [← h.nextId]
  exact Parsed.le_nextId _ _

theorem parsed (h : Abreast x w s s') (source : String) :
    Abreast (x.rebound x.records (s.readOf source).nextId) w (s.parsed source)
      (s'.parsed source) where
  log := by
    show ((s'.log.reportAll _).reportAll ((s'.readOf source).faults.map _)) = _
    rw [h.log, h.readOf]
    rfl
  nextId := rfl
  nextId' := by
    show (s'.readOf source).nextId = _
    rw [h.readOf]
    rfl
  unrecorded id hid := h.unrecorded id (Nat.le_trans (h.le_nextId source) hid)
  machines := by
    have hm := h.machines.rebound (r := x.records) (h.le_nextId source) fun _ _ => rfl
    rw [← h.machines.distances, ← h.machines.distances'] at hm
    exact hm
  current := h.current
  current' := h.current'

section Bound

variable (h : Abreast x w s s') {source : String}
  (hclean : (s.parsed source).log.hadError = false)
include h hclean

theorem spans : Spans (Stmt.nodeIdsAll (s.readOf source).statements) x.nextId
    (s.readOf source).nextId :=
  h.nextId ▸ (s.reads_of_clean source hclean).spans

theorem found_bound {id : NodeId} (hid : id < x.nextId ∨ (s.readOf source).nextId ≤ id) :
    (x.records.bound (s.readOf source).statements).found id = x.records.found id := by
  refine (s.binds_both hclean x.records).2.outside id fun hmem => ?_
  obtain ⟨hle, hlt⟩ := (h.spans hclean).bounds id hmem
  exact hid.elim (Nat.not_lt_of_le hle) (Nat.not_le_of_lt hlt)

/-- The distances of the program that was read are tied from now on. -/
theorem always_tied :
    (x.rebound (x.records.bound (s.readOf source).statements) (s.readOf source).nextId).Always
      (Stmt.TiedAll · [] (s.readOf source).statements) := by
  intro known hknown
  have hspans := h.spans hclean
  refine (s.binds_both hclean x.records).2.tied hspans.nodup (fun id hid => ?_) known
    fun id hid => ?_
  · exact h.unrecorded id (hspans.bounds id hid).1
  · exact hknown id (hspans.bounds id hid).2

theorem bound :
    Abreast (x.rebound (x.records.bound (s.readOf source).statements) (s.readOf source).nextId) w
      ((s.parsed source).bind (s.readOf source).statements) (s'.bound source) where
  log := by
    have hlog := (h.parsed source).log
    have hfaults := (s.binds_both hclean x.records).1
    show (s'.parsed source).log.reportAll ((Binding.program
      (Stmt.desugarAll (s'.readOf source).statements) s'.machine.distances).faults.map _) = _
    rw [hlog, h.readOf, h.machines.distances', hfaults, ← h.machines.distances]
    rfl
  nextId := rfl
  nextId' := (h.parsed source).nextId'
  unrecorded id hid := by
    refine (h.found_bound hclean (.inr hid)).trans (h.unrecorded id ?_)
    exact Nat.le_trans (h.le_nextId source) hid
  machines := by
    have hm' : (s'.bound source).machine =
        { s'.machine with distances := (x.records.bound (s.readOf source).statements).2 } := by
      rw [Session.machine_bound, Session.walked, Session.programOf_eq, h.readOf,
        h.machines.distances']
      rfl
    have hm₁ : ((s.parsed source).bind (s.readOf source).statements).machine =
        { s.machine with distances := (x.records.bound (s.readOf source).statements).1 } := by
      rw [Records.bound, ← h.machines.distances]
      rfl
    rw [hm', hm₁]
    exact h.machines.rebound (h.le_nextId source) fun id hid => h.found_bound hclean (.inl hid)
  current := h.current
  current' := h.current'

end Bound

end Abreast

/-- Two sessions have run a source, and are abreast again. -/
inductive Ends (side : Side) : Option (Status × Session) → Option (Status × Session) → Prop
  | silent {o o' : Option (Status × Session)} (h : side.Silent o o') : Ends side o o'
  | abreast {x : Setting} {w : World} {s s' : Session} (status : Status) (h : Abreast x w s s') :
    Ends side (some (status, s)) (some (status, s'))

namespace Abreast

variable {side : Side} {n n' : Nat}

/-- A tied program is run in both ways. -/
theorem interpret (h : Abreast x w s s') (henough : side.Enough n n') {body : List Stmt}
    (hb : x.Always (Stmt.TiedAll · [] body)) :
    Ends side (s.interpret n body) (s'.interpret n' (Stmt.desugarAll body)) := by
  have hsite : w.sites[s'.machine.current]? = some ([], s.machine.current) := by
    rw [h.current, h.current']
    exact h.machines.store.top
  have hrun := program_simulated henough hb s.machine s'.machine h.machines hsite
  rw [Session.interpret, Session.interpret]
  generalize (Run.program n body).run s.machine = o, (Run.program n' _).run s'.machine = o' at hrun
  cases hrun with
  | silent hs =>
      cases side <;> cases hs <;> exact .silent rfl
  | fault hw hm hc hc' =>
      exact .abreast .runtimeError
        { h with
          log := congrArg (Log.report · _) h.log
          machines := hm
          current := hc.trans h.current
          current' := hc'.trans h.current' }
  | ok hw _ hm hc hc' =>
      exact .abreast .ok
        { h with
          machines := hm
          current := hc.trans h.current
          current' := hc'.trans h.current' }

/-- A source is run in both ways. -/
theorem run (h : Abreast x w s s') (henough : side.Enough n n') (source : String) :
    Ends side (s.runWritten n source) (s'.run n' source) := by
  have hparsed := h.parsed source
  rw [Session.runWritten, Session.run_eq, hparsed.log]
  by_cases hclean : (s.parsed source).log.hadError = true
  · rw [if_pos hclean, if_pos hclean]
    exact .abreast .compileError hparsed
  · rw [if_neg hclean, if_neg hclean]
    have hbound := h.bound (Bool.eq_false_iff.mpr hclean)
    dsimp only
    rw [hbound.log]
    split
    · exact .abreast .compileError hbound
    · rw [Session.programOf_eq, h.readOf]
      exact hbound.interpret henough (h.always_tied (Bool.eq_false_iff.mpr hclean))

/-- What has been printed and what is reported are taken out of both. -/
theorem taken (h : Abreast x w s s') :
    Abreast x w s.takeOutput.2.takeDiagnostics.2 s'.takeOutput.2.takeDiagnostics.2 :=
  { h with
    log := rfl
    machines := { h.machines with output := rfl } }

/-- The run that is given shows nothing, or both show the same. -/
theorem reports (h : Abreast x w s s') (henough : side.Enough n n') (sources : List String) :
    side.Silent (s.reports (Session.runWritten n) sources)
        (s'.reports (Session.run n') sources) ∨
      s'.reports (Session.run n') sources = s.reports (Session.runWritten n) sources := by
  induction sources generalizing x w s s' with
  | nil => exact .inr rfl
  | cons source sources ih =>
      have hrun := h.run henough source
      rw [Session.reports, Session.reports]
      generalize s.runWritten n source = o, s'.run n' source = o' at hrun
      cases hrun with
      | silent hs =>
          cases side <;> cases hs <;> exact .inl rfl
      | @abreast x' w' t t' status ht =>
          have hreport : Session.Report.mk status t'.takeOutput.1 t'.takeOutput.2.takeDiagnostics.1
              = ⟨status, t.takeOutput.1, t.takeOutput.2.takeDiagnostics.1⟩ := by
            show Session.Report.mk status t'.machine.output t'.log.held = _
            rw [ht.machines.output, ht.log]
            rfl
          have hrest := ih ht.taken
          simp only [Option.bind_eq_bind, Option.bind_some, hreport]
          generalize Session.reports (Session.runWritten n) _ sources = o,
            Session.reports (Session.run n') _ sources = o' at hrest ⊢
          rcases hrest with hs | rfl
          · cases side <;> cases hs <;> exact .inl rfl
          · exact .inr rfl

end Abreast

/-! ## New sessions -/

/-- The world before anything has been run. -/
def World.start : World := ⟨[([], 0)], []⟩

theorem World.site_start {t : ScopeId} {site : List Layer × ScopeId}
    (hs : start.sites[t]? = some site) : t = 0 ∧ site = ([], 0) := by
  have hlt : t < 1 := (List.getElem?_eq_some_iff.mp hs).1
  obtain rfl := Nat.lt_one_iff.mp hlt
  cases hs
  exact ⟨rfl, rfl⟩

theorem World.twins_start {c t : ScopeId} (h : start.Twins c t) : c = 0 ∧ t = 0 := by
  obtain ⟨layers, -, hs⟩ := h
  obtain ⟨rfl, heq⟩ := site_start hs
  cases heq
  exact ⟨rfl, rfl⟩

/-- On both sides there is at first the same machine. -/
theorem Machines.start {given : List Native} {m : Machine} (h : m.Unused given)
    (hglobals : x.globals = 0) (hrecords : x.records = ([], []))
    (hnatives : m.natives = x.natives) : Machines x .start m m where
  store :=
    { sites := h.size.symm
      top := by
        rw [hglobals]
        rfl
      root := hglobals ▸ h.root
      root' := hglobals ▸ h.root
      bound := fun t layers c hs => by
        cases (World.site_start hs).2
        exact h.size ▸ Nat.one_pos
      outward := fun t layer layers c hs => by
        cases (World.site_start hs).2
      unique := fun c t t' ht ht' =>
        (World.twins_start ht').2.trans (World.twins_start ht).2.symm
      lookup? := fun c t ht name => by
        obtain ⟨rfl, rfl⟩ := World.twins_start ht
        cases hv : m.store.lookup? 0 name with
        | none => exact .none
        | some v => exact .some (.simple (h.values name v hv).1) }
  births := h.functions.symm
  globals := h.globals.trans hglobals.symm
  globals' := h.globals.trans hglobals.symm
  distances := by rw [h.distances, hrecords]
  distances' := by rw [h.distances, hrecords]
  natives := hnatives
  natives' := hnatives
  functions := rfl
  output := rfl

section Fresh

variable (clock : Native) (natives : List Native)

theorem nextId_fresh : (Session.fresh clock natives).nextId = 0 := by
  have key : ∀ s : Session, (natives.foldl Session.register s).nextId = s.nextId := by
    induction natives with
    | nil => exact fun _ => rfl
    | cons native natives ih => exact fun s => ih (s.register native)
  exact key _

variable (h : ∀ native ∈ clock :: natives, native.Honest ∧ native.Superficial)

/-- What is known before anything has been read. -/
def Setting.start : Setting where
  globals := 0
  records := ([], [])
  nextId := 0
  natives := (Session.fresh clock natives).machine.natives
  honest native hn := (h native ((Session.unused_fresh clock natives).natives native hn)).1
  superficial native hn := (h native ((Session.unused_fresh clock natives).natives native hn)).2

theorem Abreast.fresh : Abreast (.start clock natives h) .start (Session.fresh clock natives)
    (Session.fresh clock natives) where
  log := rfl
  nextId := nextId_fresh clock natives
  nextId' := nextId_fresh clock natives
  unrecorded _ _ := rfl
  machines := .start (Session.unused_fresh clock natives) rfl rfl rfl
  current := (Session.unused_fresh clock natives).current
  current' := (Session.unused_fresh clock natives).current

end Fresh

end Loops

namespace Session

/-- Whatever sources are run one after the other in a new session, with loops in them or
without: run as they are written, they end, print and report as they do with their loops
written out. -/
theorem loops_written_agree {clock : Native} {natives : List Native}
    (h : ∀ native ∈ clock :: natives, native.Honest ∧ native.Superficial) (sources : List String)
    (seen : List Report) :
    (∃ fuel, (fresh clock natives).reports (run fuel) sources = some seen) ↔
      ∃ fuel, (fresh clock natives).reports (runWritten fuel) sources = some seen := by
  have hfresh := Loops.Abreast.fresh clock natives h
  constructor
  · rintro ⟨fuel, hrun⟩
    refine ⟨fuel, ?_⟩
    have henough : Run.Side.Enough .writtenOut fuel fuel := Nat.le_refl fuel
    rcases hfresh.reports henough sources with hs | heq
    · cases hs.symm.trans hrun
    · exact heq.symm.trans hrun
  · rintro ⟨fuel, hwritten⟩
    refine ⟨5 * fuel, ?_⟩
    have henough : Run.Side.Enough .written fuel (5 * fuel) := Nat.le_refl (5 * fuel)
    rcases hfresh.reports henough sources with hs | heq
    · cases hs.symm.trans hwritten
    · exact heq.trans hwritten

/-- A function made in one round of a loop shows the variable of the loop as the return from a
later round left it, and is called again by a loop of another source, which ends in a fault. -/
theorem returning_loop_agrees :
    let sources := ["var show; fun f(stop) \x7b for (var i = \"a\"; ; i = i + \"b\") \x7b " ++
        "if (show == nil) \x7b fun g() \x7b print i; \x7d show = g; \x7d " ++
        "if (i == stop) return \"out\"; print \"on\"; \x7d \x7d print f(\"abb\"); show();",
      "for (show(); true; missing) show();"]
    let seen : List Report := [⟨.ok, "on\non\nout\nabb\n", []⟩,
      ⟨.runtimeError, "abb\nabb\n", [.runtime 1 "Undefined variable 'missing'."]⟩]
    (∀ native ∈ [Native.clock 0], native.Honest ∧ native.Superficial) ∧
      (fresh (.clock 0) []).reports (run 60) sources = some seen ∧
      ∃ fuel, (fresh (.clock 0) []).reports (runWritten fuel) sources = some seen := by
  intro sources seen
  have hnatives : ∀ native ∈ [Native.clock 0], native.Honest ∧ native.Superficial := by
    refine List.forall_mem_singleton.mpr ⟨?_, Native.superficial_clock 0⟩
    intro _ _ _ _ h
    cases h
  have hrun : (fresh (.clock 0) []).reports (run 60) sources = some seen := by decide +kernel
  exact ⟨hnatives, hrun, (loops_written_agree hnatives sources seen).mp ⟨60, hrun⟩⟩

end Session

end Lox
