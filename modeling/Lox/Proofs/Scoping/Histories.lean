import Lox.Proofs.Scoping.Aligned
import Lox.Proofs.Session

/-!
# Variables over the life of a session

What has been written down about the runs of a session is kept from one to the next, so
that functions of an earlier source are still known by their frames when a later one
calls them. The distances of a later source do not concern them, because no number of a
node is given out twice. Everything said of single runs so holds over whole histories,
however the runs have ended.
-/

namespace Lox

open Binding

namespace Session

/-- What is done with a session. -/
inductive Act
  | run (fuel : Nat) (source : String)
  | register (native : Native)
  | takeDiagnostics
  | takeOutput

/-- The session afterwards. A run that uses up its fuel does not come back. -/
def act? (s : Session) : Act → Option Session
  | .run fuel source => (s.run fuel source).map Prod.snd
  | .register native => some (s.register native)
  | .takeDiagnostics => some s.takeDiagnostics.2
  | .takeOutput => some s.takeOutput.2

def actAll? (s : Session) : List Act → Option Session
  | [] => some s
  | act :: rest => (s.act? act).bind (·.actAll? rest)

end Session

/-- A session and what has been written down in its runs. -/
structure Journal where
  session : Session
  births : List Frames
  uses : List Use

namespace Journal

def chronicle (j : Journal) : Chronicle := ⟨j.session.machine, j.births, j.uses⟩

def withSession (j : Journal) (session : Session) : Journal := { j with session }

/-- Runs a program that has been parsed and bound. -/
def interpret (fuel : Nat) (j : Journal) (program : List Stmt) : Journal :=
  match (Traced.program fuel program).run.run j.chronicle with
  | (.error (.fault fault), c) =>
    ⟨{ j.session with machine := c.machine, log := j.session.log.report fault.diagnostic },
      c.births, c.uses⟩
  | (_, c) => ⟨{ j.session with machine := c.machine }, c.births, c.uses⟩

/-- Runs a source. What a run has done that uses up its fuel is kept as well. -/
def run (fuel : Nat) (j : Journal) (source : String) : Journal :=
  if (j.session.parsed source).log.hadError then j.withSession (j.session.parsed source)
  else if (j.session.bound source).log.hadError then j.withSession (j.session.bound source)
  else (j.withSession (j.session.bound source)).interpret fuel (j.session.programOf source)

def act (j : Journal) : Session.Act → Journal
  | .run fuel source => j.run fuel source
  | .register native => j.withSession (j.session.register native)
  | .takeDiagnostics => j.withSession j.session.takeDiagnostics.2
  | .takeOutput => j.withSession j.session.takeOutput.2

def actAll (j : Journal) (acts : List Session.Act) : Journal := acts.foldl act j

/-- The journal of a new session. -/
def new (clock : Native) : Journal := ⟨.new clock, [], []⟩

/-! ## The journal follows the session -/

theorem session_interpret (fuel : Nat) (j : Journal) (program : List Stmt) (s : Session)
    (status : Status) (h : j.session.interpret fuel program = some (status, s)) :
    (j.interpret fuel program).session = s := by
  have htr := Traced.program_faithful fuel program j.chronicle
  change (Run.program fuel program).run j.session.machine = _ at htr
  rw [Session.interpret, htr] at h
  rw [interpret]
  generalize (Traced.program fuel program).run.run j.chronicle = o at h ⊢
  rcases o with ⟨⟨_ | fault⟩ | _, c⟩
  · cases h
  · cases h
    rfl
  · cases h
    rfl

theorem session_act (j : Journal) (act : Session.Act) (s : Session)
    (h : j.session.act? act = some s) : (j.act act).session = s := by
  cases act with
  | run fuel source =>
      obtain ⟨⟨status, s'⟩, hrun, rfl⟩ := Option.map_eq_some_iff.mp h
      rw [Session.run_eq] at hrun
      show (j.run fuel source).session = _
      rw [run]
      by_cases hp : (j.session.parsed source).log.hadError = true
      · rw [if_pos hp] at hrun ⊢
        cases hrun
        rfl
      · rw [if_neg hp] at hrun ⊢
        by_cases hb : (j.session.bound source).log.hadError = true
        · rw [if_pos hb] at hrun ⊢
          cases hrun
          rfl
        · rw [if_neg hb] at hrun ⊢
          exact session_interpret fuel (j.withSession (j.session.bound source)) _ _ _ hrun
  | register | takeDiagnostics | takeOutput =>
      cases h
      rfl

/-- Where every run comes back, keeping a journal changes nothing. -/
theorem session_actAll (j : Journal) (acts : List Session.Act) (s : Session)
    (h : j.session.actAll? acts = some s) : (j.actAll acts).session = s := by
  induction acts generalizing j with
  | nil =>
      cases h
      rfl
  | cons act acts ih =>
      obtain ⟨s', hs', h'⟩ := Option.bind_eq_some_iff.mp h
      rw [← session_act j act s' hs'] at h'
      exact ih (j.act act) h'

end Journal

/-! ## The invariant of a session -/

/-- What a session knows of the distances of nodes: those of the nodes that have a number. -/
def Session.records (s : Session) : Recorded :=
  fun id distance => id < s.nextId ∧ s.machine.distances.find? id = distance

namespace Journal

/-- What holds between the runs. -/
structure Sound (j : Journal) : Prop where
  sane : j.chronicle.Sane j.session.records
  fresh : ∀ id, j.session.nextId ≤ id → j.session.machine.distances.find? id = none
  top : j.session.machine.current = j.session.machine.globals

variable {j : Journal}

theorem sound_bare : (Journal.mk ⟨.bare, .empty, 0⟩ [] []).Sound where
  sane := by
    refine ⟨fun _ _ h => absurd h.1 (Nat.not_lt_zero _), rfl, fun scope name v hv => ?_,
      fun native hn => ?_, fun _ h => by cases h⟩
    · change (Store.empty.push none).2.lookup? scope name = some v at hv
      rw [Store.lookup?_push] at hv
      exact absurd (Store.lt_of_lookup? hv) (Nat.not_lt_zero _)
    · change native ∈ #[] at hn
      cases List.not_mem_nil (Array.mem_def.mp hn)
  fresh _ _ := rfl
  top := rfl

theorem Sound.register (h : j.Sound) {native : Native} (hn : native.Honest) :
    (j.withSession (j.session.register native)).Sound := by
  let value := Value.native j.session.machine.natives.size native.name native.arity
  let c := j.chronicle.define j.session.machine.globals native.name value
  have he : j.chronicle.Evolves (fun _ => True) c := .define value (.inl trivial)
  have hs : c.Sane j.session.records := h.sane.define he trivial
  refine ⟨⟨hs.table, hs.serials, fun scope name v hv => ?_, fun other ho => ?_, hs.uses⟩,
    h.fresh, h.top⟩
  · have hfits := hs.values scope name v hv
    cases v with
    | function => exact hfits
    | _ => trivial
  · rcases Array.mem_push.mp ho with ho | rfl
    · exact h.sane.natives other ho
    · exact hn

theorem sound_new {clock : Native} (h : clock.Honest) : (new clock).Sound := sound_bare.register h

/-- Numbers may be given out and distances recorded for them. -/
theorem Sound.rebind (h : j.Sound) {s : Session} {distances : Distances}
    (hm : s.machine = { j.session.machine with distances })
    (hle : j.session.nextId ≤ s.nextId)
    (hold : ∀ id, id < j.session.nextId →
      distances.find? id = j.session.machine.distances.find? id)
    (hnew : ∀ id, s.nextId ≤ id → distances.find? id = none) : (j.withSession s).Sound := by
  have hrec : s.records = fun id distance => id < s.nextId ∧ distances.find? id = distance := by
    unfold Session.records
    rw [hm]
  refine ⟨?_, fun id hid => ?_, ?_⟩
  · have hc : (j.withSession s).chronicle =
        { j.chronicle with machine := { j.session.machine with distances } } := by
      rw [← hm]
      rfl
    show Chronicle.Sane s.records _
    rw [hc, hrec]
    exact h.sane.relink (fun id distance ⟨hlt, hd⟩ =>
      ⟨Nat.lt_of_lt_of_le hlt hle, (hold id hlt).trans hd⟩) fun _ _ hr => hr.2
  · show s.machine.distances.find? id = none
    rw [hm]
    exact hnew id hid
  · show s.machine.current = s.machine.globals
    rw [hm]
    exact h.top

theorem Sound.parsed (h : j.Sound) (source : String) :
    (j.withSession (j.session.parsed source)).Sound := by
  have hle : j.session.nextId ≤ (j.session.parsed source).nextId := Parsed.le_nextId _ _
  exact h.rebind rfl hle (fun _ _ => rfl) fun id hid => h.fresh id (Nat.le_trans hle hid)

theorem Sound.bound (h : j.Sound) {source : String}
    (hp : (j.session.parsed source).log.hadError = false) :
    (j.withSession (j.session.bound source)).Sound := by
  obtain ⟨hspans, hwalk, -⟩ := j.session.links_of_clean source hp
  refine h.rebind rfl hspans.le (fun id hid => hwalk.outside id fun hmem => ?_) fun id hid => ?_
  · exact absurd hid (Nat.not_lt.mpr (hspans.bounds id hmem).1)
  · refine (hwalk.outside id fun hmem => ?_).trans (h.fresh id (Nat.le_trans hspans.le hid))
    exact absurd hid (Nat.not_le.mpr (hspans.bounds id hmem).2)

/-- The program of a source that is run is linked by the distances of the session. -/
theorem Sound.linked (h : j.Sound) {source : String}
    (hb : (j.session.bound source).log.hadError = false) :
    Stmt.LinkedAll (j.session.bound source).records false [] (j.session.programOf source) := by
  obtain ⟨hp, hf⟩ := (j.session.clean_bound source).mp hb
  obtain ⟨hspans, -, hlinks⟩ := j.session.links_of_clean source hp
  exact hlinks hf hspans.nodup (fun id hid => h.fresh id (hspans.bounds id hid).1) _
    fun id hid => ⟨(hspans.bounds id hid).2, rfl⟩

theorem Sound.interpret (h : j.Sound) (fuel : Nat) {program : List Stmt}
    (hl : Stmt.LinkedAll j.session.records false [] program) :
    (j.interpret fuel program).Sound := by
  have hat : j.chronicle.At [] := ⟨⟨h.top, fun _ hf => by cases hf⟩, fun _ _ _ hf => by cases hf⟩
  have hst := program_aligned fuel h.sane hat hl
  have hs := hst.sane
  have he := hst.evolves
  rw [Journal.interpret]
  generalize (Traced.program fuel program).run.run j.chronicle = o at hs he
  have key : ∀ log, (Journal.mk { j.session with machine := o.2.machine, log } o.2.births
      o.2.uses).Sound := by
    intro log
    refine ⟨?_, fun id hid => ?_, ?_⟩
    · have hrec : Session.records { j.session with machine := o.2.machine, log } =
          j.session.records := by
        unfold Session.records
        rw [he.distances]
        rfl
      rw [hrec]
      exact hs
    · exact (congrArg (·.find? id) he.distances).trans (h.fresh id hid)
    · exact he.current.trans (h.top.trans he.globals.symm)
  rcases o with ⟨⟨_ | fault⟩ | _, c⟩ <;> exact key _

theorem Sound.act (h : j.Sound) (act : Session.Act)
    (hn : ∀ native, act = .register native → native.Honest) : (j.act act).Sound := by
  cases act with
  | run fuel source =>
      show (j.run fuel source).Sound
      rw [Journal.run]
      by_cases hp : (j.session.parsed source).log.hadError = true
      · rw [if_pos hp]
        exact h.parsed source
      · rw [if_neg hp]
        have hbound := h.bound (Bool.eq_false_iff.mpr hp)
        by_cases hb : (j.session.bound source).log.hadError = true
        · rw [if_pos hb]
          exact hbound
        · rw [if_neg hb]
          exact hbound.interpret fuel (h.linked (Bool.eq_false_iff.mpr hb))
  | register native => exact h.register (hn native rfl)
  | takeDiagnostics => exact ⟨h.sane, h.fresh, h.top⟩
  | takeOutput =>
      have he : j.chronicle.Evolves Nowhere (j.withSession j.session.takeOutput.2).chronicle :=
        .of_store rfl rfl rfl rfl rfl (List.prefix_refl _)
      exact ⟨h.sane.step he h.sane.serials (fun _ _ _ hv => .inl hv) fun _ hu => .inl hu,
        h.fresh, h.top⟩

/-- Whatever is done with a session, its journal stays sound. -/
theorem Sound.actAll (h : j.Sound) (acts : List Session.Act)
    (hn : ∀ native, .register native ∈ acts → native.Honest) : (j.actAll acts).Sound := by
  induction acts generalizing j with
  | nil => exact h
  | cons act acts ih =>
      exact ih (h.act act fun native ha => hn native (ha ▸ List.mem_cons_self ..))
        fun native ha => hn native (List.mem_cons_of_mem _ ha)

end Journal

/-! ## Reads and writes -/

theorem Use.Finds.getAt? {u : Use} {distance : Nat} (h : u.Finds distance) :
    ∃ v, u.machine.store.getAt? u.machine.current distance u.name.lexeme = some v := by
  obtain ⟨frame, -, -, -, ha, hl⟩ := h
  obtain ⟨v, hv⟩ := Option.isSome_iff_exists.mp hl
  refine ⟨v, ?_⟩
  rw [Store.getAt?, ha]
  exact hv

theorem Use.Finds.binderAt? {u : Use} {distance : Nat} (h : u.Finds distance) :
    ∃ scope, u.machine.store.binderAt? u.machine.current distance u.name.lexeme = some scope := by
  obtain ⟨frame, -, -, -, ha, hl⟩ := h
  refine ⟨frame.scope, ?_⟩
  rw [Store.binderAt?, ha]
  exact Option.filter_eq_some_iff.mpr ⟨rfl, hl⟩

namespace Journal

/-- Whatever a session has been through, a read at a recorded distance finds the variable
of the innermost block or call around it that declares the name, and never fails. -/
theorem resolved_reads_succeed (clock : Native) (hclock : clock.Honest) (acts : List Session.Act)
    (hnatives : ∀ native, .register native ∈ acts → native.Honest) :
    (∀ s, (Session.new clock).actAll? acts = some s → ((new clock).actAll acts).session = s) ∧
      ∀ u ∈ ((new clock).actAll acts).uses, u.access = .read →
        ∀ distance, u.machine.distances.find? u.id = some distance →
          u.Finds distance ∧
            ∃ v, (Run.readVariable u.id u.name).run u.machine = some (.ok v, u.machine) := by
  refine ⟨session_actAll (new clock) acts, fun u hu hread distance hd => ?_⟩
  have hfine := ((sound_new hclock).actAll acts hnatives).sane.uses u hu
  have hfinds := hfine.finds distance hd (hfine.reads hread)
  obtain ⟨v, hv⟩ := hfinds.getAt?
  refine ⟨hfinds, v, ?_⟩
  rw [Run.run_readVariable, Machine.read?, hd]
  simp only [hv]

/-- One source declares a function in a block, and a later one calls it. -/
theorem closure_reads_succeed :
    let acts : List Session.Act :=
      [.run 30 "var g; \x7b var a = \"x\"; fun f() \x7b print a; \x7d g = f; \x7d",
        .takeDiagnostics, .run 30 "g();"]
    let uses := ((new (.clock 0)).actAll acts).uses
    uses.map (fun u => (u.name.lexeme, u.machine.distances.find? u.id)) =
        [("f", some 0), ("g", none), ("g", none), ("a", some 1)] ∧
      ∀ u ∈ uses, u.access = .read →
        ∀ distance, u.machine.distances.find? u.id = some distance →
          u.Finds distance ∧
            ∃ v, (Run.readVariable u.id u.name).run u.machine = some (.ok v, u.machine) := by
  intro acts uses
  refine ⟨by decide +kernel, (resolved_reads_succeed (.clock 0) ?_ acts ?_).2⟩
  · intro _ _ _ _ h
    cases h
  · intro native h
    simp [acts] at h

/-- A write at a recorded distance finds its variable as well, unless it stands in the
initializer of this very variable: there the scope does not bind the name yet, and the
write fails. -/
theorem resolved_writes_succeed_unless_pending (clock : Native) (hclock : clock.Honest)
    (acts : List Session.Act) (hnatives : ∀ native, .register native ∈ acts → native.Honest) :
    (∀ s, (Session.new clock).actAll? acts = some s → ((new clock).actAll acts).session = s) ∧
      ∀ u ∈ ((new clock).actAll acts).uses, ∀ value, u.access = .write value →
        ∀ distance, u.machine.distances.find? u.id = some distance →
          (¬ u.Pending → u.Finds distance ∧
            ∃ m, (Run.writeVariable u.id u.name value).run u.machine = some (.ok (), m)) ∧
          (u.Pending → (Run.writeVariable u.id u.name value).run u.machine =
            some (.error ⟨.undefinedVariable u.name.lexeme, u.name.line⟩, u.machine)) := by
  refine ⟨session_actAll (new clock) acts, fun u hu value _ distance hd => ⟨?_, ?_⟩⟩
  all_goals
    intro hpending
    have hfine := ((sound_new hclock).actAll acts hnatives).sane.uses u hu
    rw [Run.run_writeVariable, Machine.target?]
  · have hfinds := hfine.finds distance hd hpending
    obtain ⟨scope, hs⟩ := hfinds.binderAt?
    refine ⟨hfinds, ?_⟩
    rw [hd]
    simp only [hs]
    exact ⟨_, rfl⟩
  · obtain ⟨hzero, hnone⟩ := hfine.misses hpending
    have hat : u.machine.store.binderAt? u.machine.current 0 u.name.lexeme = none := by
      rw [Store.binderAt?, Store.ancestor?]
      simp [hnone]
    rw [hzero]
    simp only [hat]

/-- A variable cannot be given a value while its first one is computed. -/
theorem write_in_own_initializer_fails :
    let acts : List Session.Act := [.run 20 "\x7b var a = a = \"x\"; print a; \x7d"]
    let uses := ((new (.clock 0)).actAll acts).uses
    uses.map (fun u => (u.name.lexeme, u.machine.distances.find? u.id)) = [("a", some 0)] ∧
      ((Session.new (.clock 0)).run 20 "\x7b var a = a = \"x\"; print a; \x7d").map Prod.fst =
        some .runtimeError ∧
      ∀ u ∈ uses, ∀ value, u.access = .write value →
        ∀ distance, u.machine.distances.find? u.id = some distance →
          (¬ u.Pending → u.Finds distance ∧
            ∃ m, (Run.writeVariable u.id u.name value).run u.machine = some (.ok (), m)) ∧
          (u.Pending → (Run.writeVariable u.id u.name value).run u.machine =
            some (.error ⟨.undefinedVariable u.name.lexeme, u.name.line⟩, u.machine)) := by
  intro acts uses
  refine ⟨by decide +kernel, by decide +kernel,
    (resolved_writes_succeed_unless_pending (.clock 0) ?_ acts ?_).2⟩
  · intro _ _ _ _ h
    cases h
  · intro native h
    simp [acts] at h

end Journal

end Lox
