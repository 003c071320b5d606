import Lox.Proofs.Rejected

/-!
# How a run ends, and what it leaves in the log

A session keeps the diagnostics and two flags side by side, and a status goes out with
each run. They never contradict each other, whatever has been called: the flags say what
the diagnostics held say, since all are forgotten together, and a run is refused just
when the first flag is up in the end. When no diagnostic is held at first, a run that
ends has reported nothing, the one fault that stopped it, or what kept it from being run.
-/

namespace Lox

namespace Diagnostic

/-- What a diagnostic is about. -/
inductive Kind
  | lexical
  | parse
  | binding
  | runtime
  | io
  | utf8
deriving DecidableEq

def kind : Diagnostic → Kind
  | lexical .. => .lexical
  | parse .. => .parse
  | binding .. => .binding
  | runtime .. => .runtime
  | io _ => .io
  | utf8 _ => .utf8

/-- The kinds that keep a program from being run. -/
def Kind.early : List Kind := [.lexical, .parse, .binding]

theorem beforeRun_iff (d : Diagnostic) : d.beforeRun = true ↔ d.kind ∈ Kind.early := by
  cases d <;> simp [beforeRun, kind, Kind.early]

end Diagnostic

namespace Log

open Diagnostic

theorem hadRuntimeError_reportAll (log : Log) (ds : List Diagnostic) :
    (log.reportAll ds).hadRuntimeError =
      (log.hadRuntimeError || ds.any fun d => !d.beforeRun) := by
  induction ds generalizing log with
  | nil => exact (Bool.or_false _).symm
  | cons d ds ih =>
      show ((log.report d).reportAll ds).hadRuntimeError = _
      rw [ih, List.any_cons, ← Bool.or_assoc]
      rfl

theorem Plain.hadError_iff {log : Log} (h : log.Plain) :
    log.hadError = true ↔ ∃ d ∈ log.held, d.kind ∈ Kind.early := by
  rw [h, hadError_reportAll, held_reportAll]
  simp [empty, beforeRun_iff]

theorem Plain.hadRuntimeError_iff {log : Log} (h : log.Plain) :
    log.hadRuntimeError = true ↔ ∃ d ∈ log.held, d.kind ∉ Kind.early := by
  rw [h, hadRuntimeError_reportAll, held_reportAll]
  simp [empty, ← beforeRun_iff]

/-- What is reported of faults of one kind is of that kind. -/
theorem kind_of_mem {α : Type} (f : α → Diagnostic) {kind : Kind} (hf : ∀ a, (f a).kind = kind)
    {faults : List α} : ∀ d ∈ faults.map f, d.kind = kind := by
  intro d hd
  obtain ⟨a, -, rfl⟩ := List.mem_map.mp hd
  exact hf a

end Log

namespace Session

open Diagnostic

/-! ## The exits of a run -/

/-- The ways in which a run comes to its end: it stops behind the parser or behind the
resolver because an error is held, or the program runs through or into a fault. -/
inductive Exit (s : Session) (source : String) : Status → Session → Prop
  | unparsed (h : (s.parsed source).log.hadError = true) :
    Exit s source .compileError (s.parsed source)
  | unbound (h : (s.parsed source).log.hadError = false)
    (hb : (s.bound source).log.hadError = true) : Exit s source .compileError (s.bound source)
  | through (h : (s.bound source).log.hadError = false) (m : Machine) :
    Exit s source .ok { s.bound source with machine := m }
  | stopped (h : (s.bound source).log.hadError = false) (m : Machine) (fault : Machine.Fault) :
    Exit s source .runtimeError
      { s.bound source with machine := m, log := (s.bound source).log.report fault.diagnostic }

section Run

variable {s t : Session} {fuel : Nat} {source : String} {status : Status}

theorem run_exit (h : s.run fuel source = some (status, t)) : s.Exit source status t := by
  rw [run_eq] at h
  cases hp : (s.parsed source).log.hadError with
  | true =>
      rw [hp, if_pos rfl] at h
      cases h
      exact .unparsed hp
  | false =>
      rw [hp, if_neg Bool.false_ne_true] at h
      cases hb : (s.bound source).log.hadError with
      | true =>
          rw [hb, if_pos rfl] at h
          cases h
          exact .unbound hp hb
      | false =>
          rw [hb, if_neg Bool.false_ne_true, interpret] at h
          split at h
          · cases h
          · cases h
            exact .through hb _
          · cases h
            exact .stopped hb _ _

theorem held_parsed (s : Session) (source : String) : (s.parsed source).log.held =
    s.log.held ++ ((Token.faults (Token.scan source)).map Token.LexicalFault.diagnostic ++
      (s.readOf source).faults.map Parse.Fault.diagnostic) := by
  show ((s.log.reportAll _).reportAll _).held = _
  rw [Log.held_reportAll, Log.held_reportAll, List.append_assoc]
  rfl

/-- A source that is in order leaves the log as it was. -/
theorem log_parsed (h : (s.parsed source).log.hadError = false) :
    (s.parsed source).log = s.log := by
  obtain ⟨-, hlexical, hparse⟩ := (s.clean_parsed source).mp h
  show (s.log.reportAll (List.map _ (Token.faults _))).reportAll
    (List.map _ (s.readOf source).faults) = _
  rw [hlexical, hparse]
  rfl

theorem log_bound (h : (s.bound source).log.hadError = false) :
    (s.bound source).log = s.log := by
  obtain ⟨hp, hfaults⟩ := (s.clean_bound source).mp h
  show (s.parsed source).log.reportAll (List.map _ (s.walked source).faults) = _
  rw [hfaults, log_parsed hp]
  rfl

/-- A run is refused just when an error is held in the end. -/
theorem Exit.status_iff (h : s.Exit source status t) :
    status = .compileError ↔ t.log.hadError = true := by
  cases h with
  | unparsed h => exact iff_of_true rfl h
  | unbound _ h => exact iff_of_true rfl h
  | through h => exact iff_of_false nofun (Bool.not_eq_true _ ▸ h)
  | stopped h m fault =>
      refine iff_of_false nofun ?_
      show ¬((s.bound source).log.hadError || false) = true
      rw [h]
      exact Bool.false_ne_true

theorem Exit.plain (h : s.Exit source status t) (hs : s.log.Plain) : t.log.Plain := by
  have hp : (s.parsed source).log.Plain := (hs.reportAll _).reportAll _
  cases h with
  | unparsed => exact hp
  | unbound => exact hp.reportAll _
  | through => exact hp.reportAll _
  | stopped => exact (hp.reportAll _).reportAll [_]

/-! ## What a run has reported -/

/-- What a run leaves behind when no diagnostic was held before: none, or the one fault
that stopped it, or else all is as it was but for distances, and what is held is about
the text and then about the tree, or about the scopes alone. -/
def Leaves (s t : Session) : Status → Prop
  | .ok => t.log.held = []
  | .runtimeError => t.log.held.map kind = [.runtime]
  | .compileError =>
    t.machine = { s.machine with distances := t.machine.distances } ∧ t.log.held ≠ [] ∧
      ((∃ lexical parse, t.log.held = lexical ++ parse ∧ (∀ d ∈ lexical, d.kind = .lexical) ∧
        ∀ d ∈ parse, d.kind = .parse) ∨ ∀ d ∈ t.log.held, d.kind = .binding)

theorem held_ne_nil {log : Log} (h : log.Plain) (he : log.hadError = true) : log.held ≠ [] := by
  intro hnil
  obtain ⟨d, hd, -⟩ := h.hadError_iff.mp he
  rw [hnil] at hd
  cases hd

theorem Exit.leaves (h : s.Exit source status t) (hs : s.log.Plain) (hheld : s.log.held = []) :
    s.Leaves t status := by
  have hplain := h.plain hs
  cases h with
  | unparsed h =>
      have hparsed := held_parsed s source
      rw [hheld, List.nil_append] at hparsed
      exact ⟨rfl, held_ne_nil hplain h, .inl ⟨_, _, hparsed,
        Log.kind_of_mem Token.LexicalFault.diagnostic fun _ => rfl,
        Log.kind_of_mem Parse.Fault.diagnostic fun _ => rfl⟩⟩
  | unbound hp h =>
      refine ⟨rfl, held_ne_nil hplain h, .inr ?_⟩
      show ∀ d ∈ ((s.parsed source).log.reportAll _).held, _
      rw [Log.held_reportAll, log_parsed hp, hheld]
      exact Log.kind_of_mem Binding.Fault.diagnostic fun _ => rfl
  | through h => exact (congrArg Log.held (log_bound h)).trans hheld
  | stopped h m fault =>
      show ((s.bound source).log.held ++ [_]).map kind = _
      rw [log_bound h, hheld]
      rfl

end Run

/-! ## Over all calls -/

/-- What a new session can become. -/
inductive Reached (clock : Native) : Session → Prop
  | new : Reached clock (new clock)
  | run {s t : Session} {fuel : Nat} {source : String} {status : Status} (hs : Reached clock s)
    (h : s.run fuel source = some (status, t)) : Reached clock t
  | parse {s : Session} (hs : Reached clock s) (source : String) :
    Reached clock (s.parse source).2
  | tokenize {s : Session} (hs : Reached clock s) (source : String) :
    Reached clock (s.tokenize source).2
  | takeDiagnostics {s : Session} (hs : Reached clock s) : Reached clock s.takeDiagnostics.2
  | register {s : Session} (hs : Reached clock s) (native : Native) :
    Reached clock (s.register native)

theorem Reached.plain {clock : Native} {s : Session} (hs : Reached clock s) : s.log.Plain := by
  induction hs with
  | new => rfl
  | run _ h ih => exact (run_exit h).plain ih
  | parse _ _ ih => exact (ih.reportAll _).reportAll _
  | tokenize _ _ ih => exact ih.reportAll _
  | takeDiagnostics => rfl
  | register _ _ ih => exact ih

/-- Flags, diagnostics and status fit together, whatever has been called: each flag is up
just when a diagnostic of its sort is held, a run that ends is refused just when it
leaves the first flag up, and if nothing was held before, a new session among them, what
it leaves behind is one of three things and its status says which. -/
theorem flags_and_status_fit {clock : Native} {s : Session} (hs : Reached clock s) :
    (s.log.hadError = true ↔ ∃ d ∈ s.log.held, d.kind ∈ Kind.early) ∧
    (s.log.hadRuntimeError = true ↔ ∃ d ∈ s.log.held, d.kind ∉ Kind.early) ∧
    ∀ fuel source status t, s.run fuel source = some (status, t) →
      (status = .compileError ↔ t.log.hadError = true) ∧
      (s.log.held = [] → s.Leaves t status) :=
  ⟨hs.plain.hadError_iff, hs.plain.hadRuntimeError_iff, fun _ _ _ _ h =>
    ⟨(run_exit h).status_iff, (run_exit h).leaves hs.plain⟩⟩

/-- Errors that the parser found are taken out. The next source is run into a fault, and
the one behind it is refused by the resolver, with the fault still held. -/
theorem fault_held_after_errors_taken :
    let s := ((new (.clock 0)).parse "var; # print").2.takeDiagnostics.2
    let source := "print clock; \x7b var a = nil; a(); \x7d"
    ∃ t u : Session, s.run 20 source = some (.runtimeError, t) ∧
      t.log.held.map kind = [.runtime] ∧ t.log.hadError = false ∧
      t.run 20 "return;" = some (.compileError, u) ∧ u.log.held.map kind = [.runtime, .binding] ∧
      u.log.hadError = true ∧ u.log.hadRuntimeError = true := by
  intro s source
  have hruns : (s.run 20 source).bind (fun o => (o.2.run 20 "return;").map fun r =>
      (o.1, r.1, r.2.log.held.map kind)) =
      some (.runtimeError, .compileError, [.runtime, .binding]) := by
    decide +kernel
  obtain ⟨⟨status, t⟩, ht, hrest⟩ := Option.bind_eq_some_iff.mp hruns
  obtain ⟨⟨status', u⟩, hu, hkinds⟩ := Option.map_eq_some_iff.mp hrest
  simp only [Prod.mk.injEq] at hkinds
  obtain ⟨rfl, rfl, hheld⟩ := hkinds
  have hs : Reached (.clock 0) s := (Reached.new.parse _).takeDiagnostics
  have hfit := (flags_and_status_fit hs).2.2 20 source _ t ht
  have hfit' := flags_and_status_fit (hs.run ht)
  have hafter := flags_and_status_fit ((hs.run ht).run hu)
  refine ⟨t, u, ht, hfit.2 rfl, ?_, hu, hheld, (hfit'.2.2 20 _ _ u hu).1.mp rfl,
    hafter.2.1.mpr ?_⟩
  · exact Bool.eq_false_iff.mpr fun h => nomatch hfit.1.mpr h
  · obtain ⟨d, hd, hkind⟩ := List.mem_map.mp (hheld ▸ List.mem_cons_self : Kind.runtime ∈ _)
    exact ⟨d, hd, hkind ▸ by decide⟩

end Session

end Lox
