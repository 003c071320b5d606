import Lox.Proofs.Parser.Complete
import Lox.Proofs.Parser.Numbering
import Lox.Proofs.Scoping.Walk
import Lox.Session

/-!
# What it takes for a source to be run

A source is run if neither it nor anything before it has left an error in the log. Then
its tokens can be read, its nodes have numbers that no node had before, and its uses of
variables are linked.
-/

namespace Lox

namespace Log

theorem hadError_reportAll (log : Log) (ds : List Diagnostic) :
    (log.reportAll ds).hadError = (log.hadError || ds.any Diagnostic.beforeRun) := by
  induction ds generalizing log with
  | nil => exact (Bool.or_false _).symm
  | cons d ds ih =>
      show ((log.report d).reportAll ds).hadError = _
      rw [ih, List.any_cons, ← Bool.or_assoc]
      rfl

/-- Faults that are found before a run show, one and all. -/
theorem clean_reportAll {α : Type} {f : α → Diagnostic} (hf : ∀ a, (f a).beforeRun = true)
    (log : Log) (faults : List α) :
    (log.reportAll (faults.map f)).hadError = false ↔ log.hadError = false ∧ faults = [] := by
  rw [hadError_reportAll, Bool.or_eq_false_iff]
  cases faults with
  | nil => simp
  | cons a faults => simp [hf a]

end Log

namespace Session

variable (s : Session) (source : String)

/-- The tokens of a source that are in order. -/
def tokensOf (source : String) : List Token := Token.tokens (Token.scan source)

/-- What is read from a source, as it is written. -/
def readOf : Parsed := Parsed.ofTokens (tokensOf source) s.nextId

/-- The program that is read from a source. -/
def programOf : List Stmt := (s.parse source).1

/-- The session once the source has been parsed. -/
def parsed : Session := (s.parse source).2

/-- What the walk over the program leaves behind. -/
def walked : Binding.State := Binding.program (s.programOf source) s.machine.distances

/-- The session once the program has been bound. -/
def bound : Session := (s.parsed source).bind (s.programOf source)

theorem programOf_eq : s.programOf source = Stmt.desugarAll (s.readOf source).statements := rfl

theorem nextId_bound : (s.bound source).nextId = (s.readOf source).nextId := rfl

theorem machine_bound : (s.bound source).machine =
    { s.machine with distances := (s.walked source).distances } := rfl

theorem run_eq (fuel : Nat) : s.run fuel source =
    if (s.parsed source).log.hadError then some (.compileError, s.parsed source)
    else if (s.bound source).log.hadError then some (.compileError, s.bound source)
    else (s.bound source).interpret fuel (s.programOf source) := rfl

theorem clean_parsed : (s.parsed source).log.hadError = false ↔
    s.log.hadError = false ∧ Token.faults (Token.scan source) = [] ∧
      (s.readOf source).faults = [] := by
  refine (Log.clean_reportAll (fun _ => rfl) _ _).trans ?_
  rw [← and_assoc]
  exact and_congr_left' (Log.clean_reportAll (fun _ => rfl) _ _)

theorem clean_bound : (s.bound source).log.hadError = false ↔
    (s.parsed source).log.hadError = false ∧ (s.walked source).faults = [] :=
  Log.clean_reportAll (fun _ => rfl) _ _

/-- A source that is in order can be read. -/
theorem reads_of_clean (h : (s.parsed source).log.hadError = false) :
    Parse.Reads (.declarations false) (Parsed.readable (tokensOf source)) s.nextId
      (s.readOf source).statements (s.readOf source).nextId := by
  have hf := ((s.clean_parsed source).mp h).2.2
  rw [← Parsed.ofTokens_iff_reads, ← hf]
  rfl

/-- The nodes of a program are new, and the resolver links them. -/
theorem links_of_clean (h : (s.parsed source).log.hadError = false) :
    Spans (Stmt.nodeIdsAll (s.programOf source)) s.nextId (s.bound source).nextId ∧
      Binding.Links (Stmt.nodeIdsAll (s.programOf source)) ⟨[], s.machine.distances, []⟩
        (s.walked source) fun recorded =>
          Stmt.LinkedAll recorded false [] (s.programOf source) := by
  have hreads := s.reads_of_clean source h
  exact ⟨hreads.spans.perm (Stmt.nodeIds_desugarAll _),
    Binding.statements_link false _ hreads.proper _⟩

end Session

end Lox
