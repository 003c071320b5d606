import Lox.Diagnostic
import Lox.Machine.Exec

/-!
# Sessions

A session runs one source after the other. Global variables stay from one to the next, and so do
diagnostics until they are taken out: as long as an error found before a run is held, nothing is
run. The numbers of nodes go on as well, so that distances recorded for one source never concern
another.
-/

namespace Lox

/-- How a run of a source ended. -/
inductive Status
  | ok
  /-- The source was not run. -/
  | compileError
  /-- The run was stopped by a fault. -/
  | runtimeError
deriving DecidableEq, Repr

/-- The exit code for a status. -/
def Status.exitCode : Status → Nat
  | ok => 0
  | compileError => 65
  | runtimeError => 70

structure Session where
  machine : Machine
  log : Log
  nextId : NodeId

namespace Session

/-- Fuel that no program uses up in a lifetime. -/
def ampleFuel : Nat := Nat.pow 10 18

def new (clock : Native) : Session := ⟨.new clock, .empty, 0⟩

/-- Scans a source, and gives the tokens that are in order. -/
def tokenize (s : Session) (source : String) : List Token × Session :=
  let found := Token.scan source
  let diagnostics := (Token.faults found).map Token.LexicalFault.diagnostic
  (Token.tokens found, { s with log := s.log.reportAll diagnostics })

/-- Scans and parses a source. -/
def parse (s : Session) (source : String) : List Stmt × Session :=
  let (tokens, s) := s.tokenize source
  let parsed := (Parsed.ofTokens tokens s.nextId).desugar
  let diagnostics := parsed.faults.map Parse.Fault.diagnostic
  (parsed.statements,
    { s with log := s.log.reportAll diagnostics, nextId := parsed.nextId })

/-- Records the distances of the nodes of a program. -/
def bind (s : Session) (program : List Stmt) : Session :=
  let bound := Binding.program program s.machine.distances
  { s with
    machine := { s.machine with distances := bound.distances }
    log := s.log.reportAll (bound.faults.map Binding.Fault.diagnostic) }

/-- Runs a program that has been parsed and bound, with an amount of fuel. -/
def interpret (fuel : Nat) (s : Session) (program : List Stmt) : Option (Status × Session) :=
  match (Run.program fuel program).run s.machine with
  | none => none
  | some (.ok (), machine) => some (.ok, { s with machine })
  | some (.error fault, machine) =>
    some (.runtimeError, { s with machine, log := s.log.report fault.diagnostic })

/-- Runs a source, with an amount of fuel. -/
def run (fuel : Nat) (s : Session) (source : String) : Option (Status × Session) :=
  let (program, s) := s.parse source
  if s.log.hadError then some (.compileError, s)
  else
    let s := s.bind program
    if s.log.hadError then some (.compileError, s)
    else s.interpret fuel program

/-- Takes the diagnostics out and forgets about them. -/
def takeDiagnostics (s : Session) : List Diagnostic × Session :=
  (s.log.held, { s with log := .empty })

/-- Takes out what has been printed. -/
def takeOutput (s : Session) : String × Session :=
  let (output, machine) := s.machine.takeOutput
  (output, { s with machine })

/-- Makes a native function known as a global variable. -/
def register (s : Session) (native : Native) : Session :=
  { s with machine := s.machine.register native }

end Session

end Lox
