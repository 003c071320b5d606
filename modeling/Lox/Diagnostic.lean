import Lox.Binding
import Lox.Machine
import Lox.Text.Utf8
import Lox.Token.Scan
import Lox.Tree.Parse.Stmt

/-!
# Diagnostics

What is reported to the user: where something went wrong, and a message. Faults of the text, of the
tree and of the scopes are found before a program is run and keep it from running; all others are
not. A log collects diagnostics and remembers whether there were any of the two sorts, even after
they have been taken out.
-/

namespace Lox

inductive Diagnostic
  | lexical (line : Nat) (message : String)
  | parse (token : Token) (message : String)
  | binding (token : Token) (message : String)
  | runtime (line : Nat) (message : String)
  | io (message : String)
  | utf8 (fault : Text.Utf8Fault)
deriving DecidableEq

namespace Diagnostic

/-- The text of a diagnostic. -/
def text : Diagnostic → String
  | lexical line message => s!"[line {line}] Error: {message}"
  | parse token message | binding token message =>
    s!"[line {token.line}] Error{token.place}: {message}"
  | runtime line message => s!"{message}\n[line {line}]"
  | io message => message
  | utf8 fault => fault.message

/-- Does the diagnostic keep a program from being run? -/
def beforeRun : Diagnostic → Bool
  | lexical .. | parse .. | binding .. => true
  | runtime .. | io _ | utf8 _ => false

end Diagnostic

def Token.LexicalFault.diagnostic (f : Token.LexicalFault) : Diagnostic :=
  .lexical f.line f.cause.message

def Parse.Fault.diagnostic (f : Parse.Fault) : Diagnostic := .parse f.token f.cause.message

def Binding.Fault.diagnostic (f : Binding.Fault) : Diagnostic := .binding f.token f.cause.message

def Machine.Fault.diagnostic (f : Machine.Fault) : Diagnostic := .runtime f.line f.cause.message

/-- Diagnostics in the order in which they were reported. -/
structure Log where
  held : List Diagnostic
  hadError : Bool
  hadRuntimeError : Bool

namespace Log

def empty : Log := ⟨[], false, false⟩

def report (log : Log) (d : Diagnostic) : Log where
  held := log.held ++ [d]
  hadError := log.hadError || d.beforeRun
  hadRuntimeError := log.hadRuntimeError || !d.beforeRun

def reportAll (log : Log) (ds : List Diagnostic) : Log := ds.foldl report log

/-- Takes the diagnostics out. What they were is still remembered. -/
def take (log : Log) : List Diagnostic × Log := (log.held, { log with held := [] })

end Log

end Lox
