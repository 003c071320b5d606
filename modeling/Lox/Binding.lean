import Lox.Tree

/-!
# The scopes of names

Before a program is run, each node that reads or writes a variable is given the distance to the
scope that holds the variable: the number of scopes to leave, from the innermost outwards. Blocks
and functions are scopes, the parameters of a function standing in one scope with its body. The top
level is none; a node whose name no scope declares gets no distance and means a global variable.

A name counts as declared from its declaration on. Between a declaration and the end of its
initializer the variable must not be read, which is why a scope remembers of each name whether it
is ready.
-/

namespace Lox

/-- Recorded distances, the newest first; of two for one node the newer holds. -/
abbrev Distances := List (NodeId × Nat)

namespace Distances

def record (distances : Distances) (id : NodeId) (distance : Nat) : Distances :=
  (id, distance) :: distances

def find? (distances : Distances) (id : NodeId) : Option Nat := distances.lookup id

end Distances

namespace Binding

/-- What can be wrong with the use of a name. -/
inductive Cause
  | alreadyDeclared
  | readInOwnInitializer
  | returnFromTopLevel
deriving DecidableEq, Repr

def Cause.message : Cause → String
  | alreadyDeclared => "Already a variable with this name in this scope."
  | readInOwnInitializer => "Can't read local variable in its own initializer."
  | returnFromTopLevel => "Can't return from top-level code."

/-- What is wrong, and the token at which it is reported. -/
structure Fault where
  cause : Cause
  token : Token
deriving DecidableEq

/-- The names of a scope, the newest first, each with whether it is ready to be read. -/
abbrev Names := List (String × Bool)

structure State where
  /-- The open scopes, the innermost first. -/
  scopes : List Names
  distances : Distances
  /-- The faults found so far, in order. -/
  faults : List Fault

namespace State

def report (s : State) (cause : Cause) (token : Token) : State :=
  { s with faults := s.faults ++ [⟨cause, token⟩] }

def openScope (s : State) : State := { s with scopes := [] :: s.scopes }

def closeScope (s : State) : State := { s with scopes := s.scopes.tail }

/-- Puts a name into the innermost scope, if there is one. -/
def enter (s : State) (name : String) (ready : Bool) : State :=
  match s.scopes with
  | [] => s
  | names :: outer => { s with scopes := ((name, ready) :: names) :: outer }

/-- What the innermost scope knows of a name. -/
def innermost? (s : State) (name : String) : Option Bool :=
  s.scopes.head?.bind (·.lookup name)

/-- Declares a name that is not ready yet. A second declaration in one scope is a fault and takes
the place of the first. -/
def declare (s : State) (name : Token) : State :=
  let declared := s.enter name.lexeme false
  if (s.innermost? name.lexeme).isSome then declared.report .alreadyDeclared name else declared

/-- Makes a declared name ready. -/
def define (s : State) (name : Token) : State := s.enter name.lexeme true

/-- Declares a name that is ready at once. -/
def introduce (s : State) (name : Token) : State := (s.declare name).define name

/-- The number of scopes to leave to reach one that declares the name. -/
def distance? (s : State) (name : String) : Option Nat :=
  s.scopes.findIdx? fun names => (names.lookup name).isSome

/-- Records the distance of a node that names a variable. -/
def link (s : State) (id : NodeId) (name : Token) : State :=
  match s.distance? name.lexeme with
  | some distance => { s with distances := s.distances.record id distance }
  | none => s

/-- Reads a variable. -/
def read (s : State) (id : NodeId) (name : Token) : State :=
  let checked := if s.innermost? name.lexeme = some false then
    s.report .readInOwnInitializer name else s
  checked.link id name

end State

mutual

/-- Walks an expression in the order in which it is evaluated. -/
def expression : Expr → State → State
  | .literal _, s => s
  | .group inner, s => expression inner s
  | .unary _ operand, s => expression operand s
  | .binary left _ right, s | .logical left _ right, s => expression right (expression left s)
  | .variable id name, s => s.read id name
  | .assign id name value, s => (expression value s).link id name
  | .call callee _ arguments, s => expressions arguments (expression callee s)

def expressions : List Expr → State → State
  | [], s => s
  | e :: rest, s => expressions rest (expression e s)

end

/-- Walks an expression that may be absent. -/
def optionalExpression : Option Expr → State → State
  | none, s => s
  | some e, s => expression e s

mutual

/-- Walks a statement, within a function or not. -/
def statement (inFunction : Bool) : Stmt → State → State
  | .expression value, s | .print value, s => expression value s
  | .var name initializer, s =>
    (optionalExpression initializer (s.declare name)).define name
  | .block body, s => (statements inFunction body s.openScope).closeScope
  | .ifThen condition thenBranch elseBranch, s =>
    optionalStatement inFunction elseBranch
      (statement inFunction thenBranch (expression condition s))
  | .whileLoop condition body, s => statement inFunction body (expression condition s)
  | .forLoop initializer condition increment body, s =>
    let loop (s : State) :=
      optionalExpression increment
        (statement inFunction body (optionalExpression condition s))
    match initializer with
    | none => loop s
    | some initializer => (loop (statement inFunction initializer s.openScope)).closeScope
  | .function name params body, s =>
    (statements true body (params.foldl State.introduce (s.introduce name).openScope)).closeScope
  | .ret keyword value, s =>
    let checked := if inFunction then s else s.report .returnFromTopLevel keyword
    optionalExpression value checked

def statements (inFunction : Bool) : List Stmt → State → State
  | [], s => s
  | stmt :: rest, s => statements inFunction rest (statement inFunction stmt s)

def optionalStatement (inFunction : Bool) : Option Stmt → State → State
  | none, s => s
  | some stmt, s => statement inFunction stmt s

end

/-- The state after walking a program, with the distances recorded on top of earlier ones. -/
def program (body : List Stmt) (distances : Distances) : State :=
  statements false body ⟨[], distances, []⟩

end Binding

end Lox
