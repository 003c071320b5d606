import Lox.Tree

/-!
# Reading tokens

A parser reads from a list of tokens that ends before the end of the source; the token that marks
the end is kept aside, for messages. What it cannot go on from it throws, what it can go on from
it records, and the state outlives a throw, so that reading can be taken up again behind it.

The outer `Option` is for fuel: a parser that runs out of it has no answer at all. `Parsed.ofTokens`
gives enough fuel for every list of tokens.
-/

namespace Lox

namespace Parse

/-- What can be wrong with a sequence of tokens. -/
inductive Cause
  | expectFunctionName
  | expectParenAfterFunctionName
  | expectParameterName
  | expectParenAfterParameters
  | expectBraceBeforeBody
  | expectVariableName
  | expectSemicolonAfterDeclaration
  | expectParenAfterFor
  | expectSemicolonAfterLoopCondition
  | expectParenAfterForClauses
  | expectParenAfterIf
  | expectParenAfterIfCondition
  | expectSemicolonAfterValue
  | expectSemicolonAfterReturnValue
  | expectParenAfterWhile
  | expectParenAfterCondition
  | expectSemicolonAfterExpression
  | expectBraceAfterBlock
  | expectParenAfterArguments
  | expectParenAfterExpression
  | expectExpression
  | invalidAssignmentTarget
  | tooManyParameters
  | tooManyArguments
deriving DecidableEq, Repr

def Cause.message : Cause → String
  | expectFunctionName => "Expect function name."
  | expectParenAfterFunctionName => "Expect '(' after function name."
  | expectParameterName => "Expect parameter name."
  | expectParenAfterParameters => "Expect ')' after parameters."
  | expectBraceBeforeBody => "Expect '\x7b' before function body."
  | expectVariableName => "Expect variable name."
  | expectSemicolonAfterDeclaration => "Expect ';' after variable declaration."
  | expectParenAfterFor => "Expect '(' after 'for'."
  | expectSemicolonAfterLoopCondition => "Expect ';' after loop condition."
  | expectParenAfterForClauses => "Expect ')' after for clauses."
  | expectParenAfterIf => "Expect '(' after 'if'."
  | expectParenAfterIfCondition => "Expect ')' after if condition."
  | expectSemicolonAfterValue => "Expect ';' after value."
  | expectSemicolonAfterReturnValue => "Expect ';' after return value."
  | expectParenAfterWhile => "Expect '(' after 'while'."
  | expectParenAfterCondition => "Expect ')' after condition."
  | expectSemicolonAfterExpression => "Expect ';' after expression."
  | expectBraceAfterBlock => "Expect '\x7d' after block."
  | expectParenAfterArguments => "Expect ')' after arguments."
  | expectParenAfterExpression => "Expect ')' after expression."
  | expectExpression => "Expect expression."
  | invalidAssignmentTarget => "Invalid assignment target."
  | tooManyParameters => "Can't have more than 255 parameters."
  | tooManyArguments => "Can't have more than 255 arguments."

/-- What is wrong, and the token at which it is reported. -/
structure Fault where
  cause : Cause
  token : Token
deriving DecidableEq

structure State where
  /-- The tokens not yet read. -/
  rest : List Token
  /-- The token at the end of the source. -/
  last : Token
  /-- The number for the next node that reads or writes a variable. -/
  nextId : NodeId
  /-- The faults found so far, in the order in which they were found. -/
  faults : List Fault

/-- The next token. -/
def State.peek (s : State) : Token := s.rest.headD s.last

end Parse

/-- A parser: it may run out of fuel, throw a fault or give a result. -/
abbrev Parse (α : Type) := ExceptT Parse.Fault (StateT Parse.State Option) α

namespace Parse

variable {α : Type}

/-- The answer of a parser that has no fuel left. -/
def exhausted : Parse α := ExceptT.mk fun _ => none

/-- Throws a fault at the next token. -/
def fail (cause : Cause) : Parse α := ExceptT.mk fun s => some (.error ⟨cause, s.peek⟩, s)

/-- Records a fault and goes on. -/
def record (fault : Fault) : Parse Unit :=
  ExceptT.mk fun s => some (.ok (), { s with faults := s.faults ++ [fault] })

/-- Records a fault at the next token and goes on. -/
def recordHere (cause : Cause) : Parse Unit :=
  ExceptT.mk fun s => some (.ok (), { s with faults := s.faults ++ [⟨cause, s.peek⟩] })

/-- Gives out a number for a node. -/
def freshId : Parse NodeId :=
  ExceptT.mk fun s => some (.ok s.nextId, { s with nextId := s.nextId + 1 })

/-- Is the source at its end? -/
def atEnd : Parse Bool := ExceptT.mk fun s => some (.ok s.rest.isEmpty, s)

/-- Is the next token of the given kind? -/
def nextIs (kind : Token.Kind) : Parse Bool :=
  ExceptT.mk fun s => some (.ok (s.rest.head?.any (·.kind = kind)), s)

/-- Reads the next token if its kind is one of those wanted. -/
def acceptIf (wanted : Token.Kind → Bool) : Parse (Option Token) :=
  ExceptT.mk fun s =>
    match s.rest with
    | t :: rest =>
      if wanted t.kind then some (.ok (some t), { s with rest }) else some (.ok none, s)
    | [] => some (.ok none, s)

/-- Reads the next token if it is of the given kind. -/
def accept (kind : Token.Kind) : Parse (Option Token) := acceptIf (· = kind)

/-- Reads a token of the given kind or throws. -/
def expect (kind : Token.Kind) (cause : Cause) : Parse Token := do
  match ← accept kind with
  | some t => return t
  | none => fail cause

/-- The tokens at which reading is taken up again after a fault. At least one token is passed over;
then it stops behind a semicolon or before a word that begins a statement. -/
def recover : List Token → List Token
  | [] => []
  | t :: rest =>
    if t.kind = .semicolon ∨ rest.head?.any (·.kind.beginsStatement) then rest else recover rest

/-- Passes over the remains of a broken statement. -/
def skipBroken : Parse Unit := ExceptT.mk fun s => some (.ok (), { s with rest := recover s.rest })

end Parse

end Lox
