import Lox.Tree.Desugar
import Lox.Tree.Parse.Expr

/-!
# Reading statements

A declaration is the place where faults are caught: the fault is recorded, the remains of the
statement are passed over, and the declaration is left out of the tree. As blocks are made of
declarations, a fault inside a block leaves the rest of the block standing.
-/

namespace Lox

namespace Parse

/-- Parameters with commas between them, of which `count` have been read. -/
def paramsFrom : Nat → Nat → Parse (List Token)
  | 0, _ => exhausted
  | n + 1, count => do
    if maxArity ≤ count then recordHere .tooManyParameters
    let first ← expect .identifier .expectParameterName
    match ← accept .comma with
    | none => return [first]
    | some _ =>
      let rest ← paramsFrom n (count + 1)
      return first :: rest

/-- An expression, unless the next token is of the given kind. -/
def expressionUnless (n : Nat) (kind : Token.Kind) : Parse (Option Expr) := do
  if ← nextIs kind then return none
  else return some (← expression n)

/-- A variable declaration after the word `var`. -/
def varDeclaration (n : Nat) : Parse Stmt := do
  let name ← expect .identifier .expectVariableName
  let initializer ← match ← accept .equal with
    | some _ => some <$> expression n
    | none => pure none
  let _ ← expect .semicolon .expectSemicolonAfterDeclaration
  return .var name initializer

def expressionStatement (n : Nat) : Parse Stmt := do
  let value ← expression n
  let _ ← expect .semicolon .expectSemicolonAfterExpression
  return .expression value

/-- A print statement after the word `print`. -/
def printStatement (n : Nat) : Parse Stmt := do
  let value ← expression n
  let _ ← expect .semicolon .expectSemicolonAfterValue
  return .print value

/-- A return statement after the word `return`. -/
def returnStatement (n : Nat) (keyword : Token) : Parse Stmt := do
  let value ← expressionUnless n .semicolon
  let _ ← expect .semicolon .expectSemicolonAfterReturnValue
  return .ret keyword value

/-- The first clause of a `for` loop, with the semicolon that ends it. -/
def forInitializer (n : Nat) : Parse (Option Stmt) := do
  match ← accept .semicolon with
  | some _ => return none
  | none =>
    match ← accept .kwVar with
    | some _ => some <$> varDeclaration n
    | none => some <$> expressionStatement n

/-- The kinds of tokens that begin a statement other than an expression. -/
def beginsKeyed : Token.Kind → Bool
  | .kwFor | .kwIf | .kwPrint | .kwReturn | .kwWhile | .leftBrace => true
  | _ => false

mutual

/-- A declaration, or nothing in place of a broken one. -/
def declaration : Nat → Parse (Option Stmt)
  | 0 => exhausted
  | n + 1 =>
    tryCatch (some <$> declared n) fun fault => do
      record fault
      skipBroken
      return none

/-- A declaration that may throw. -/
def declared : Nat → Parse Stmt
  | 0 => exhausted
  | n + 1 => do
    match ← accept .kwFun with
    | some _ => function n
    | none =>
      match ← accept .kwVar with
      | some _ => varDeclaration n
      | none => statement n

/-- A function declaration after the word `fun`. -/
def function : Nat → Parse Stmt
  | 0 => exhausted
  | n + 1 => do
    let name ← expect .identifier .expectFunctionName
    let _ ← expect .leftParen .expectParenAfterFunctionName
    let params ← if ← nextIs .rightParen then pure [] else paramsFrom n 0
    let _ ← expect .rightParen .expectParenAfterParameters
    let _ ← expect .leftBrace .expectBraceBeforeBody
    let body ← block n
    return .function name params body

def statement : Nat → Parse Stmt
  | 0 => exhausted
  | n + 1 => do
    match ← acceptIf beginsKeyed with
    | none => expressionStatement n
    | some keyword =>
      match keyword.kind with
      | .kwFor => forStatement n
      | .kwIf => ifStatement n
      | .kwPrint => printStatement n
      | .kwReturn => returnStatement n keyword
      | .kwWhile => whileStatement n
      | _ => .block <$> block n

/-- A loop after the word `for`. -/
def forStatement : Nat → Parse Stmt
  | 0 => exhausted
  | n + 1 => do
    let _ ← expect .leftParen .expectParenAfterFor
    let initializer ← forInitializer n
    let condition ← expressionUnless n .semicolon
    let _ ← expect .semicolon .expectSemicolonAfterLoopCondition
    let increment ← expressionUnless n .rightParen
    let _ ← expect .rightParen .expectParenAfterForClauses
    let body ← statement n
    return .forLoop initializer condition increment body

/-- A conditional after the word `if`. -/
def ifStatement : Nat → Parse Stmt
  | 0 => exhausted
  | n + 1 => do
    let _ ← expect .leftParen .expectParenAfterIf
    let condition ← expression n
    let _ ← expect .rightParen .expectParenAfterIfCondition
    let thenBranch ← statement n
    let elseBranch ← match ← accept .kwElse with
      | some _ => some <$> statement n
      | none => pure none
    return .ifThen condition thenBranch elseBranch

/-- A loop after the word `while`. -/
def whileStatement : Nat → Parse Stmt
  | 0 => exhausted
  | n + 1 => do
    let _ ← expect .leftParen .expectParenAfterWhile
    let condition ← expression n
    let _ ← expect .rightParen .expectParenAfterCondition
    let body ← statement n
    return .whileLoop condition body

/-- A block after its opening brace. -/
def block : Nat → Parse (List Stmt)
  | 0 => exhausted
  | n + 1 => do
    let body ← declarations n true
    let _ ← expect .rightBrace .expectBraceAfterBlock
    return body

/-- Declarations up to the end of the source or, within a block, up to the closing brace. -/
def declarations : Nat → Bool → Parse (List Stmt)
  | 0, _ => exhausted
  | n + 1, inBlock => do
    if (← atEnd) || (inBlock && (← nextIs .rightBrace)) then return []
    else
      let first ← declaration n
      let rest ← declarations n inBlock
      return first.toList ++ rest

end

end Parse

/-- What was read from a list of tokens. -/
structure Parsed where
  statements : List Stmt
  faults : List Parse.Fault
  /-- The number after the last one given to a node. -/
  nextId : NodeId

namespace Parsed

/-- The state before the first token. Only the tokens before the first mark of the end are read; if
there is no such mark, one is put on the line of the last token, or on the first line. -/
def start (tokens : List Token) (firstId : NodeId) : Parse.State where
  rest := tokens.takeWhile (·.kind ≠ .eof)
  last := (tokens.find? (·.kind = .eof)).getD
    ⟨.eof, "", (tokens.getLast?.map Token.line).getD 1⟩
  nextId := firstId
  faults := []

/-- Enough fuel to read a number of tokens: less than this many parsers are entered from one token
to the next. -/
def fuel (tokens : List Token) : Nat := 32 * (tokens.length + 1)

/-- Reads a program as it is written. -/
def ofTokens (tokens : List Token) (firstId : NodeId) : Parsed :=
  match (Parse.declarations (fuel tokens) false).run (start tokens firstId) with
  | some (.ok statements, s) => ⟨statements, s.faults, s.nextId⟩
  | some (.error fault, s) => ⟨[], s.faults ++ [fault], s.nextId⟩
  | none => ⟨[], [], firstId⟩

/-- The program with its `for` loops written out. -/
def desugar (p : Parsed) : Parsed := { p with statements := Stmt.desugarAll p.statements }

end Parsed

end Lox
