import Lox.Tree.Parse.State

/-!
# Reading expressions

Operators with two operands stand on six levels, from `or` to `*`, and all of them group to the
left: an operand of one level is an expression of the next. Below the last level come the
operators with one operand, then calls, then constants, names and parentheses. Above the first
comes assignment, which groups to the right; whether its left side can be assigned to is asked only
after its right side has been read.
-/

namespace Lox.Parse

/-- The most arguments of a call, and the most parameters of a function. -/
def maxArity : Nat := 255

/-- The levels of operators with two operands, the loosest first. -/
inductive Level
  | disjunction
  | conjunction
  | equality
  | comparison
  | sum
  | product
deriving DecidableEq, Repr

namespace Level

/-- The operators of a level. -/
def has : Level → Token.Kind → Bool
  | disjunction, kind => kind = .kwOr
  | conjunction, kind => kind = .kwAnd
  | equality, kind => kind = .bangEqual || kind = .equalEqual
  | comparison, kind =>
    kind = .greater || kind = .greaterEqual || kind = .less || kind = .lessEqual
  | sum, kind => kind = .minus || kind = .plus
  | product, kind => kind = .slash || kind = .star

/-- The next level, whose expressions are the operands of this one. -/
def tighter? : Level → Option Level
  | disjunction => some conjunction
  | conjunction => some equality
  | equality => some comparison
  | comparison => some sum
  | sum => some product
  | product => none

/-- The node for an operator of the level. -/
def node : Level → Expr → Token → Expr → Expr
  | disjunction => .logical
  | conjunction => .logical
  | equality | comparison | sum | product => .binary

end Level

/-- The operators with one operand. -/
def isUnary (kind : Token.Kind) : Bool := kind = .bang || kind = .minus

/-- The kinds of tokens that begin a constant, a name or a parenthesis. -/
def beginsPrimary : Token.Kind → Bool
  | .string _ | .number _ | .kwTrue | .kwFalse | .kwNil | .identifier | .leftParen => true
  | _ => false

/-- Assigns to a variable. Anything else cannot be assigned to and stays as it is. -/
def assignTo (target : Expr) (equals : Token) (value : Expr) : Parse Expr :=
  match target with
  | .variable _ name => do return .assign (← freshId) name value
  | _ => do
    record ⟨.invalidAssignmentTarget, equals⟩
    return target

mutual

def expression : Nat → Parse Expr
  | 0 => exhausted
  | n + 1 => do
    let target ← level n .disjunction
    match ← accept .equal with
    | none => return target
    | some equals =>
      let value ← expression n
      assignTo target equals value

/-- Operands of a level with its operators between them. -/
def level : Nat → Level → Parse Expr
  | 0, _ => exhausted
  | n + 1, l => do
    let left ← operand n l
    levelRest n l left

/-- The operators of a level after what has been read of it, each with its right operand. -/
def levelRest : Nat → Level → Expr → Parse Expr
  | 0, _, _ => exhausted
  | n + 1, l, left => do
    match ← acceptIf l.has with
    | none => return left
    | some operator =>
      let right ← operand n l
      levelRest n l (l.node left operator right)

/-- An operand of a level. -/
def operand : Nat → Level → Parse Expr
  | 0, _ => exhausted
  | n + 1, l =>
    match l.tighter? with
    | some l => level n l
    | none => unary n

def unary : Nat → Parse Expr
  | 0 => exhausted
  | n + 1 => do
    match ← acceptIf isUnary with
    | some operator =>
      let operand ← unary n
      return .unary operator operand
    | none =>
      let callee ← primary n
      callRest n callee

/-- The argument lists after what is called. -/
def callRest : Nat → Expr → Parse Expr
  | 0, _ => exhausted
  | n + 1, callee => do
    match ← accept .leftParen with
    | none => return callee
    | some _ =>
      let arguments ← arguments n
      let paren ← expect .rightParen .expectParenAfterArguments
      callRest n (.call callee paren arguments)

def arguments : Nat → Parse (List Expr)
  | 0 => exhausted
  | n + 1 => do
    if ← nextIs .rightParen then return []
    else argumentsFrom n 0

/-- Arguments with commas between them, of which `count` have been read. -/
def argumentsFrom : Nat → Nat → Parse (List Expr)
  | 0, _ => exhausted
  | n + 1, count => do
    if maxArity ≤ count then recordHere .tooManyArguments
    let first ← expression n
    match ← accept .comma with
    | none => return [first]
    | some _ =>
      let rest ← argumentsFrom n (count + 1)
      return first :: rest

def primary : Nat → Parse Expr
  | 0 => exhausted
  | n + 1 => do
    match ← acceptIf beginsPrimary with
    | none => fail .expectExpression
    | some t =>
      match t.constant? with
      | some value => return .literal value
      | none =>
        if t.kind = .identifier then
          return .variable (← freshId) t
        else
          let inner ← expression n
          let _ ← expect .rightParen .expectParenAfterExpression
          return .group inner

end

end Lox.Parse
