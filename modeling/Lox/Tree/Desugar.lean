import Lox.Tree

/-!
# Loops without `for`

A `for` loop is a block with the initializer and a `while` loop whose body is a block of the body
and the increment. Each of the two blocks is there only if there is something to put into it. An
absent condition is the constant true.
-/

namespace Lox.Stmt

/-- The body of the loop with the increment after it. -/
def withIncrement (body : Stmt) : Option Expr → Stmt
  | some increment => .block [body, .expression increment]
  | none => body

/-- The loop after its initializer. -/
def withInitializer (loop : Stmt) : Option Stmt → Stmt
  | some initializer => .block [initializer, loop]
  | none => loop

/-- The condition of a loop, true if there is none. -/
def loopCondition (condition : Option Expr) : Expr := condition.getD (.literal (.bool true))

mutual

/-- The statement with its `for` loops written out, inner ones included. -/
def desugar : Stmt → Stmt
  | .expression value => .expression value
  | .print value => .print value
  | .var name initializer => .var name initializer
  | .block body => .block (desugarAll body)
  | .ifThen condition thenBranch elseBranch =>
    .ifThen condition (desugar thenBranch) (desugarOptional elseBranch)
  | .whileLoop condition body => .whileLoop condition (desugar body)
  | .forLoop initializer condition increment body =>
    withInitializer
      (.whileLoop (loopCondition condition) (withIncrement (desugar body) increment))
      (desugarOptional initializer)
  | .function name params body => .function name params (desugarAll body)
  | .ret keyword value => .ret keyword value

def desugarAll : List Stmt → List Stmt
  | [] => []
  | s :: rest => desugar s :: desugarAll rest

def desugarOptional : Option Stmt → Option Stmt
  | none => none
  | some s => some (desugar s)

end

end Lox.Stmt
