import Lox.Number.Text
import Lox.Tree

/-!
# The dump of a tree

Each statement is written as one line of nested parentheses, the name of the construct first.
Constants, names and operators stand for themselves, strings without quotes. A `for` loop shows up
in the form that it is run in.
-/

namespace Lox

/-- A construct with its parts. -/
def parenthesized (head : String) (parts : List String) : String :=
  "(" ++ String.intercalate " " (head :: parts) ++ ")"

def Literal.dump : Literal → String
  | .nil => "nil"
  | .bool true => "true"
  | .bool false => "false"
  | .number value => Number.dumpText value
  | .string text => text

mutual

def Expr.dump : Expr → String
  | .literal value => value.dump
  | .group inner => parenthesized "group" [inner.dump]
  | .unary operator operand => parenthesized operator.lexeme [operand.dump]
  | .binary left operator right | .logical left operator right =>
    parenthesized operator.lexeme [left.dump, right.dump]
  | .variable _ name => name.lexeme
  | .assign _ name value => parenthesized "assign" [name.lexeme, value.dump]
  | .call callee _ arguments => parenthesized "call" (callee.dump :: Expr.dumpAll arguments)

def Expr.dumpAll : List Expr → List String
  | [] => []
  | e :: rest => e.dump :: Expr.dumpAll rest

end

/-- An absent part is dumped as `nil`. -/
def Expr.dumpOptional : Option Expr → String
  | none => "nil"
  | some e => e.dump

mutual

def Stmt.dump : Stmt → String
  | .expression value => parenthesized "expr" [value.dump]
  | .print value => parenthesized "print" [value.dump]
  | .var name initializer => parenthesized "vardecl" [name.lexeme, Expr.dumpOptional initializer]
  | .block body => parenthesized "block" (Stmt.dumpAll body)
  | .ifThen condition thenBranch elseBranch =>
    parenthesized "if" [condition.dump, thenBranch.dump, Stmt.dumpOptional elseBranch]
  | .whileLoop condition body => parenthesized "while" [condition.dump, body.dump]
  | .forLoop initializer condition increment body =>
    let round := match increment with
      | none => body.dump
      | some increment => parenthesized "block" [body.dump, parenthesized "expr" [increment.dump]]
    let condition := match condition with
      | none => "true"
      | some condition => condition.dump
    let loop := parenthesized "while" [condition, round]
    match initializer with
    | none => loop
    | some initializer => parenthesized "block" [initializer.dump, loop]
  | .function name params body =>
    let params := "(" ++ String.intercalate " " (params.map Token.lexeme) ++ ")"
    parenthesized "fun" (name.lexeme :: params :: Stmt.dumpAll body)
  | .ret _ value => parenthesized "return" [Expr.dumpOptional value]

def Stmt.dumpAll : List Stmt → List String
  | [] => []
  | s :: rest => s.dump :: Stmt.dumpAll rest

def Stmt.dumpOptional : Option Stmt → String
  | none => "nil"
  | some s => s.dump

end

end Lox
