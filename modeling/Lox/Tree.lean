import Lox.Token

/-!
# The tree of a program

Expressions and statements. Nodes that name something keep the token of the name, and nodes that
can fail when run keep the token at which the failure is reported. A node that reads or writes a
variable also has a number of its own, under which the distance to its scope is recorded.

`Stmt.forLoop` is the loop as it is written. A program is run in a tree without it, which
`Stmt.desugar` makes; that the node has a meaning of its own is what this can be measured by.
-/

namespace Lox

/-- The number of a node that reads or writes a variable. -/
abbrev NodeId := Nat

/-- A constant in the source. -/
inductive Literal
  | nil
  | bool (value : Bool)
  | number (value : Float)
  | string (text : String)
deriving DecidableEq, Inhabited

inductive Expr
  | literal (value : Literal)
  | group (inner : Expr)
  | unary (operator : Token) (operand : Expr)
  | binary (left : Expr) (operator : Token) (right : Expr)
  | logical (left : Expr) (operator : Token) (right : Expr)
  | variable (id : NodeId) (name : Token)
  | assign (id : NodeId) (name : Token) (value : Expr)
  /-- A call is reported at its closing parenthesis. -/
  | call (callee : Expr) (paren : Token) (arguments : List Expr)
deriving Inhabited

inductive Stmt
  | expression (value : Expr)
  | print (value : Expr)
  | var (name : Token) (initializer : Option Expr)
  | block (body : List Stmt)
  | ifThen (condition : Expr) (thenBranch : Stmt) (elseBranch : Option Stmt)
  | whileLoop (condition : Expr) (body : Stmt)
  | forLoop (initializer : Option Stmt) (condition increment : Option Expr) (body : Stmt)
  | function (name : Token) (params : List Token) (body : List Stmt)
  | ret (keyword : Token) (value : Option Expr)
deriving Inhabited

/-- The constant that a token stands for. -/
def Token.constant? (t : Token) : Option Literal :=
  match t.kind with
  | .string text => some (.string text)
  | .number value => some (.number value)
  | .kwTrue => some (.bool true)
  | .kwFalse => some (.bool false)
  | .kwNil => some .nil
  | _ => none

end Lox
