import Lox.Tree

/-!
# The nodes that name variables

The numbers of the nodes of a tree that read or write a variable, in the order in which the nodes
stand in it.
-/

namespace Lox

mutual

def Expr.nodeIds : Expr → List NodeId
  | .literal _ => []
  | .group inner => inner.nodeIds
  | .unary _ operand => operand.nodeIds
  | .binary left _ right | .logical left _ right => left.nodeIds ++ right.nodeIds
  | .variable id _ => [id]
  | .assign id _ value => id :: value.nodeIds
  | .call callee _ arguments => callee.nodeIds ++ Expr.nodeIdsAll arguments

def Expr.nodeIdsAll : List Expr → List NodeId
  | [] => []
  | e :: rest => e.nodeIds ++ Expr.nodeIdsAll rest

end

/-- The numbers in an expression that may be absent. -/
def Expr.nodeIdsOptional : Option Expr → List NodeId
  | none => []
  | some e => e.nodeIds

mutual

def Stmt.nodeIds : Stmt → List NodeId
  | .expression value | .print value => value.nodeIds
  | .var _ initializer => Expr.nodeIdsOptional initializer
  | .block body => Stmt.nodeIdsAll body
  | .ifThen condition thenBranch elseBranch =>
    condition.nodeIds ++ thenBranch.nodeIds ++ Stmt.nodeIdsOptional elseBranch
  | .whileLoop condition body => condition.nodeIds ++ body.nodeIds
  | .forLoop initializer condition increment body =>
    Stmt.nodeIdsOptional initializer ++ Expr.nodeIdsOptional condition ++
      Expr.nodeIdsOptional increment ++ body.nodeIds
  | .function _ _ body => Stmt.nodeIdsAll body
  | .ret _ value => Expr.nodeIdsOptional value

def Stmt.nodeIdsAll : List Stmt → List NodeId
  | [] => []
  | s :: rest => s.nodeIds ++ Stmt.nodeIdsAll rest

def Stmt.nodeIdsOptional : Option Stmt → List NodeId
  | none => []
  | some s => s.nodeIds

end

end Lox
