import Lox.Proofs.Parser.Numbering
import Lox.Tree.Desugar

/-!
# The trees that are run

A program is run with its loops written out. Then there is no `for` loop in it any
more, and what a conditional or a loop decides about is never a declaration by
itself: the grammar has no place for one there. The numbers of the nodes are those
of the tree as it was read.
-/

namespace Lox

namespace Stmt

/-- Is the statement no declaration? -/
def plain : Stmt → Bool
  | .var .. | .function .. => false
  | _ => true

mutual

/-- A statement without `for` loops in which no declaration stands alone below a condition. -/
def Proper : Stmt → Prop
  | .expression _ | .print _ | .var .. | .ret .. => True
  | .block body => ProperAll body
  | .ifThen _ thenBranch elseBranch =>
    (thenBranch.plain = true ∧ Proper thenBranch) ∧ ProperBranch elseBranch
  | .whileLoop _ body => body.plain = true ∧ Proper body
  | .forLoop .. => False
  | .function _ _ body => ProperAll body

def ProperAll : List Stmt → Prop
  | [] => True
  | s :: rest => Proper s ∧ ProperAll rest

def ProperBranch : Option Stmt → Prop
  | none => True
  | some s => s.plain = true ∧ Proper s

end

theorem plain_withIncrement {body : Stmt} (h : body.plain = true) (increment : Option Expr) :
    (body.withIncrement increment).plain = true := by
  cases increment with
  | none => exact h
  | some e => rfl

theorem proper_withIncrement {body : Stmt} (h : body.Proper) (increment : Option Expr) :
    (body.withIncrement increment).Proper := by
  cases increment with
  | none => exact h
  | some e => exact ⟨h, trivial, trivial⟩

theorem plain_withInitializer {loop : Stmt} (h : loop.plain = true) (initializer : Option Stmt) :
    (loop.withInitializer initializer).plain = true := by
  cases initializer with
  | none => exact h
  | some s => rfl

/-- What stands in place of a loop. -/
theorem proper_withInitializer {loop : Stmt} (h : loop.Proper) {initializer : Option Stmt}
    (hi : ∀ s, initializer = some s → s.Proper) : (loop.withInitializer initializer).Proper := by
  cases initializer with
  | none => exact h
  | some s => exact ⟨hi s rfl, h, trivial⟩

end Stmt

namespace Parse

/-- What is said of the trees of a phrase once their loops are written out. -/
def Phrase.Proper : (p : Phrase) → p.Tree → Prop
  | .expressionStatement, s | .printStatement, s | .returnStatement _, s | .statement, s
  | .forStatement, s | .ifStatement, s | .whileStatement, s =>
    s.desugar.plain = true ∧ s.desugar.Proper
  | .varDeclaration, s | .declared, s | .function, s => s.desugar.Proper
  | .forInitializer, o | .declaration, o => ∀ s, Stmt.desugarOptional o = some s → s.Proper
  | .block, body | .declarations _, body => Stmt.ProperAll (Stmt.desugarAll body)
  | _, _ => True

theorem Reads.proper {p : Phrase} {w : List Token} {i j : Nat} {a : p.Tree}
    (h : Reads p w i a j) : p.Proper a := by
  induction h with
  | varBare | varValue => trivial
  | expressionStatement | printStatement | returnStatement => exact ⟨rfl, trivial⟩
  | noInitializer _ =>
      intro s hs
      cases hs
  | varInitializer _ _ ih | declaration _ ih =>
      intro s hs
      cases hs
      exact ih
  | valueInitializer _ ih =>
      intro s hs
      cases hs
      exact ih.2
  | functionDeclared _ _ ih | varDeclared _ _ ih | functionBare _ _ _ _ _ ih
  | functionParams _ _ _ _ _ _ _ ih => exact ih
  | statementDeclared _ ih => exact ih.2
  | statementPlain _ ih | statementFor _ _ ih | statementIf _ _ ih | statementPrint _ _ ih
  | statementReturn _ _ ih | statementWhile _ _ ih | block _ _ ih => exact ih
  | statementBlock _ _ ih => exact ⟨rfl, ih⟩
  | forStatement _ _ _ _ _ _ _ ih _ _ ih' =>
      refine ⟨Stmt.plain_withInitializer rfl _, Stmt.proper_withInitializer ?_ ih⟩
      exact ⟨Stmt.plain_withIncrement ih'.1 _, Stmt.proper_withIncrement ih'.2 _⟩
  | ifBare _ _ _ _ _ ih => exact ⟨rfl, ih, trivial⟩
  | ifElse _ _ _ _ _ _ _ _ ih ih' => exact ⟨rfl, ih, ih'⟩
  | whileStatement _ _ _ _ _ ih => exact ⟨rfl, ih⟩
  | declarationsEnd => trivial
  | declarationsMore _ _ ih ih' => exact ⟨ih _ rfl, ih'⟩
  | _ => trivial

end Parse

namespace Stmt

theorem nodeIds_loopCondition (condition : Option Expr) :
    (loopCondition condition).nodeIds = Expr.nodeIdsOptional condition := by
  cases condition <;> rfl

theorem nodeIds_withIncrement (body : Stmt) (increment : Option Expr) :
    (body.withIncrement increment).nodeIds = body.nodeIds ++ Expr.nodeIdsOptional increment := by
  cases increment with
  | none => exact (List.append_nil _).symm
  | some e =>
      show body.nodeIds ++ (e.nodeIds ++ []) = _
      rw [List.append_nil]
      rfl

theorem nodeIds_withInitializer (loop : Stmt) (initializer : Option Stmt) :
    (loop.withInitializer initializer).nodeIds =
      Stmt.nodeIdsOptional initializer ++ loop.nodeIds := by
  cases initializer with
  | none => rfl
  | some s =>
      show s.nodeIds ++ (loop.nodeIds ++ []) = _
      rw [List.append_nil]
      rfl

mutual

/-- Writing loops out changes nothing but the order of the nodes. -/
theorem nodeIds_desugar (s : Stmt) : s.desugar.nodeIds.Perm s.nodeIds := by
  match s with
  | .expression _ | .print _ | .var _ _ | .ret _ _ => exact .refl _
  | .block body => exact nodeIds_desugarAll body
  | .ifThen condition thenBranch elseBranch =>
      exact ((List.Perm.refl _).append (nodeIds_desugar thenBranch)).append
        (nodeIds_desugarOptional elseBranch)
  | .whileLoop condition body => exact (List.Perm.refl _).append (nodeIds_desugar body)
  | .forLoop initializer condition increment body =>
      rw [desugar, nodeIds_withInitializer, nodeIds, nodeIds_loopCondition, nodeIds_withIncrement,
        nodeIds, List.append_assoc, List.append_assoc]
      refine (nodeIds_desugarOptional initializer).append ((List.Perm.refl _).append ?_)
      exact ((nodeIds_desugar body).append_right _).trans List.perm_append_comm
  | .function _ _ body => exact nodeIds_desugarAll body

theorem nodeIds_desugarAll (body : List Stmt) :
    (nodeIdsAll (desugarAll body)).Perm (nodeIdsAll body) := by
  match body with
  | [] => exact .refl _
  | s :: rest => exact (nodeIds_desugar s).append (nodeIds_desugarAll rest)

theorem nodeIds_desugarOptional (o : Option Stmt) :
    (nodeIdsOptional (desugarOptional o)).Perm (nodeIdsOptional o) := by
  match o with
  | none => exact .refl _
  | some s => exact nodeIds_desugar s

end

end Stmt

end Lox
