import Lox.Binding
import Lox.Proofs.Moved

/-!
# Binding further down in a source

A walk over a moved program does what the walk over the program does: it opens the same
scopes, records the same distances for the moved numbers, and reports its faults further
down. Distances recorded before have no influence on it.
-/

namespace Lox.Binding

/-- The fault so many lines further down. -/
def Fault.later (k : Nat) (f : Fault) : Fault := { f with token := f.token.later k }

section Moved

variable (k d : Nat) (base : Distances)

/-- The state of the walk over a moved program, on top of earlier distances. -/
def State.moved (s : State) : State where
  scopes := s.scopes
  distances := s.distances.map (fun r => (r.1 + d, r.2)) ++ base
  faults := s.faults.map (Fault.later k)

namespace State

theorem report_moved (s : State) (cause : Cause) (t : Token) :
    (s.moved k d base).report cause (t.later k) = (s.report cause t).moved k d base := by
  show State.mk _ _ _ = State.mk _ _ _
  rw [report, List.map_append]
  rfl

theorem enter_moved (s : State) (name : String) (ready : Bool) :
    (s.moved k d base).enter name ready = (s.enter name ready).moved k d base := by
  obtain ⟨scopes, distances, faults⟩ := s
  cases scopes <;> rfl

theorem declare_moved (s : State) (name : Token) :
    (s.moved k d base).declare (name.later k) = (s.declare name).moved k d base := by
  show (if ((s.moved k d base).innermost? name.lexeme).isSome then _ else _) = _
  rw [enter_moved, report_moved, declare]
  exact (apply_ite (State.moved k d base) _ _ _).symm

theorem introduce_moved (s : State) (name : Token) :
    (s.moved k d base).introduce (name.later k) = (s.introduce name).moved k d base := by
  rw [introduce, declare_moved]
  exact enter_moved k d base _ _ _

theorem introduceAll_moved (params : List Token) (s : State) :
    (params.map (Token.later k)).foldl introduce (s.moved k d base) =
      (params.foldl introduce s).moved k d base := by
  induction params generalizing s with
  | nil => rfl
  | cons name params ih =>
      rw [List.map_cons, List.foldl_cons, List.foldl_cons, introduce_moved, ih]

theorem link_moved (s : State) (id : NodeId) (name : Token) :
    (s.moved k d base).link (id + d) (name.later k) = (s.link id name).moved k d base := by
  have hdistance : (s.moved k d base).distance? (name.later k).lexeme =
      s.distance? name.lexeme := rfl
  rw [link, link, hdistance]
  cases s.distance? name.lexeme <;> rfl

theorem read_moved (s : State) (id : NodeId) (name : Token) :
    (s.moved k d base).read (id + d) (name.later k) = (s.read id name).moved k d base := by
  rw [read, read]
  show (if s.innermost? name.lexeme = some false then _ else _ : State).link _ _ = _
  rw [report_moved]
  split <;> exact link_moved k d base _ id name

end State

open State

mutual

theorem expression_moved (e : Expr) (s : State) :
    expression (e.moved k d) (s.moved k d base) = (expression e s).moved k d base := by
  match e with
  | .literal _ => rfl
  | .group inner => exact expression_moved inner s
  | .unary _ operand => exact expression_moved operand s
  | .binary left _ right | .logical left _ right =>
      rw [Expr.moved, expression, expression_moved left, expression_moved right, expression]
  | .variable id name => exact read_moved k d base s id name
  | .assign id name value =>
      rw [Expr.moved, expression, expression_moved value, link_moved, expression]
  | .call callee _ arguments =>
      rw [Expr.moved, expression, expression_moved callee, expressions_moved arguments, expression]

theorem expressions_moved (es : List Expr) (s : State) :
    expressions (Expr.movedAll k d es) (s.moved k d base) =
      (expressions es s).moved k d base := by
  match es with
  | [] => rfl
  | e :: rest =>
      rw [Expr.movedAll, expressions, expression_moved e, expressions_moved rest, expressions]

end

theorem optionalExpression_moved (o : Option Expr) (s : State) :
    optionalExpression (Expr.movedOptional k d o) (s.moved k d base) =
      (optionalExpression o s).moved k d base := by
  cases o with
  | none => rfl
  | some e => exact expression_moved k d base e s

mutual

/-- The walk over a moved statement is the walk over the statement, moved. -/
theorem statement_moved (inFunction : Bool) (stmt : Stmt) (s : State) :
    statement inFunction (stmt.moved k d) (s.moved k d base) =
      (statement inFunction stmt s).moved k d base := by
  match stmt with
  | .expression value | .print value => exact expression_moved k d base value s
  | .var name initializer =>
      rw [Stmt.moved, statement, declare_moved, optionalExpression_moved, statement]
      exact enter_moved k d base _ _ _
  | .block body =>
      rw [Stmt.moved, statement, statement]
      exact congrArg closeScope (statements_moved inFunction body s.openScope)
  | .ifThen condition thenBranch elseBranch =>
      rw [Stmt.moved, statement, expression_moved, statement_moved inFunction thenBranch,
        optionalStatement_moved inFunction elseBranch, statement]
  | .whileLoop condition body =>
      rw [Stmt.moved, statement, expression_moved, statement_moved inFunction body, statement]
  | .forLoop none condition increment body =>
      rw [Stmt.moved, Stmt.movedOptional, statement, statement]
      show optionalExpression _ (statement _ _ (optionalExpression _ _)) = _
      rw [optionalExpression_moved, statement_moved inFunction body, optionalExpression_moved]
  | .forLoop (some initializer) condition increment body =>
      rw [Stmt.moved, Stmt.movedOptional, statement, statement]
      show (optionalExpression _ (statement _ _ (optionalExpression _
        (statement _ _ (s.openScope.moved k d base))))).closeScope = _
      rw [statement_moved inFunction initializer, optionalExpression_moved,
        statement_moved inFunction body, optionalExpression_moved]
      rfl
  | .function name params body =>
      rw [Stmt.moved, statement, introduce_moved, statement]
      show (statements true _
        (List.foldl _ ((s.introduce name).openScope.moved k d base) _)).closeScope = _
      rw [introduceAll_moved, statements_moved true body]
      rfl
  | .ret keyword value =>
      rw [Stmt.moved, statement, report_moved, statement]
      cases inFunction <;> exact optionalExpression_moved k d base value _

theorem statements_moved (inFunction : Bool) (body : List Stmt) (s : State) :
    statements inFunction (Stmt.movedAll k d body) (s.moved k d base) =
      (statements inFunction body s).moved k d base := by
  match body with
  | [] => rfl
  | stmt :: rest =>
      rw [Stmt.movedAll, statements, statement_moved inFunction stmt,
        statements_moved inFunction rest, statements]

theorem optionalStatement_moved (inFunction : Bool) (o : Option Stmt) (s : State) :
    optionalStatement inFunction (Stmt.movedOptional k d o) (s.moved k d base) =
      (optionalStatement inFunction o s).moved k d base := by
  match o with
  | none => rfl
  | some stmt => exact statement_moved inFunction stmt s

end

end Moved

theorem statements_append (inFunction : Bool) (body rest : List Stmt) (s : State) :
    statements inFunction (body ++ rest) s =
      statements inFunction rest (statements inFunction body s) := by
  induction body generalizing s with
  | nil => rfl
  | cons stmt body ih => exact ih _

end Lox.Binding
