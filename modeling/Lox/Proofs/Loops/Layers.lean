import Lox.Proofs.Scoping.Linked

/-!
# The scopes that loops add

When the loops of a program are written out, the body of a loop with an increment is put
into a block with it. The grammar has no declarations in that place, so the scope of the
block stays hollow. All other scopes the program has as it is written too: what was one
scope there, in which the clauses of the loop and its body stand, is the scope of the
block around the loop.

The distance to a variable is longer by the hollow scopes that lie on the way to it. The
layers around a node are the scopes that lie around it when the loops are written out,
each with which of the two it is; they tell which distances lead to the same scope.
-/

namespace Lox

/-- A scope of a program whose loops are written out. -/
inductive Layer
  /-- It is there in the program as it is written. -/
  | shared
  /-- The body and the increment of a loop have been put into it. -/
  | hollow
deriving DecidableEq

namespace Layer

/-- One more layer further in, if it is there. -/
def onto (layer : Layer) (there : Bool) (layers : List Layer) : List Layer :=
  if there then layer :: layers else layers

/-- The layers around the clauses of a loop. -/
def clauses (initializer : Option Stmt) (layers : List Layer) : List Layer :=
  shared.onto initializer.isSome layers

/-- The layers around the body of a loop and its increment. -/
def round (increment : Option Expr) (layers : List Layer) : List Layer :=
  hollow.onto increment.isSome layers

/-- A place where something can be declared. -/
abbrev Open (layers : List Layer) : Prop := layers.head? ≠ some hollow

theorem open_nil : Open [] := nofun

theorem open_shared (layers : List Layer) : Open (shared :: layers) := nofun

/-- Through the layers, the second distance leads where the first one leads as the program
is written. -/
inductive Reaches : List Layer → Nat → Nat → Prop
  | here {layers : List Layer} : Reaches (shared :: layers) 0 0
  | shared {layers : List Layer} {d d' : Nat} (h : Reaches layers d d') :
    Reaches (shared :: layers) (d + 1) (d' + 1)
  | hollow {layers : List Layer} {d d' : Nat} (h : Reaches layers d d') :
    Reaches (hollow :: layers) d (d' + 1)

end Layer

/-- The distances recorded for a program as it is written, and with its loops written
out. -/
abbrev Records := Distances × Distances

namespace Records

/-- What is recorded for a node in both. -/
def found (r : Records) (id : NodeId) : Option Nat × Option Nat := (r.1.find? id, r.2.find? id)

/-- Both distances of a node within the layers lead to the same scope, or there are none. -/
def Ties (r : Records) (layers : List Layer) (id : NodeId) : Prop :=
  Option.Rel (Layer.Reaches layers) (r.found id).1 (r.found id).2

end Records

/-! ## Trees whose distances are tied -/

section Tied

variable (r : Records)

mutual

/-- The distances of all nodes lead to the same scopes in both. -/
def Expr.Tied (layers : List Layer) : Expr → Prop
  | .literal _ => True
  | .group inner => inner.Tied layers
  | .unary _ operand => operand.Tied layers
  | .binary left _ right | .logical left _ right => left.Tied layers ∧ right.Tied layers
  | .variable id _ => r.Ties layers id
  | .assign id _ value => value.Tied layers ∧ r.Ties layers id
  | .call callee _ arguments => callee.Tied layers ∧ Expr.TiedAll layers arguments

def Expr.TiedAll (layers : List Layer) : List Expr → Prop
  | [] => True
  | e :: rest => e.Tied layers ∧ Expr.TiedAll layers rest

end

def Expr.TiedOptional (layers : List Layer) : Option Expr → Prop
  | none => True
  | some e => e.Tied r layers

mutual

/-- The distances of all nodes lead to the same scopes in both, and nothing is declared in
a hollow one. -/
def Stmt.Tied (layers : List Layer) : Stmt → Prop
  | .expression value | .print value => value.Tied r layers
  | .var _ initializer => Layer.Open layers ∧ Expr.TiedOptional r layers initializer
  | .block body => Stmt.TiedAll (.shared :: layers) body
  | .ifThen condition thenBranch elseBranch =>
    condition.Tied r layers ∧ thenBranch.Tied layers ∧ Stmt.TiedOptional layers elseBranch
  | .whileLoop condition body => condition.Tied r layers ∧ body.Tied layers
  | .forLoop initializer condition increment body =>
    Stmt.TiedOptional (Layer.clauses initializer layers) initializer ∧
      Expr.TiedOptional r (Layer.clauses initializer layers) condition ∧
      Expr.TiedOptional r (Layer.round increment (Layer.clauses initializer layers)) increment ∧
      body.Tied (Layer.round increment (Layer.clauses initializer layers))
  | .function _ _ body => Layer.Open layers ∧ Stmt.TiedAll (.shared :: layers) body
  | .ret _ value => Expr.TiedOptional r layers value

def Stmt.TiedAll (layers : List Layer) : List Stmt → Prop
  | [] => True
  | s :: rest => s.Tied layers ∧ Stmt.TiedAll layers rest

def Stmt.TiedOptional (layers : List Layer) : Option Stmt → Prop
  | none => True
  | some s => s.Tied layers

end

end Tied

/-- A loop without a condition names no variable in it. -/
theorem Expr.tied_loopCondition {r : Records} {layers : List Layer} {condition : Option Expr}
    (h : Expr.TiedOptional r layers condition) :
    (Stmt.loopCondition condition).Tied r layers := by
  cases condition with
  | none => trivial
  | some e => exact h

/-! ## Trees as they are written -/

namespace Stmt

mutual

/-- A statement as it is written, in which no declaration stands alone below a condition. -/
def Written : Stmt → Prop
  | .expression _ | .print _ | .var .. | .ret .. => True
  | .block body => WrittenAll body
  | .ifThen _ thenBranch elseBranch =>
    (thenBranch.plain = true ∧ Written thenBranch) ∧
      ((∀ s, elseBranch = some s → s.plain = true) ∧ WrittenOptional elseBranch)
  | .whileLoop _ body => body.plain = true ∧ Written body
  | .forLoop initializer _ _ body => WrittenOptional initializer ∧ body.plain = true ∧ Written body
  | .function _ _ body => WrittenAll body

def WrittenAll : List Stmt → Prop
  | [] => True
  | s :: rest => Written s ∧ WrittenAll rest

def WrittenOptional : Option Stmt → Prop
  | none => True
  | some s => Written s

end

end Stmt

namespace Parse

/-- What is said of the trees of a phrase as they are written. -/
def Phrase.Written : (p : Phrase) → p.Tree → Prop
  | .expressionStatement, s | .printStatement, s | .returnStatement _, s | .statement, s
  | .forStatement, s | .ifStatement, s | .whileStatement, s => s.plain = true ∧ s.Written
  | .varDeclaration, s | .declared, s | .function, s => s.Written
  | .forInitializer, o | .declaration, o => Stmt.WrittenOptional o
  | .block, body | .declarations _, body => Stmt.WrittenAll body
  | _, _ => True

theorem Reads.written {p : Phrase} {w : List Token} {i j : Nat} {a : p.Tree}
    (h : Reads p w i a j) : p.Written a := by
  induction h with
  | expressionStatement | printStatement | returnStatement => exact ⟨rfl, trivial⟩
  | valueInitializer _ ih | statementDeclared _ ih => exact ih.2
  | varInitializer _ _ ih | declaration _ ih | functionDeclared _ _ ih | varDeclared _ _ ih
  | functionBare _ _ _ _ _ ih | functionParams _ _ _ _ _ _ _ ih | statementPlain _ ih
  | statementFor _ _ ih | statementIf _ _ ih | statementPrint _ _ ih | statementReturn _ _ ih
  | statementWhile _ _ ih | block _ _ ih => exact ih
  | statementBlock _ _ ih => exact ⟨rfl, ih⟩
  | forStatement _ _ _ _ _ _ _ ih _ _ ih' => exact ⟨rfl, ih, ih'⟩
  | ifBare _ _ _ _ _ ih => exact ⟨rfl, ih, nofun, trivial⟩
  | ifElse _ _ _ _ _ _ _ _ ih ih' =>
      refine ⟨rfl, ih, ?_, ih'.2⟩
      rintro _ ⟨⟩
      exact ih'.1
  | whileStatement _ _ _ _ _ ih => exact ⟨rfl, ih⟩
  | declarationsMore _ _ ih ih' => exact ⟨ih, ih'⟩
  | _ => trivial

end Parse

end Lox
