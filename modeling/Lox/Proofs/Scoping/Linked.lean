import Lox.Binding
import Lox.Proofs.Parser.Shape

/-!
# What the recorded distances say

`Linked` is the scoping of the language as a judgement on trees: under the names of
the scopes around a node, the distance recorded for it is the number of scopes out to
the first one that declares its name, no name is declared twice in one scope or read
in its own initializer, and a return stands in a function.

What is known of a distance is a parameter, so that a tree that is linked by the
distances of today can be seen to be linked by those of tomorrow.
-/

namespace Lox

namespace Binding

/-- What is known of the distance recorded for a node. -/
def Recorded := NodeId → Option Nat → Prop

/-- What is known is at least something else. -/
def Recorded.Implies (recorded recorded' : Recorded) : Prop :=
  ∀ id distance, recorded id distance → recorded' id distance

/-- The names of the open scopes, the innermost first. -/
abbrev Scopes := List Names

namespace Scopes

/-- Puts a name into the innermost scope, if there is one. -/
def enter (scopes : Scopes) (name : String) (ready : Bool) : Scopes :=
  match scopes with
  | [] => []
  | names :: outer => ((name, ready) :: names) :: outer

/-- The scopes while an initializer is walked. -/
def declare (scopes : Scopes) (name : Token) : Scopes := scopes.enter name.lexeme false

/-- The scopes behind a declaration. -/
def introduce (scopes : Scopes) (name : Token) : Scopes :=
  (scopes.declare name).enter name.lexeme true

/-- The scopes behind a statement. -/
def behind (scopes : Scopes) : Stmt → Scopes
  | .var name _ | .function name _ _ => scopes.introduce name
  | _ => scopes

/-- The top level is no scope. -/
theorem behind_nil (s : Stmt) : behind [] s = [] := by
  cases s <;> rfl

/-- The scopes in the body of a function. -/
def call (scopes : Scopes) (params : List Token) : Scopes := params.foldl introduce ([] :: scopes)

/-- The parameters of a function stand in a scope of their own. -/
theorem call_cons (scopes : Scopes) (params : List Token) :
    ∃ names : Names, scopes.call params = names :: scopes := by
  have key : ∀ start : Names, ∃ names : Names,
      params.foldl introduce (start :: scopes) = names :: scopes := by
    induction params with
    | nil => exact fun start => ⟨start, rfl⟩
    | cons p params ih => exact fun start => ih ((p.lexeme, true) :: (p.lexeme, false) :: start)
  exact key []

/-- What the innermost scope knows of a name. -/
def innermost? (scopes : Scopes) (name : String) : Option Bool :=
  scopes.head?.bind (·.lookup name)

/-- None of the names that are introduced one after the other is in the scope before. -/
def Fresh (scopes : Scopes) : List Token → Prop
  | [] => True
  | name :: rest => scopes.innermost? name.lexeme = none ∧ Fresh (scopes.introduce name) rest

/-- The number of scopes to leave to reach one that declares the name. -/
def distance? (scopes : Scopes) (name : String) : Option Nat :=
  scopes.findIdx? fun names => (names.lookup name).isSome

end Scopes

end Binding

open Binding

theorem lookup_cons_name (names : Names) (name n : String) (ready : Bool) :
    List.lookup n ((name, ready) :: names) = if n = name then some ready else names.lookup n := by
  simp only [List.lookup_cons]
  grind

mutual

/-- The uses of variables in an expression have the right distances. -/
def Expr.Linked (recorded : Recorded) (scopes : Scopes) : Expr → Prop
  | .literal _ => True
  | .group inner => inner.Linked recorded scopes
  | .unary _ operand => operand.Linked recorded scopes
  | .binary left _ right | .logical left _ right =>
    left.Linked recorded scopes ∧ right.Linked recorded scopes
  | .variable id name =>
    recorded id (scopes.distance? name.lexeme) ∧
      scopes.innermost? name.lexeme ≠ some false
  | .assign id name value =>
    value.Linked recorded scopes ∧ recorded id (scopes.distance? name.lexeme)
  | .call callee _ arguments =>
    callee.Linked recorded scopes ∧ Expr.LinkedAll recorded scopes arguments

def Expr.LinkedAll (recorded : Recorded) (scopes : Scopes) : List Expr → Prop
  | [] => True
  | e :: rest => e.Linked recorded scopes ∧ Expr.LinkedAll recorded scopes rest

end

def Expr.LinkedOptional (recorded : Recorded) (scopes : Scopes) : Option Expr → Prop
  | none => True
  | some e => e.Linked recorded scopes

mutual

/-- The uses of variables in a statement have the right distances. -/
def Stmt.Linked (recorded : Recorded) (inFunction : Bool) (scopes : Scopes) : Stmt → Prop
  | .expression value | .print value => value.Linked recorded scopes
  | .var name initializer =>
    scopes.innermost? name.lexeme = none ∧
      Expr.LinkedOptional recorded (scopes.declare name) initializer
  | .block body => Stmt.LinkedAll recorded inFunction ([] :: scopes) body
  | .ifThen condition thenBranch elseBranch =>
    condition.Linked recorded scopes ∧
      (thenBranch.plain = true ∧ thenBranch.Linked recorded inFunction scopes) ∧
        Stmt.LinkedBranch recorded inFunction scopes elseBranch
  | .whileLoop condition body =>
    condition.Linked recorded scopes ∧ body.plain = true ∧ body.Linked recorded inFunction scopes
  | .forLoop .. => False
  | .function name params body =>
    scopes.innermost? name.lexeme = none ∧ Scopes.Fresh ([] :: scopes.introduce name) params ∧
      Stmt.LinkedAll recorded true ((scopes.introduce name).call params) body
  | .ret _ value => inFunction = true ∧ Expr.LinkedOptional recorded scopes value

def Stmt.LinkedAll (recorded : Recorded) (inFunction : Bool) (scopes : Scopes) : List Stmt → Prop
  | [] => True
  | s :: rest =>
    s.Linked recorded inFunction scopes ∧
      Stmt.LinkedAll recorded inFunction (scopes.behind s) rest

def Stmt.LinkedBranch (recorded : Recorded) (inFunction : Bool) (scopes : Scopes) :
    Option Stmt → Prop
  | none => True
  | some s => s.plain = true ∧ s.Linked recorded inFunction scopes

end

section Mono

variable {recorded recorded' : Recorded}

mutual

theorem Expr.Linked.mono (h : recorded.Implies recorded') {scopes : Scopes} (e : Expr)
    (he : e.Linked recorded scopes) :
    e.Linked recorded' scopes := by
  match e with
  | .literal _ => trivial
  | .group inner => exact Expr.Linked.mono h inner he
  | .unary _ operand => exact Expr.Linked.mono h operand he
  | .binary left _ right | .logical left _ right =>
      exact ⟨Expr.Linked.mono h left he.1, Expr.Linked.mono h right he.2⟩
  | .variable _ _ => exact ⟨h _ _ he.1, he.2⟩
  | .assign _ _ value => exact ⟨Expr.Linked.mono h value he.1, h _ _ he.2⟩
  | .call callee _ arguments =>
      exact ⟨Expr.Linked.mono h callee he.1, Expr.LinkedAll.mono h arguments he.2⟩

theorem Expr.LinkedAll.mono (h : recorded.Implies recorded') {scopes : Scopes}
    (es : List Expr) (hes : Expr.LinkedAll recorded scopes es) :
    Expr.LinkedAll recorded' scopes es := by
  match es with
  | [] => trivial
  | e :: rest => exact ⟨Expr.Linked.mono h e hes.1, Expr.LinkedAll.mono h rest hes.2⟩

end

theorem Expr.LinkedOptional.mono (h : recorded.Implies recorded') {scopes : Scopes}
    (o : Option Expr) (ho : Expr.LinkedOptional recorded scopes o) :
    Expr.LinkedOptional recorded' scopes o := by
  cases o with
  | none => trivial
  | some e => exact Expr.Linked.mono h e ho

mutual

theorem Stmt.Linked.mono (h : recorded.Implies recorded') {inFunction : Bool} {scopes : Scopes}
    (s : Stmt) (hs : s.Linked recorded inFunction scopes) :
    s.Linked recorded' inFunction scopes := by
  match s with
  | .expression value | .print value => exact Expr.Linked.mono h value hs
  | .var _ initializer => exact ⟨hs.1, Expr.LinkedOptional.mono h initializer hs.2⟩
  | .block body => exact Stmt.LinkedAll.mono h body hs
  | .ifThen condition thenBranch elseBranch =>
      exact ⟨Expr.Linked.mono h condition hs.1,
        ⟨hs.2.1.1, Stmt.Linked.mono h thenBranch hs.2.1.2⟩,
        Stmt.LinkedBranch.mono h elseBranch hs.2.2⟩
  | .whileLoop condition body =>
      exact ⟨Expr.Linked.mono h condition hs.1, hs.2.1, Stmt.Linked.mono h body hs.2.2⟩
  | .function _ _ body => exact ⟨hs.1, hs.2.1, Stmt.LinkedAll.mono h body hs.2.2⟩
  | .ret _ value => exact ⟨hs.1, Expr.LinkedOptional.mono h value hs.2⟩

theorem Stmt.LinkedAll.mono (h : recorded.Implies recorded') {inFunction : Bool} {scopes : Scopes}
    (body : List Stmt) (hb : Stmt.LinkedAll recorded inFunction scopes body) :
    Stmt.LinkedAll recorded' inFunction scopes body := by
  match body with
  | [] => trivial
  | s :: rest => exact ⟨Stmt.Linked.mono h s hb.1, Stmt.LinkedAll.mono h rest hb.2⟩

theorem Stmt.LinkedBranch.mono (h : recorded.Implies recorded') {inFunction : Bool}
    {scopes : Scopes} (o : Option Stmt) (ho : Stmt.LinkedBranch recorded inFunction scopes o) :
    Stmt.LinkedBranch recorded' inFunction scopes o := by
  match o with
  | none => trivial
  | some s => exact ⟨ho.1, Stmt.Linked.mono h s ho.2⟩

end

end Mono

end Lox
