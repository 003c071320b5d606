import Lox.Proofs.Parser.Numbering
import Lox.Proofs.Scan
import Lox.Tree.Desugar

/-!
# Programs further down in a source

A program that stands further down in a source, behind another one, is the same tree
with its lines counted from further down and its nodes numbered from further up. What
is read from a list of tokens depends on nothing else of what goes before.
-/

namespace Lox

/-! ## Moved trees -/

section Definitions

variable (k d : Nat)

mutual

/-- The expression so many lines and numbers on. -/
def Expr.moved : Expr → Expr
  | .literal value => .literal value
  | .group inner => .group inner.moved
  | .unary operator operand => .unary (operator.later k) operand.moved
  | .binary left operator right => .binary left.moved (operator.later k) right.moved
  | .logical left operator right => .logical left.moved (operator.later k) right.moved
  | .variable id name => .variable (id + d) (name.later k)
  | .assign id name value => .assign (id + d) (name.later k) value.moved
  | .call callee paren arguments =>
    .call callee.moved (paren.later k) (Expr.movedAll arguments)

def Expr.movedAll : List Expr → List Expr
  | [] => []
  | e :: rest => e.moved :: Expr.movedAll rest

end

def Expr.movedOptional (o : Option Expr) : Option Expr := o.map (Expr.moved k d)

mutual

/-- The statement so many lines and numbers on. -/
def Stmt.moved : Stmt → Stmt
  | .expression value => .expression (value.moved k d)
  | .print value => .print (value.moved k d)
  | .var name initializer => .var (name.later k) (Expr.movedOptional k d initializer)
  | .block body => .block (Stmt.movedAll body)
  | .ifThen condition thenBranch elseBranch =>
    .ifThen (condition.moved k d) thenBranch.moved (Stmt.movedOptional elseBranch)
  | .whileLoop condition body => .whileLoop (condition.moved k d) body.moved
  | .forLoop initializer condition increment body =>
    .forLoop (Stmt.movedOptional initializer) (Expr.movedOptional k d condition)
      (Expr.movedOptional k d increment) body.moved
  | .function name params body =>
    .function (name.later k) (params.map (Token.later k)) (Stmt.movedAll body)
  | .ret keyword value => .ret (keyword.later k) (Expr.movedOptional k d value)

def Stmt.movedAll : List Stmt → List Stmt
  | [] => []
  | s :: rest => s.moved :: Stmt.movedAll rest

def Stmt.movedOptional : Option Stmt → Option Stmt
  | none => none
  | some s => some s.moved

end

end Definitions

section Zero

theorem Token.map_later_zero (ts : List Token) : ts.map (Token.later 0) = ts :=
  List.map_id ts

mutual

theorem Expr.moved_zero (e : Expr) : e.moved 0 0 = e := by
  match e with
  | .literal _ => rfl
  | .group inner => rw [moved, moved_zero inner]
  | .unary _ operand => rw [moved, moved_zero operand]; rfl
  | .binary left _ right | .logical left _ right =>
      rw [moved, moved_zero left, moved_zero right]
      rfl
  | .variable _ _ => rfl
  | .assign _ _ value =>
      rw [moved, moved_zero value]
      rfl
  | .call callee _ arguments =>
      rw [moved, moved_zero callee, movedAll_zero arguments]
      rfl

theorem Expr.movedAll_zero (es : List Expr) : Expr.movedAll 0 0 es = es := by
  match es with
  | [] => rfl
  | e :: rest => rw [movedAll, Expr.moved_zero e, movedAll_zero rest]

end

theorem Expr.movedOptional_zero (o : Option Expr) : Expr.movedOptional 0 0 o = o := by
  cases o with
  | none => rfl
  | some e => exact congrArg some (Expr.moved_zero e)

mutual

/-- Without a distance nothing moves. -/
theorem Stmt.moved_zero (s : Stmt) : s.moved 0 0 = s := by
  match s with
  | .expression value | .print value => rw [moved, Expr.moved_zero]
  | .var _ initializer =>
      rw [moved, Expr.movedOptional_zero]
      rfl
  | .block body => rw [moved, movedAll_zero body]
  | .ifThen condition thenBranch elseBranch =>
      rw [moved, Expr.moved_zero, moved_zero thenBranch, movedOptional_zero elseBranch]
  | .whileLoop condition body => rw [moved, Expr.moved_zero, moved_zero body]
  | .forLoop initializer condition increment body =>
      rw [moved, movedOptional_zero initializer, Expr.movedOptional_zero,
        Expr.movedOptional_zero, moved_zero body]
  | .function _ params body =>
      rw [moved, movedAll_zero body, Token.map_later_zero]
      rfl
  | .ret _ value =>
      rw [moved, Expr.movedOptional_zero]
      rfl

theorem Stmt.movedAll_zero (body : List Stmt) : Stmt.movedAll 0 0 body = body := by
  match body with
  | [] => rfl
  | s :: rest => rw [movedAll, Stmt.moved_zero s, movedAll_zero rest]

theorem Stmt.movedOptional_zero (o : Option Stmt) : Stmt.movedOptional 0 0 o = o := by
  match o with
  | none => rfl
  | some s => rw [movedOptional, Stmt.moved_zero s]

end

end Zero

section Desugar

variable (k d : Nat)

theorem Stmt.moved_withIncrement (body : Stmt) (increment : Option Expr) :
    (body.withIncrement increment).moved k d =
      (body.moved k d).withIncrement (Expr.movedOptional k d increment) := by
  cases increment <;> rfl

theorem Stmt.moved_withInitializer (loop : Stmt) (initializer : Option Stmt) :
    (loop.withInitializer initializer).moved k d =
      (loop.moved k d).withInitializer (Stmt.movedOptional k d initializer) := by
  cases initializer <;> rfl

theorem Stmt.moved_loopCondition (condition : Option Expr) :
    (loopCondition condition).moved k d = loopCondition (Expr.movedOptional k d condition) := by
  cases condition <;> rfl

mutual

/-- It is all one whether loops are written out before or after. -/
theorem Stmt.desugar_moved (s : Stmt) : (s.moved k d).desugar = s.desugar.moved k d := by
  match s with
  | .expression _ | .print _ | .var _ _ | .ret _ _ => rfl
  | .block body => rw [moved, desugar, desugar, moved, desugarAll_moved body]
  | .ifThen _ thenBranch elseBranch =>
      rw [moved, desugar, desugar, moved, desugar_moved thenBranch,
        desugarOptional_moved elseBranch]
  | .whileLoop _ body => rw [moved, desugar, desugar, moved, desugar_moved body]
  | .forLoop initializer condition increment body =>
      rw [moved, desugar, desugar, moved_withInitializer, moved, moved_withIncrement,
        moved_loopCondition, desugar_moved body, desugarOptional_moved initializer]
  | .function _ _ body => rw [moved, desugar, desugar, moved, desugarAll_moved body]

theorem Stmt.desugarAll_moved (body : List Stmt) :
    desugarAll (movedAll k d body) = movedAll k d (desugarAll body) := by
  match body with
  | [] => rfl
  | s :: rest =>
      rw [movedAll, desugarAll, desugarAll, movedAll, desugar_moved s, desugarAll_moved rest]

theorem Stmt.desugarOptional_moved (o : Option Stmt) :
    desugarOptional (movedOptional k d o) = movedOptional k d (desugarOptional o) := by
  match o with
  | none => rfl
  | some s => rw [movedOptional, desugarOptional, desugarOptional, movedOptional, desugar_moved s]

end

theorem Stmt.desugarAll_append (body rest : List Stmt) :
    desugarAll (body ++ rest) = desugarAll body ++ desugarAll rest := by
  induction body with
  | nil => rfl
  | cons s body ih => exact congrArg (_ :: ·) ih

end Desugar

/-! ## Where the nodes and tokens of a tree are from -/

section From

variable (nodes : NodeId → Prop) (tokens : Token → Prop)

mutual

/-- All nodes of the expression are of one sort, and all tokens of another. -/
def Expr.From : Expr → Prop
  | .literal _ => True
  | .group inner => inner.From
  | .unary operator operand => tokens operator ∧ operand.From
  | .binary left operator right | .logical left operator right =>
    left.From ∧ tokens operator ∧ right.From
  | .variable id name => nodes id ∧ tokens name
  | .assign id name value => nodes id ∧ tokens name ∧ value.From
  | .call callee paren arguments => callee.From ∧ tokens paren ∧ Expr.FromAll arguments

def Expr.FromAll : List Expr → Prop
  | [] => True
  | e :: rest => e.From ∧ Expr.FromAll rest

end

def Expr.FromOptional : Option Expr → Prop
  | none => True
  | some e => e.From nodes tokens

mutual

/-- All nodes of the statement are of one sort, and all tokens of another. -/
def Stmt.From : Stmt → Prop
  | .expression value | .print value => value.From nodes tokens
  | .var name initializer => tokens name ∧ Expr.FromOptional nodes tokens initializer
  | .block body => Stmt.FromAll body
  | .ifThen condition thenBranch elseBranch =>
    condition.From nodes tokens ∧ thenBranch.From ∧ Stmt.FromOptional elseBranch
  | .whileLoop condition body => condition.From nodes tokens ∧ body.From
  | .forLoop initializer condition increment body =>
    Stmt.FromOptional initializer ∧ Expr.FromOptional nodes tokens condition ∧
      Expr.FromOptional nodes tokens increment ∧ body.From
  | .function name params body => tokens name ∧ (∀ t ∈ params, tokens t) ∧ Stmt.FromAll body
  | .ret keyword value => tokens keyword ∧ Expr.FromOptional nodes tokens value

def Stmt.FromAll : List Stmt → Prop
  | [] => True
  | s :: rest => s.From ∧ Stmt.FromAll rest

def Stmt.FromOptional : Option Stmt → Prop
  | none => True
  | some s => s.From

end

end From

section Mono

variable {nodes nodes' : NodeId → Prop} {tokens : Token → Prop}

mutual

theorem Expr.From.mono (h : ∀ id, nodes id → nodes' id) (e : Expr)
    (he : e.From nodes tokens) : e.From nodes' tokens := by
  match e with
  | .literal _ => trivial
  | .group inner => exact Expr.From.mono h inner he
  | .unary _ operand => exact ⟨he.1, Expr.From.mono h operand he.2⟩
  | .binary left _ right | .logical left _ right =>
      exact ⟨Expr.From.mono h left he.1, he.2.1, Expr.From.mono h right he.2.2⟩
  | .variable _ _ => exact ⟨h _ he.1, he.2⟩
  | .assign _ _ value => exact ⟨h _ he.1, he.2.1, Expr.From.mono h value he.2.2⟩
  | .call callee _ arguments =>
      exact ⟨Expr.From.mono h callee he.1, he.2.1, Expr.FromAll.mono h arguments he.2.2⟩

theorem Expr.FromAll.mono (h : ∀ id, nodes id → nodes' id) (es : List Expr)
    (hes : Expr.FromAll nodes tokens es) : Expr.FromAll nodes' tokens es := by
  match es with
  | [] => trivial
  | e :: rest => exact ⟨Expr.From.mono h e hes.1, Expr.FromAll.mono h rest hes.2⟩

end

theorem Expr.FromOptional.mono (h : ∀ id, nodes id → nodes' id) (o : Option Expr)
    (ho : Expr.FromOptional nodes tokens o) : Expr.FromOptional nodes' tokens o := by
  cases o with
  | none => trivial
  | some e => exact Expr.From.mono h e ho

mutual

theorem Stmt.From.mono (h : ∀ id, nodes id → nodes' id) (s : Stmt)
    (hs : s.From nodes tokens) : s.From nodes' tokens := by
  match s with
  | .expression value | .print value => exact Expr.From.mono h value hs
  | .var _ initializer => exact ⟨hs.1, Expr.FromOptional.mono h initializer hs.2⟩
  | .block body => exact Stmt.FromAll.mono h body hs
  | .ifThen condition thenBranch elseBranch =>
      exact ⟨Expr.From.mono h condition hs.1, Stmt.From.mono h thenBranch hs.2.1,
        Stmt.FromOptional.mono h elseBranch hs.2.2⟩
  | .whileLoop condition body => exact ⟨Expr.From.mono h condition hs.1, Stmt.From.mono h body hs.2⟩
  | .forLoop initializer condition increment body =>
      exact ⟨Stmt.FromOptional.mono h initializer hs.1, Expr.FromOptional.mono h condition hs.2.1,
        Expr.FromOptional.mono h increment hs.2.2.1, Stmt.From.mono h body hs.2.2.2⟩
  | .function _ _ body => exact ⟨hs.1, hs.2.1, Stmt.FromAll.mono h body hs.2.2⟩
  | .ret _ value => exact ⟨hs.1, Expr.FromOptional.mono h value hs.2⟩

theorem Stmt.FromAll.mono (h : ∀ id, nodes id → nodes' id) (body : List Stmt)
    (hb : Stmt.FromAll nodes tokens body) : Stmt.FromAll nodes' tokens body := by
  match body with
  | [] => trivial
  | s :: rest => exact ⟨Stmt.From.mono h s hb.1, Stmt.FromAll.mono h rest hb.2⟩

theorem Stmt.FromOptional.mono (h : ∀ id, nodes id → nodes' id) (o : Option Stmt)
    (ho : Stmt.FromOptional nodes tokens o) : Stmt.FromOptional nodes' tokens o := by
  match o with
  | none => trivial
  | some s => exact Stmt.From.mono h s ho

end

end Mono

section Desugar

variable {nodes : NodeId → Prop} {tokens : Token → Prop}

theorem Stmt.from_withIncrement {body : Stmt} {increment : Option Expr}
    (h : body.From nodes tokens) (hi : Expr.FromOptional nodes tokens increment) :
    (body.withIncrement increment).From nodes tokens := by
  cases increment with
  | none => exact h
  | some e => exact ⟨h, hi, trivial⟩

theorem Stmt.from_withInitializer {loop : Stmt} {initializer : Option Stmt}
    (h : loop.From nodes tokens) (hi : Stmt.FromOptional nodes tokens initializer) :
    (loop.withInitializer initializer).From nodes tokens := by
  cases initializer with
  | none => exact h
  | some s => exact ⟨hi, h, trivial⟩

theorem Stmt.from_loopCondition {condition : Option Expr}
    (h : Expr.FromOptional nodes tokens condition) :
    (loopCondition condition).From nodes tokens := by
  cases condition with
  | none => trivial
  | some e => exact h

mutual

/-- Writing loops out adds neither nodes nor tokens. -/
theorem Stmt.From.desugar (s : Stmt) (h : s.From nodes tokens) :
    s.desugar.From nodes tokens := by
  match s with
  | .expression _ | .print _ | .var _ _ | .ret _ _ => exact h
  | .block body => exact Stmt.FromAll.desugar body h
  | .ifThen _ thenBranch elseBranch =>
      exact ⟨h.1, Stmt.From.desugar thenBranch h.2.1, Stmt.FromOptional.desugar elseBranch h.2.2⟩
  | .whileLoop _ body => exact ⟨h.1, Stmt.From.desugar body h.2⟩
  | .forLoop initializer condition increment body =>
      refine Stmt.from_withInitializer ⟨Stmt.from_loopCondition h.2.1, ?_⟩
        (Stmt.FromOptional.desugar initializer h.1)
      exact Stmt.from_withIncrement (Stmt.From.desugar body h.2.2.2) h.2.2.1
  | .function _ _ body => exact ⟨h.1, h.2.1, Stmt.FromAll.desugar body h.2.2⟩

theorem Stmt.FromAll.desugar (body : List Stmt) (h : Stmt.FromAll nodes tokens body) :
    Stmt.FromAll nodes tokens (desugarAll body) := by
  match body with
  | [] => trivial
  | s :: rest => exact ⟨Stmt.From.desugar s h.1, Stmt.FromAll.desugar rest h.2⟩

theorem Stmt.FromOptional.desugar (o : Option Stmt) (h : Stmt.FromOptional nodes tokens o) :
    Stmt.FromOptional nodes tokens (desugarOptional o) := by
  match o with
  | none => trivial
  | some s => exact Stmt.From.desugar s h

end

end Desugar

end Lox
