import Lox.Proofs.Parser.Complete

/-!
# How many numbers a program takes

When nothing is wrong, a node that reads a variable takes one number and a node that writes
one takes two: what stands before the `=` has been read as a name and been given a number
before it is known that it is a target. `tally` counts the nodes, at so much for one that
reads and so much for one that writes. Writing loops out moves the nodes and keeps them all.
-/

namespace Lox

mutual

/-- What the nodes that name variables come to. -/
def Expr.tally (read write : Nat) : Expr → Nat
  | .literal _ => 0
  | .group inner => inner.tally read write
  | .unary _ operand => operand.tally read write
  | .binary left _ right | .logical left _ right => left.tally read write + right.tally read write
  | .variable _ _ => read
  | .assign _ _ value => write + value.tally read write
  | .call callee _ arguments => callee.tally read write + Expr.tallyAll read write arguments

def Expr.tallyAll (read write : Nat) : List Expr → Nat
  | [] => 0
  | e :: rest => e.tally read write + Expr.tallyAll read write rest

end

theorem Expr.tallyAll_append (read write : Nat) (es es' : List Expr) :
    Expr.tallyAll read write (es ++ es') =
      Expr.tallyAll read write es + Expr.tallyAll read write es' := by
  induction es with
  | nil => exact (Nat.zero_add _).symm
  | cons e es ih => rw [List.cons_append, tallyAll, tallyAll, ih, Nat.add_assoc]

/-- What the nodes of an expression that may be absent come to. -/
def Expr.tallyOptional (read write : Nat) : Option Expr → Nat
  | none => 0
  | some e => e.tally read write

mutual

def Stmt.tally (read write : Nat) : Stmt → Nat
  | .expression value | .print value => value.tally read write
  | .var _ initializer => Expr.tallyOptional read write initializer
  | .block body => Stmt.tallyAll read write body
  | .ifThen condition thenBranch elseBranch =>
    condition.tally read write + thenBranch.tally read write +
      Stmt.tallyOptional read write elseBranch
  | .whileLoop condition body => condition.tally read write + body.tally read write
  | .forLoop initializer condition increment body =>
    Stmt.tallyOptional read write initializer + Expr.tallyOptional read write condition +
      Expr.tallyOptional read write increment + body.tally read write
  | .function _ _ body => Stmt.tallyAll read write body
  | .ret _ value => Expr.tallyOptional read write value

def Stmt.tallyAll (read write : Nat) : List Stmt → Nat
  | [] => 0
  | s :: rest => s.tally read write + Stmt.tallyAll read write rest

def Stmt.tallyOptional (read write : Nat) : Option Stmt → Nat
  | none => 0
  | some s => s.tally read write

end

namespace Stmt

/-- The number of nodes of a program that read a variable. -/
def readsIn (body : List Stmt) : Nat := tallyAll 1 0 body

/-- The number of nodes of a program that write a variable. -/
def writesIn (body : List Stmt) : Nat := tallyAll 0 1 body

/-! ## Loops written out -/

section Desugar

variable (read write : Nat)

theorem tally_loopCondition (condition : Option Expr) :
    (loopCondition condition).tally read write = Expr.tallyOptional read write condition := by
  cases condition <;> rfl

theorem tally_withIncrement (body : Stmt) (increment : Option Expr) :
    (body.withIncrement increment).tally read write =
      body.tally read write + Expr.tallyOptional read write increment := by
  cases increment <;> rfl

theorem tally_withInitializer (loop : Stmt) (initializer : Option Stmt) :
    (loop.withInitializer initializer).tally read write =
      tallyOptional read write initializer + loop.tally read write := by
  cases initializer with
  | none => exact (Nat.zero_add _).symm
  | some s => rfl

mutual

theorem tally_desugar (s : Stmt) : s.desugar.tally read write = s.tally read write := by
  match s with
  | .expression _ | .print _ | .var _ _ | .ret _ _ => rfl
  | .block body => exact tallyAll_desugarAll body
  | .ifThen condition thenBranch elseBranch =>
      rw [desugar, tally, tally, tally_desugar thenBranch, tallyOptional_desugarOptional elseBranch]
  | .whileLoop condition body => rw [desugar, tally, tally, tally_desugar body]
  | .forLoop initializer condition increment body =>
      rw [desugar, tally_withInitializer, tally, tally_loopCondition, tally_withIncrement, tally,
        tally_desugar body, tallyOptional_desugarOptional initializer]
      omega
  | .function _ _ body => exact tallyAll_desugarAll body

theorem tallyAll_desugarAll (body : List Stmt) :
    tallyAll read write (desugarAll body) = tallyAll read write body := by
  match body with
  | [] => rfl
  | s :: rest => rw [desugarAll, tallyAll, tallyAll, tally_desugar s, tallyAll_desugarAll rest]

theorem tallyOptional_desugarOptional (o : Option Stmt) :
    tallyOptional read write (desugarOptional o) = tallyOptional read write o := by
  match o with
  | none => rfl
  | some s => exact tally_desugar s

end

end Desugar

end Stmt

/-! ## Numbers given out -/

namespace Parse

section Built

variable (read write : Nat)

theorem Level.tally_build (l : Level) (left : Expr) (rest : List (Token × Expr)) :
    (l.build left rest).tally read write =
      left.tally read write + Expr.tallyAll read write (rest.map Prod.snd) := by
  induction rest generalizing left with
  | nil => rfl
  | cons r rest ih =>
      have hnode : (l.node left r.1 r.2).tally read write =
          left.tally read write + r.2.tally read write := by
        cases l <;> rfl
      show (l.build (l.node left r.1 r.2) rest).tally read write = _
      rw [ih, hnode, List.map_cons, Expr.tallyAll, Nat.add_assoc]

theorem tally_buildCalls (callee : Expr) (calls : List (List Expr × Token)) :
    (buildCalls callee calls).tally read write =
      callee.tally read write + Expr.tallyAll read write (calls.flatMap Prod.fst) := by
  induction calls generalizing callee with
  | nil => rfl
  | cons c calls ih =>
      show (buildCalls (.call callee c.2 c.1) calls).tally read write = _
      rw [ih, Expr.tally, List.flatMap_cons, Expr.tallyAll_append, Nat.add_assoc]

/-- What the nodes in a tree of a phrase come to. -/
def Phrase.tally : (p : Phrase) → p.Tree → Nat
  | .expression, e | .level _, e | .operand _, e | .unary, e | .primary, e =>
    Expr.tally read write e
  | .levelRest _, rest => Expr.tallyAll read write (rest.map Prod.snd)
  | .callRest, calls => Expr.tallyAll read write (calls.flatMap Prod.fst)
  | .arguments, es | .argumentsFrom _, es => Expr.tallyAll read write es
  | .paramsFrom _, _ => 0
  | .expressionUnless _, o => Expr.tallyOptional read write o
  | .forInitializer, o | .declaration, o => Stmt.tallyOptional read write o
  | .block, body | .declarations _, body => Stmt.tallyAll read write body
  | .varDeclaration, s | .expressionStatement, s | .printStatement, s | .returnStatement _, s
  | .declared, s | .function, s | .statement, s | .forStatement, s | .ifStatement, s
  | .whileStatement, s => Stmt.tally read write s

end Built

/-- From the one number to the other there are as many as so many nodes take. -/
def Spent (i reads writes j : Nat) : Prop := j = i + reads + 2 * writes

theorem Spent.none (i : Nat) : Spent i 0 0 i := rfl

theorem Spent.add {i j k reads writes reads' writes' : Nat} (h : Spent i reads writes j)
    (h' : Spent j reads' writes' k) : Spent i (reads + reads') (writes + writes') k := by
  unfold Spent at *
  omega

/-- The target of an assignment has taken a number before the value, and the node takes one
behind it. -/
theorem Spent.assign {i j reads writes : Nat} (h : Spent (i + 1) reads writes j) :
    Spent i (0 + reads) (1 + writes) (j + 1) := by
  unfold Spent at *
  omega

theorem Reads.spent {p : Phrase} {w : List Token} {i j : Nat} {a : p.Tree}
    (h : Reads p w i a j) : Spent i (p.tally 1 0 a) (p.tally 0 1 a) j := by
  induction h with
  | moreParams _ _ _ _ ih | value _ ih | tighter _ _ ih | tightest _ _ ih | operator _ _ ih
  | group _ _ _ ih | someArguments _ ih | someExpression _ ih => exact ih
  | assign _ _ _ ih => exact ih.assign
  | level _ _ ih ih' =>
      show Spent _ ((Level.build _ _ _).tally 1 0) ((Level.build _ _ _).tally 0 1) _
      rw [Level.tally_build, Level.tally_build]
      exact ih.add ih'
  | call _ _ ih ih' =>
      show Spent _ ((buildCalls _ _).tally 1 0) ((buildCalls _ _).tally 0 1) _
      rw [tally_buildCalls, tally_buildCalls]
      exact ih.add ih'
  | levelMore _ _ _ ih ih' => exact ih.add ih'
  | callMore _ _ _ _ ih ih' =>
      simp only [Phrase.tally, List.flatMap_cons, Expr.tallyAll_append]
      exact ih.add ih'
  | lastArgument _ _ ih => exact ih
  | moreArguments _ _ _ _ ih ih' => exact ih.add ih'
  | name _ => rfl
  | varValue _ _ _ _ ih | expressionStatement _ _ ih | printStatement _ _ ih
  | returnStatement _ _ ih | varInitializer _ _ ih | valueInitializer _ ih | declaration _ ih
  | functionDeclared _ _ ih | varDeclared _ _ ih | statementDeclared _ ih
  | functionBare _ _ _ _ _ ih | statementPlain _ ih | statementFor _ _ ih | statementIf _ _ ih
  | statementPrint _ _ ih | statementReturn _ _ ih | statementWhile _ _ ih
  | statementBlock _ _ ih | block _ _ ih => exact ih
  | functionParams _ _ _ _ _ _ ih ih' =>
      have h := ih.add ih'
      rwa [Phrase.tally, Phrase.tally, Nat.zero_add, Nat.zero_add] at h
  | forStatement _ _ _ _ _ _ _ ih₁ ih₂ ih₃ ih₄ => exact ((ih₁.add ih₂).add ih₃).add ih₄
  | ifBare _ _ _ _ ih ih' => exact ih.add ih'
  | ifElse _ _ _ _ _ _ _ ih₁ ih₂ ih₃ => exact (ih₁.add ih₂).add ih₃
  | whileStatement _ _ _ _ ih ih' => exact ih.add ih'
  | declarationsMore _ _ ih ih' => exact ih.add ih'
  | _ => exact .none _

end Parse

/-- What is read without a fault takes one number for a node that reads a variable and two for
a node that writes one. -/
theorem Parsed.spent_ofTokens {tokens : List Token} {i : NodeId}
    (h : (ofTokens tokens i).faults = []) :
    (ofTokens tokens i).nextId = i + Stmt.readsIn (ofTokens tokens i).statements +
      2 * Stmt.writesIn (ofTokens tokens i).statements := by
  have hreads : Parse.Reads (.declarations false) (readable tokens) i
      (ofTokens tokens i).statements (ofTokens tokens i).nextId := by
    rw [← ofTokens_iff_reads, ← h]
  exact hreads.spent

end Lox
