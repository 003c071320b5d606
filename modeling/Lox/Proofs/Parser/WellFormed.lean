import Lox.Proofs.Parser.Contract
import Lox.Proofs.Parser.Shape

/-!
# Trees that the grammar has

Which trees can be read is told here without tokens: every operand is an expression of
the level that the grammar has in its place, whatever is looser stands in parentheses,
and every token that a tree keeps is of the kind that it was read as. What is read
without a fault is such a tree once its loops are written out.

Expressions are ordered by what they can be part of without parentheses. The tightest
are constants, names and parentheses themselves, the loosest are assignments.
-/

namespace Lox

open Parse

/-- How loose an expression may be where it stands. -/
inductive Rank
  | primary
  | call
  | unary
  | level (l : Level)
  | expression

def Rank.depth : Rank → Nat
  | primary => 0
  | call => 1
  | unary => 2
  | level l => l.depth + 3
  | expression => 9

instance : LE Rank := ⟨fun r s => r.depth ≤ s.depth⟩

/-- The rank of what stands on the right of an operator of the level. -/
def Parse.Level.operandRank (l : Level) : Rank :=
  match l.tighter? with
  | some m => .level m
  | none => .unary

theorem Parse.Level.depth_operandRank (l : Level) : l.operandRank.depth + 1 = l.depth + 3 := by
  cases l <;> rfl

theorem Parse.Level.operandRank_le (l : Level) : l.operandRank ≤ .level l :=
  Nat.le_of_succ_le (Nat.le_of_eq l.depth_operandRank)

theorem Parse.Level.depth_le (l : Level) : l.depth ≤ 5 := by
  cases l <;> decide

/-! ## Expressions -/

mutual

/-- An expression, no looser than the rank allows, whose operands are of their levels. -/
def Expr.Within : Expr → Rank → Prop
  | .literal _, _ => True
  | .group inner, _ => inner.Within .expression
  | .unary operator operand, r =>
    .unary ≤ r ∧ isUnary operator.kind = true ∧ operand.Within .unary
  | .binary left operator right, r =>
    ∃ l : Level, l.node = .binary ∧ l.has operator.kind = true ∧ .level l ≤ r ∧
      left.Within (.level l) ∧ right.Within l.operandRank
  | .logical left operator right, r =>
    ∃ l : Level, l.node = .logical ∧ l.has operator.kind = true ∧ .level l ≤ r ∧
      left.Within (.level l) ∧ right.Within l.operandRank
  | .variable _ name, _ => name.kind = .identifier
  | .assign _ name value, r =>
    .expression ≤ r ∧ name.kind = .identifier ∧ value.Within .expression
  | .call callee paren arguments, r =>
    .call ≤ r ∧ callee.Within .call ∧ paren.kind = .rightParen ∧
      arguments.length ≤ maxArity ∧ Expr.WithinAll arguments

def Expr.WithinAll : List Expr → Prop
  | [] => True
  | e :: rest => e.Within .expression ∧ Expr.WithinAll rest

end

/-- An expression as it may stand in parentheses or in a statement. -/
def Expr.WellFormed (e : Expr) : Prop := e.Within .expression

/-- An expression that may be absent. -/
def Expr.WellFormedOptional (o : Option Expr) : Prop := ∀ e, o = some e → e.WellFormed

theorem Expr.Within.mono {r s : Rank} (hrs : r ≤ s) {e : Expr} (h : e.Within r) : e.Within s := by
  cases e with
  | literal => trivial
  | group | «variable» => exact h
  | unary | assign | call => exact ⟨Nat.le_trans h.1 hrs, h.2⟩
  | binary | logical =>
      obtain ⟨l, hnode, hhas, hle, hoperands⟩ := h
      exact ⟨l, hnode, hhas, Nat.le_trans hle hrs, hoperands⟩

theorem Expr.Within.wellFormed {r : Rank} {e : Expr} (h : e.Within r) : e.WellFormed := by
  refine h.mono (show r.depth ≤ 9 from ?_)
  cases r with
  | level l => exact Nat.le_trans (Nat.add_le_add_right l.depth_le 3) (by decide)
  | _ => decide

theorem Expr.within_node {l : Level} {left right : Expr} {operator : Token}
    (ho : l.has operator.kind = true) (hl : left.Within (.level l))
    (hr : right.Within l.operandRank) : (l.node left operator right).Within (.level l) := by
  cases l with
  | disjunction | conjunction => exact ⟨_, rfl, ho, Nat.le_refl _, hl, hr⟩
  | equality | comparison | sum | product => exact ⟨_, rfl, ho, Nat.le_refl _, hl, hr⟩

theorem Parse.Level.within_build {l : Level} {left : Expr} (hl : left.Within (.level l))
    {rest : List (Token × Expr)}
    (hr : ∀ r ∈ rest, l.has r.1.kind = true ∧ r.2.Within l.operandRank) :
    (l.build left rest).Within (.level l) := by
  induction rest generalizing left with
  | nil => exact hl
  | cons r rest ih =>
      obtain ⟨⟨ho, hright⟩, hrest⟩ := List.forall_mem_cons.mp hr
      exact ih (Expr.within_node ho hl hright) hrest

theorem Parse.within_buildCalls {callee : Expr} (hc : callee.Within .call)
    {calls : List (List Expr × Token)}
    (h : ∀ c ∈ calls, c.2.kind = .rightParen ∧ c.1.length ≤ maxArity ∧ Expr.WithinAll c.1) :
    (buildCalls callee calls).Within .call := by
  induction calls generalizing callee with
  | nil => exact hc
  | cons c calls ih =>
      obtain ⟨hfirst, hcalls⟩ := List.forall_mem_cons.mp h
      have hcall : (Expr.call callee c.2 c.1).Within .call := ⟨Nat.le_refl _, hc, hfirst⟩
      exact ih hcall hcalls

/-! ## Statements -/

mutual

/-- A statement as it is run, made of such expressions. What is decided about is no
declaration, and an `else` belongs to the nearest conditional that could take it. -/
def Stmt.WellFormed : Stmt → Prop
  | .expression value | .print value => value.WellFormed
  | .var name initializer => name.kind = .identifier ∧ Expr.WellFormedOptional initializer
  | .block body => Stmt.WellFormedAll body
  | .ifThen condition thenBranch elseBranch =>
    condition.WellFormed ∧ (thenBranch.plain = true ∧ thenBranch.WellFormed) ∧
      (elseBranch.isSome = true → thenBranch.dangling = false) ∧ Stmt.WellFormedBranch elseBranch
  | .whileLoop condition body =>
    condition.WellFormed ∧ body.plain = true ∧ body.WellFormed
  | .forLoop .. => False
  | .function name params body =>
    name.kind = .identifier ∧ (∀ t ∈ params, t.kind = .identifier) ∧
      params.length ≤ maxArity ∧ Stmt.WellFormedAll body
  | .ret keyword value => keyword.kind = .kwReturn ∧ Expr.WellFormedOptional value

def Stmt.WellFormedAll : List Stmt → Prop
  | [] => True
  | s :: rest => s.WellFormed ∧ Stmt.WellFormedAll rest

def Stmt.WellFormedBranch : Option Stmt → Prop
  | none => True
  | some s => s.plain = true ∧ s.WellFormed

end

namespace Stmt

mutual

/-- There are no loops in it to be written out. -/
theorem WellFormed.desugar {s : Stmt} (h : s.WellFormed) : s.desugar = s := by
  match s with
  | .expression _ | .print _ | .var _ _ | .ret _ _ => rfl
  | .block body => exact congrArg block (WellFormedAll.desugarAll (h : WellFormedAll body))
  | .ifThen condition thenBranch elseBranch =>
      rw [Stmt.desugar, WellFormed.desugar h.2.1.2, WellFormedBranch.desugarOptional h.2.2.2]
  | .whileLoop condition body => exact congrArg (whileLoop condition) (WellFormed.desugar h.2.2)
  | .forLoop .. => exact absurd h id
  | .function name params body =>
      exact congrArg (function name params) (WellFormedAll.desugarAll h.2.2.2)

theorem WellFormedAll.desugarAll {body : List Stmt} (h : WellFormedAll body) :
    Stmt.desugarAll body = body := by
  match body with
  | [] => rfl
  | s :: rest => rw [Stmt.desugarAll, WellFormed.desugar h.1, WellFormedAll.desugarAll h.2]

theorem WellFormedBranch.desugarOptional {o : Option Stmt} (h : WellFormedBranch o) :
    Stmt.desugarOptional o = o := by
  match o with
  | none => rfl
  | some s => exact congrArg some (WellFormed.desugar h.2)

end

theorem wellFormed_withIncrement {body : Stmt} (h : body.WellFormed) {increment : Option Expr}
    (hi : Expr.WellFormedOptional increment) : (body.withIncrement increment).WellFormed := by
  cases increment with
  | none => exact h
  | some e => exact ⟨h, hi e rfl, trivial⟩

theorem wellFormed_withInitializer {loop : Stmt} (h : loop.WellFormed) {initializer : Option Stmt}
    (hi : ∀ s, initializer = some s → s.WellFormed) :
    (loop.withInitializer initializer).WellFormed := by
  cases initializer with
  | none => exact h
  | some s => exact ⟨hi s rfl, h, trivial⟩

theorem wellFormed_loopCondition {condition : Option Expr}
    (h : Expr.WellFormedOptional condition) : (loopCondition condition).WellFormed := by
  cases condition with
  | none => trivial
  | some e => exact h e rfl

/-- A loop that is written out ends with its body, or else in a closing brace. -/
theorem dangling_desugar {s : Stmt} (h : s.desugar.dangling = true) : s.dangling = true := by
  match s with
  | .expression _ | .print _ | .var _ _ | .ret _ _ | .block _ | .function .. => exact h
  | .ifThen _ _ none => rfl
  | .ifThen _ _ (some elseBranch) => exact dangling_desugar (s := elseBranch) h
  | .whileLoop _ body => exact dangling_desugar (s := body) h
  | .forLoop none _ none body => exact dangling_desugar (s := body) h
  | .forLoop none _ (some _) _ | .forLoop (some _) _ _ _ => cases h

end Stmt

/-! ## What is read -/

namespace Parse

/-- What is said of the trees of a phrase once their loops are written out. -/
def Phrase.WellFormed : (p : Phrase) → p.Tree → Prop
  | .expression, e => e.WellFormed
  | .level l, e => e.Within (.level l)
  | .levelRest l, rest => ∀ r ∈ rest, l.has r.1.kind = true ∧ r.2.Within l.operandRank
  | .operand l, e => e.Within l.operandRank
  | .unary, e => e.Within .unary
  | .callRest, calls =>
    ∀ c ∈ calls, c.2.kind = .rightParen ∧ c.1.length ≤ maxArity ∧ Expr.WithinAll c.1
  | .arguments, args => args.length ≤ maxArity ∧ Expr.WithinAll args
  | .argumentsFrom count, args => count + args.length ≤ maxArity ∧ Expr.WithinAll args
  | .primary, e => e.Within .primary
  | .paramsFrom count, params =>
    (∀ t ∈ params, t.kind = .identifier) ∧ count + params.length ≤ maxArity
  | .expressionUnless _, o => Expr.WellFormedOptional o
  | .returnStatement keyword, s => keyword.kind = .kwReturn → s.desugar.WellFormed
  | .varDeclaration, s | .expressionStatement, s | .printStatement, s | .declared, s
  | .function, s | .statement, s | .forStatement, s | .ifStatement, s | .whileStatement, s =>
    s.desugar.WellFormed
  | .forInitializer, o | .declaration, o => ∀ s, Stmt.desugarOptional o = some s → s.WellFormed
  | .block, body | .declarations _, body => Stmt.WellFormedAll (Stmt.desugarAll body)

theorem Reads.wellFormed {p : Phrase} {w : List Token} {i j : Nat} {a : p.Tree}
    (h : Reads p w i a j) : p.WellFormed a := by
  induction h with
  | value _ ih => exact Expr.Within.wellFormed ih
  | assign ht _ _ ih => exact ⟨Nat.le_refl _, ht, ih⟩
  | @level l _ _ _ _ _ _ _ _ _ ih ih' =>
      exact l.within_build (Expr.Within.mono l.operandRank_le ih) ih'
  | levelEnd | callEnd => exact List.forall_mem_nil _
  | levelMore ho _ _ ih ih' => exact List.forall_mem_cons.mpr ⟨⟨ho, ih⟩, ih'⟩
  | @tighter l m w e i j hl h ih =>
      show e.Within l.operandRank
      rw [Level.operandRank, hl]
      exact ih
  | @tightest l w e i j hl h ih =>
      show e.Within l.operandRank
      rw [Level.operandRank, hl]
      exact ih
  | operator ht _ ih => exact ⟨Nat.le_refl _, ht, ih⟩
  | call _ _ ih ih' =>
      have hcall := within_buildCalls (Expr.Within.mono (r := .primary) (Nat.zero_le _) ih) ih'
      exact hcall.mono (by decide : 1 ≤ 2)
  | callMore _ _ hp _ ih ih' => exact List.forall_mem_cons.mpr ⟨⟨hp, ih⟩, ih'⟩
  | noArguments => exact ⟨Nat.zero_le _, trivial⟩
  | someArguments _ ih => exact ⟨Nat.le_trans (Nat.le_add_left _ 0) ih.1, ih.2⟩
  | lastArgument hn _ ih => exact ⟨hn, ih, trivial⟩
  | moreArguments _ _ _ _ ih ih' =>
      refine ⟨?_, ih, ih'.2⟩
      rw [List.length_cons, Nat.add_comm (List.length _), ← Nat.add_assoc]
      exact ih'.1
  | constant => trivial
  | name ht => exact ht
  | group _ _ _ ih => exact ih
  | lastParam hn ht => exact ⟨List.forall_mem_singleton.mpr ht, hn⟩
  | moreParams _ ht _ _ ih =>
      refine ⟨List.forall_mem_cons.mpr ⟨ht, ih.1⟩, ?_⟩
      rw [List.length_cons, Nat.add_comm (List.length _), ← Nat.add_assoc]
      exact ih.2
  | noExpression | noInitializer _ => exact fun _ h => nomatch h
  | someExpression _ ih =>
      rintro _ ⟨⟩
      exact ih
  | varBare ht _ => exact ⟨ht, fun _ h => nomatch h⟩
  | varValue ht _ _ _ ih =>
      refine ⟨ht, ?_⟩
      rintro _ ⟨⟩
      exact ih
  | expressionStatement _ _ ih | printStatement _ _ ih => exact ih
  | returnStatement _ _ ih => exact fun ht => ⟨ht, ih⟩
  | varInitializer _ _ ih | valueInitializer _ ih | declaration _ ih =>
      rintro _ ⟨⟩
      exact ih
  | functionDeclared _ _ ih | varDeclared _ _ ih | statementDeclared _ ih | statementPlain _ ih
  | statementFor _ _ ih | statementIf _ _ ih | statementPrint _ _ ih | statementWhile _ _ ih
  | statementBlock _ _ ih | block _ _ ih => exact ih
  | statementReturn ht _ ih => exact ih ht
  | functionBare hn _ _ _ _ ih => exact ⟨hn, List.forall_mem_nil _, Nat.zero_le _, ih⟩
  | functionParams hn _ _ _ _ _ ih ih' =>
      exact ⟨hn, ih.1, Nat.le_trans (Nat.le_add_left _ 0) ih.2, ih'⟩
  | forStatement _ _ _ _ _ _ hb ih₁ ih₂ ih₃ ih₄ =>
      refine Stmt.wellFormed_withInitializer ?_ ih₁
      exact ⟨Stmt.wellFormed_loopCondition ih₂, Stmt.plain_withIncrement hb.proper.1 _,
        Stmt.wellFormed_withIncrement ih₄ ih₃⟩
  | ifBare _ _ _ ht ih ih' => exact ⟨ih, ⟨ht.proper.1, ih'⟩, nofun, trivial⟩
  | ifElse _ _ _ ht hn _ he ih₁ ih₂ ih₃ =>
      refine ⟨ih₁, ⟨ht.proper.1, ih₂⟩, fun _ => ?_, he.proper.1, ih₃⟩
      exact Bool.eq_false_iff.mpr fun hd => Bool.eq_false_iff.mp hn (Stmt.dangling_desugar hd)
  | whileStatement _ _ _ hb ih ih' => exact ⟨ih, hb.proper.1, ih'⟩
  | declarationsEnd => trivial
  | declarationsMore _ _ ih ih' => exact ⟨ih _ rfl, ih'⟩

end Parse

end Lox
