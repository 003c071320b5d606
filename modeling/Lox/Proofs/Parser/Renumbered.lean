import Lox.Proofs.Moved
import Lox.Proofs.Parser.Sound

/-!
# Reading from another first number

The parser gives numbers to nodes and never looks at them, and it never looks at the faults
it has found. Whatever the tokens are, and whether they can be read or not, from a first
number further up and behind other faults it finds the same faults at the same tokens,
gives out as many numbers, and reads the same tree with its nodes numbered from further up.
More fuel does not change that.

Nothing less than the whole tree will do for the faults alone, because what stands on
the left of an assignment is looked at after it has been read.
-/

namespace Lox.Parse

/-- The state with its next number so much further up, and other faults before its own. -/
def State.shifted (before : List Fault) (d : Nat) (s : State) : State :=
  { s with nextId := s.nextId + d, faults := before ++ s.faults }

variable {α β γ δ : Type}

/-- Whatever the first parser answers, from the shifted state the second one answers that too,
with its result as `f` says. -/
def Uniform (before : List Fault) (d : Nat) (f : α → β) (p : Parse α) (p' : Parse β) : Prop :=
  ∀ s result s', p.run s = some (result, s') →
    p'.run (s.shifted before d) = some (result.map f, s'.shifted before d)

/-! ## Rules -/

section Rules

variable {before : List Fault} {d : Nat} {f : α → β} {g : γ → δ}

/-- Parsers that always answer, each in its way. -/
theorem Uniform.of_run {p : Parse α} {p' : Parse β} {answer : State → Except Fault α × State}
    (hp : ∀ s, p.run s = some (answer s))
    (hp' : ∀ s, p'.run (s.shifted before d) =
      some ((answer s).1.map f, (answer s).2.shifted before d)) : Uniform before d f p p' := by
  intro s result s' h
  obtain ⟨rfl, rfl⟩ := Prod.mk.inj (Option.some.inj ((hp s).symm.trans h))
  exact hp' s

theorem Uniform.exhausted {p' : Parse β} : Uniform before d f exhausted p' :=
  fun _ _ _ h => nomatch h

theorem Uniform.pure (a : α) : Uniform before d f (pure a) (pure (f a)) :=
  .of_run (fun _ => rfl) fun _ => rfl

theorem Uniform.fail (cause : Cause) : Uniform before d f (fail cause) (fail cause) :=
  .of_run (fun _ => rfl) fun _ => rfl

theorem Uniform.bind {p : Parse α} {p' : Parse β} {k : α → Parse γ} {k' : β → Parse δ}
    (h : Uniform before d f p p') (hk : ∀ a, Uniform before d g (k a) (k' (f a))) :
    Uniform before d g (p >>= k) (p' >>= k') := by
  intro s result s' hrun
  rw [run_bind] at hrun
  rw [run_bind]
  rcases hp : p.run s with _ | ⟨fault | a, s₁⟩ <;> rw [hp] at hrun
  · cases hrun
  · cases hrun
    rw [h s _ _ hp]
    rfl
  · rw [h s _ _ hp]
    exact hk a s₁ _ _ hrun

/-- What is read before and does not show in the result. -/
theorem Uniform.same {p p' : Parse α} {k : α → Parse γ} {k' : α → Parse δ}
    (h : Uniform before d id p p') (hk : ∀ a, Uniform before d g (k a) (k' a)) :
    Uniform before d g (p >>= k) (p' >>= k') := h.bind hk

theorem Uniform.map {p : Parse α} {p' : Parse β} (h : Uniform before d f p p') {m : α → γ}
    {m' : β → δ} (hm : ∀ a, m' (f a) = g (m a)) : Uniform before d g (m <$> p) (m' <$> p') := by
  rw [← bind_pure_comp, ← bind_pure_comp]
  exact h.bind fun a => by rw [hm]; exact .pure _

theorem Uniform.record (fault : Fault) : Uniform before d id (record fault) (record fault) := by
  refine .of_run (fun s => run_record fault s) fun s => ?_
  rw [run_record, State.shifted, State.shifted, List.append_assoc]
  rfl

theorem Uniform.recordHere (cause : Cause) :
    Uniform before d id (recordHere cause) (recordHere cause) := by
  refine .of_run (fun s => run_recordHere cause s) fun s => ?_
  rw [run_recordHere, State.shifted, State.shifted, List.append_assoc]
  rfl

/-- A fault may be noted on the way. -/
theorem Uniform.noting {c : Prop} [Decidable c] {cause : Cause} {p : Parse α} {p' : Parse β}
    (h : Uniform before d f p p') :
    Uniform before d f (if c then Parse.recordHere cause >>= fun _ => p else p)
      (if c then Parse.recordHere cause >>= fun _ => p' else p') := by
  split
  · exact (Uniform.recordHere cause).same fun _ => h
  · exact h

theorem Uniform.skipBroken : Uniform before d id skipBroken skipBroken :=
  .of_run (fun _ => rfl) fun _ => rfl

theorem Uniform.freshId : Uniform before d (· + d) freshId freshId := by
  refine .of_run (fun s => run_freshId s) fun s => ?_
  rw [run_freshId, State.shifted, State.shifted, Nat.add_right_comm]
  rfl

theorem Uniform.nextIs (kind : Token.Kind) : Uniform before d id (nextIs kind) (nextIs kind) :=
  .of_run (fun _ => rfl) fun _ => rfl

theorem Uniform.acceptIf (wanted : Token.Kind → Bool) :
    Uniform before d id (acceptIf wanted) (acceptIf wanted) := by
  intro s result s' h
  cases hs : Ahead wanted s.rest with
  | false =>
      rw [run_acceptIf_none hs] at h
      cases h
      exact run_acceptIf_none hs
  | true =>
      obtain ⟨_ | ⟨t, rest⟩, last, i, faults⟩ := s
      · cases hs
      · rw [run_acceptIf_cons rfl hs] at h
        cases h
        exact run_acceptIf_cons rfl hs

theorem Uniform.accept (kind : Token.Kind) :
    Uniform before d id (accept kind) (accept kind) := .acceptIf _

theorem Uniform.expect (kind : Token.Kind) (cause : Cause) :
    Uniform before d id (expect kind cause) (expect kind cause) := by
  refine (Uniform.accept kind).same fun found => ?_
  cases found with
  | some t => exact .pure t
  | none => exact .fail cause

theorem Uniform.tryCatch {p : Parse α} {p' : Parse β} {handler : Fault → Parse α}
    {handler' : Fault → Parse β} (h : Uniform before d f p p')
    (hh : ∀ fault, Uniform before d f (handler fault) (handler' fault)) :
    Uniform before d f (tryCatch p handler) (tryCatch p' handler') := by
  intro s result s' hrun
  rw [run_tryCatch] at hrun
  rw [run_tryCatch]
  rcases hp : p.run s with _ | ⟨fault | a, s₁⟩ <;> rw [hp] at hrun
  · cases hrun
  · rw [h s _ _ hp]
    exact hh fault s₁ _ _ hrun
  · cases hrun
    rw [h s _ _ hp]
    rfl

end Rules

/-! ## Phrase by phrase -/

variable (before : List Fault) (d : Nat)

theorem Level.node_renumbered (l : Level) (left : Expr) (operator : Token) (right : Expr) :
    (l.node left operator right).moved 0 d =
      l.node (left.moved 0 d) operator (right.moved 0 d) := by
  cases l <;> rfl

theorem assignTo_uniform (target : Expr) (equals : Token) (value : Expr) :
    Uniform before d (Expr.moved 0 d) (assignTo target equals value)
      (assignTo (target.moved 0 d) equals (value.moved 0 d)) := by
  cases target with
  | «variable» id name => exact Uniform.freshId.bind fun id => .pure (Expr.assign id name value)
  | _ => exact (Uniform.record _).same fun _ => .pure _

/-- With so much fuel, and no less fuel behind the shift, the shift makes no difference to any
phrase. -/
structure Indifferent (n m : Nat) : Prop where
  expression : Uniform before d (Expr.moved 0 d) (expression n) (expression m)
  level : ∀ l, Uniform before d (Expr.moved 0 d) (level n l) (level m l)
  levelRest : ∀ l left,
    Uniform before d (Expr.moved 0 d) (levelRest n l left) (levelRest m l (left.moved 0 d))
  operand : ∀ l, Uniform before d (Expr.moved 0 d) (operand n l) (operand m l)
  unary : Uniform before d (Expr.moved 0 d) (unary n) (unary m)
  callRest : ∀ callee,
    Uniform before d (Expr.moved 0 d) (callRest n callee) (callRest m (callee.moved 0 d))
  arguments : Uniform before d (Expr.movedAll 0 d) (arguments n) (arguments m)
  argumentsFrom : ∀ count,
    Uniform before d (Expr.movedAll 0 d) (argumentsFrom n count) (argumentsFrom m count)
  primary : Uniform before d (Expr.moved 0 d) (primary n) (primary m)
  paramsFrom : ∀ count, Uniform before d id (paramsFrom n count) (paramsFrom m count)
  declaration : Uniform before d (Stmt.movedOptional 0 d) (declaration n) (declaration m)
  declared : Uniform before d (Stmt.moved 0 d) (declared n) (declared m)
  function : Uniform before d (Stmt.moved 0 d) (function n) (function m)
  statement : Uniform before d (Stmt.moved 0 d) (statement n) (statement m)
  forStatement : Uniform before d (Stmt.moved 0 d) (forStatement n) (forStatement m)
  ifStatement : Uniform before d (Stmt.moved 0 d) (ifStatement n) (ifStatement m)
  whileStatement : Uniform before d (Stmt.moved 0 d) (whileStatement n) (whileStatement m)
  block : Uniform before d (Stmt.movedAll 0 d) (block n) (block m)
  declarations : ∀ inBlock,
    Uniform before d (Stmt.movedAll 0 d) (declarations n inBlock) (declarations m inBlock)

section Steps

variable {before d} {n m : Nat} (ih : Indifferent before d n m)
include ih

theorem expression_uniform :
    Uniform before d (Expr.moved 0 d) (expression (n + 1)) (expression (m + 1)) := by
  refine (ih.level _).bind fun target => (Uniform.accept _).same fun found => ?_
  cases found with
  | none => exact .pure target
  | some equals =>
      exact ih.expression.bind fun value => assignTo_uniform before d target equals value

theorem level_uniform (l : Level) :
    Uniform before d (Expr.moved 0 d) (level (n + 1) l) (level (m + 1) l) :=
  (ih.operand l).bind fun left => ih.levelRest l left

theorem levelRest_uniform (l : Level) (left : Expr) : Uniform before d (Expr.moved 0 d)
    (levelRest (n + 1) l left) (levelRest (m + 1) l (left.moved 0 d)) := by
  refine (Uniform.acceptIf _).same fun found => ?_
  cases found with
  | none => exact .pure left
  | some operator =>
      refine (ih.operand l).bind fun right => ?_
      have h := ih.levelRest l (l.node left operator right)
      rw [Level.node_renumbered] at h
      exact h

theorem operand_uniform (l : Level) :
    Uniform before d (Expr.moved 0 d) (operand (n + 1) l) (operand (m + 1) l) := by
  rw [operand, operand]
  cases l.tighter? with
  | none => exact ih.unary
  | some l => exact ih.level l

theorem unary_uniform :
    Uniform before d (Expr.moved 0 d) (unary (n + 1)) (unary (m + 1)) := by
  refine (Uniform.acceptIf _).same fun found => ?_
  cases found with
  | none => exact ih.primary.bind fun callee => ih.callRest callee
  | some operator => exact ih.unary.bind fun operand => .pure (Expr.unary operator operand)

theorem callRest_uniform (callee : Expr) : Uniform before d (Expr.moved 0 d)
    (callRest (n + 1) callee) (callRest (m + 1) (callee.moved 0 d)) := by
  refine (Uniform.accept _).same fun found => ?_
  cases found with
  | none => exact .pure callee
  | some _ =>
      exact ih.arguments.bind fun arguments => (Uniform.expect _ _).same fun paren =>
        ih.callRest (.call callee paren arguments)

theorem arguments_uniform :
    Uniform before d (Expr.movedAll 0 d) (arguments (n + 1)) (arguments (m + 1)) := by
  refine (Uniform.nextIs _).same fun closed => ?_
  split
  · exact .pure []
  · exact ih.argumentsFrom 0

theorem argumentsFrom_uniform (count : Nat) : Uniform before d (Expr.movedAll 0 d)
    (argumentsFrom (n + 1) count) (argumentsFrom (m + 1) count) := by
  rw [argumentsFrom]
  refine .noting <| ih.expression.bind fun first => (Uniform.accept _).same fun found => ?_
  cases found with
  | none => exact .pure [first]
  | some _ => exact (ih.argumentsFrom _).bind fun rest => .pure (first :: rest)

theorem primary_uniform :
    Uniform before d (Expr.moved 0 d) (primary (n + 1)) (primary (m + 1)) := by
  refine (Uniform.acceptIf _).same fun found => ?_
  cases found with
  | none => exact .fail _
  | some t =>
      dsimp only
      split
      · exact .pure (Expr.literal _)
      split
      · refine Uniform.freshId.bind fun id => ?_
        exact .pure (Expr.variable id t)
      · refine ih.expression.bind fun inner => ?_
        exact (Uniform.expect _ _).same fun _ => .pure (Expr.group inner)

theorem expressionUnless_uniform (kind : Token.Kind) : Uniform before d (Expr.movedOptional 0 d)
    (expressionUnless n kind) (expressionUnless m kind) := by
  refine (Uniform.nextIs _).same fun found => ?_
  split
  · exact .pure none
  · exact ih.expression.bind fun e => .pure (some e)

theorem varDeclaration_uniform :
    Uniform before d (Stmt.moved 0 d) (varDeclaration n) (varDeclaration m) := by
  refine (Uniform.expect _ _).same fun name => (Uniform.accept _).same fun found => ?_
  have hrest (initializer : Option Expr) : Uniform before d (Stmt.moved 0 d)
      (expect .semicolon .expectSemicolonAfterDeclaration >>= fun _ =>
        pure (.var name initializer))
      (expect .semicolon .expectSemicolonAfterDeclaration >>= fun _ =>
        pure (.var name (Expr.movedOptional 0 d initializer))) :=
    (Uniform.expect _ _).same fun _ => .pure (Stmt.var name initializer)
  cases found with
  | none => exact hrest none
  | some _ =>
      have hvalue : Uniform before d (Expr.movedOptional 0 d) (some <$> expression n)
          (some <$> expression m) := ih.expression.map fun _ => rfl
      exact hvalue.bind hrest

theorem expressionStatement_uniform :
    Uniform before d (Stmt.moved 0 d) (expressionStatement n) (expressionStatement m) := by
  refine ih.expression.bind fun value => ?_
  exact (Uniform.expect _ _).same fun _ => .pure (Stmt.expression value)

theorem printStatement_uniform :
    Uniform before d (Stmt.moved 0 d) (printStatement n) (printStatement m) := by
  refine ih.expression.bind fun value => ?_
  exact (Uniform.expect _ _).same fun _ => .pure (Stmt.print value)

theorem returnStatement_uniform (keyword : Token) :
    Uniform before d (Stmt.moved 0 d) (returnStatement n keyword) (returnStatement m keyword) := by
  refine (expressionUnless_uniform ih _).bind fun value => ?_
  exact (Uniform.expect _ _).same fun _ => .pure (Stmt.ret keyword value)

theorem forInitializer_uniform :
    Uniform before d (Stmt.movedOptional 0 d) (forInitializer n) (forInitializer m) := by
  refine (Uniform.accept _).same fun found => ?_
  cases found with
  | some _ => exact .pure none
  | none =>
      refine (Uniform.accept _).same fun found => ?_
      cases found with
      | some _ => exact (varDeclaration_uniform ih).map fun _ => rfl
      | none => exact (expressionStatement_uniform ih).map fun _ => rfl

/-- A fault that is caught has been found by both, and both go on behind it. -/
theorem declaration_uniform :
    Uniform before d (Stmt.movedOptional 0 d) (declaration (n + 1)) (declaration (m + 1)) := by
  have hdeclared : Uniform before d (Stmt.movedOptional 0 d) (some <$> declared n)
      (some <$> declared m) := ih.declared.map fun _ => rfl
  refine hdeclared.tryCatch fun fault => ?_
  exact (Uniform.record fault).same fun _ => Uniform.skipBroken.same fun _ => .pure none

theorem declared_uniform :
    Uniform before d (Stmt.moved 0 d) (declared (n + 1)) (declared (m + 1)) := by
  refine (Uniform.accept _).same fun found => ?_
  cases found with
  | some _ => exact ih.function
  | none =>
      refine (Uniform.accept _).same fun found => ?_
      cases found with
      | some _ => exact varDeclaration_uniform ih
      | none => exact ih.statement

theorem paramsFrom_uniform (count : Nat) :
    Uniform before d id (paramsFrom (n + 1) count) (paramsFrom (m + 1) count) := by
  rw [paramsFrom, paramsFrom]
  refine .noting <| (Uniform.expect _ _).same fun first => ?_
  refine (Uniform.accept _).same fun found => ?_
  cases found with
  | none => exact .pure [first]
  | some _ => exact (ih.paramsFrom _).same fun rest => .pure (first :: rest)

theorem function_uniform :
    Uniform before d (Stmt.moved 0 d) (function (n + 1)) (function (m + 1)) := by
  refine (Uniform.expect _ _).same fun name => (Uniform.expect _ _).same fun _ => ?_
  have hrest (params : List Token) : Uniform before d (Stmt.moved 0 d)
      (expect .rightParen .expectParenAfterParameters >>= fun _ =>
        expect .leftBrace .expectBraceBeforeBody >>= fun _ =>
          block n >>= fun body => pure (.function name params body))
      (expect .rightParen .expectParenAfterParameters >>= fun _ =>
        expect .leftBrace .expectBraceBeforeBody >>= fun _ =>
          block m >>= fun body => pure (.function name params body)) := by
    refine (Uniform.expect _ _).same fun _ => (Uniform.expect _ _).same fun _ => ?_
    refine ih.block.bind fun body => ?_
    have h : Uniform before d (Stmt.moved 0 d) (pure (Stmt.function name params body))
        (pure ((Stmt.function name params body).moved 0 d)) := .pure _
    rw [Stmt.moved, Token.map_later_zero] at h
    exact h
  refine (Uniform.nextIs _).same fun closed => ?_
  dsimp only
  split
  · exact hrest []
  · exact (ih.paramsFrom 0).same hrest

theorem statement_uniform :
    Uniform before d (Stmt.moved 0 d) (statement (n + 1)) (statement (m + 1)) := by
  refine (Uniform.acceptIf _).same fun found => ?_
  cases found with
  | none => exact expressionStatement_uniform ih
  | some keyword =>
      dsimp only
      split
      · exact ih.forStatement
      · exact ih.ifStatement
      · exact printStatement_uniform ih
      · exact returnStatement_uniform ih keyword
      · exact ih.whileStatement
      · exact ih.block.map fun _ => rfl

theorem forStatement_uniform :
    Uniform before d (Stmt.moved 0 d) (forStatement (n + 1)) (forStatement (m + 1)) := by
  refine (Uniform.expect _ _).same fun _ => ?_
  refine (forInitializer_uniform ih).bind fun initializer => ?_
  refine (expressionUnless_uniform ih _).bind fun condition => (Uniform.expect _ _).same fun _ => ?_
  refine (expressionUnless_uniform ih _).bind fun increment => (Uniform.expect _ _).same fun _ => ?_
  exact ih.statement.bind fun body => .pure (Stmt.forLoop initializer condition increment body)

theorem ifStatement_uniform :
    Uniform before d (Stmt.moved 0 d) (ifStatement (n + 1)) (ifStatement (m + 1)) := by
  refine (Uniform.expect _ _).same fun _ => ih.expression.bind fun condition => ?_
  refine (Uniform.expect _ _).same fun _ => ih.statement.bind fun thenBranch => ?_
  refine (Uniform.accept _).same fun found => ?_
  cases found with
  | none => exact .pure (Stmt.ifThen condition thenBranch none)
  | some _ =>
      have hbranch : Uniform before d (Stmt.movedOptional 0 d) (some <$> statement n)
          (some <$> statement m) := ih.statement.map fun _ => rfl
      refine hbranch.bind fun elseBranch => ?_
      exact .pure (Stmt.ifThen condition thenBranch elseBranch)

theorem whileStatement_uniform :
    Uniform before d (Stmt.moved 0 d) (whileStatement (n + 1)) (whileStatement (m + 1)) := by
  refine (Uniform.expect _ _).same fun _ => ih.expression.bind fun condition => ?_
  refine (Uniform.expect _ _).same fun _ => ih.statement.bind fun body => ?_
  exact .pure (Stmt.whileLoop condition body)

theorem block_uniform :
    Uniform before d (Stmt.movedAll 0 d) (block (n + 1)) (block (m + 1)) := by
  refine (ih.declarations true).bind fun body => ?_
  exact (Uniform.expect _ _).same fun _ => .pure body

theorem declarations_uniform (inBlock : Bool) : Uniform before d (Stmt.movedAll 0 d)
    (declarations (n + 1) inBlock) (declarations (m + 1) inBlock) := by
  have hrest : Uniform before d (Stmt.movedAll 0 d)
      (do
        let first ← declaration n
        let rest ← declarations n inBlock
        return first.toList ++ rest)
      (do
        let first ← declaration m
        let rest ← declarations m inBlock
        return first.toList ++ rest) := by
    refine ih.declaration.bind fun first => (ih.declarations inBlock).bind fun rest => ?_
    cases first with
    | none => exact .pure rest
    | some s => exact .pure (s :: rest)
  intro s result s' h
  rw [run_declarations] at h
  rw [run_declarations]
  by_cases hend : s.rest = [] ∨ inBlock = true ∧ Ahead (· = .rightBrace) s.rest = true
  · rw [if_pos hend] at h
    cases h
    exact if_pos hend
  · rw [if_neg hend] at h
    exact (if_neg hend).trans (hrest s result s' h)

end Steps

theorem indifferent {n m : Nat} (hnm : n ≤ m) : Indifferent before d n m := by
  induction n generalizing m with
  | zero =>
      exact ⟨.exhausted, fun _ => .exhausted, fun _ _ => .exhausted, fun _ => .exhausted,
        .exhausted, fun _ => .exhausted, .exhausted, fun _ => .exhausted, .exhausted,
        fun _ => .exhausted, .exhausted, .exhausted, .exhausted, .exhausted, .exhausted, .exhausted,
        .exhausted, .exhausted, fun _ => .exhausted⟩
  | succ n ih =>
      obtain ⟨m, rfl⟩ := Nat.exists_eq_add_of_le' hnm
      have ih : Indifferent before d n (m + n) := ih (Nat.le_add_left n m)
      exact ⟨expression_uniform ih, level_uniform ih, levelRest_uniform ih, operand_uniform ih,
        unary_uniform ih, callRest_uniform ih, arguments_uniform ih, argumentsFrom_uniform ih,
        primary_uniform ih, paramsFrom_uniform ih, declaration_uniform ih, declared_uniform ih,
        function_uniform ih, statement_uniform ih, forStatement_uniform ih, ifStatement_uniform ih,
        whileStatement_uniform ih, block_uniform ih, declarations_uniform ih⟩

end Lox.Parse

namespace Lox

/-- The program with its nodes numbered from further up. -/
def Parsed.renumbered (d : Nat) (p : Parsed) : Parsed :=
  ⟨Stmt.movedAll 0 d p.statements, p.faults, p.nextId + d⟩

/-- What is read from tokens, broken or not, depends on the first number in the numbers alone. -/
theorem Parsed.ofTokens_renumbered (tokens : List Token) (i : NodeId) (d : Nat) :
    ofTokens tokens (i + d) = (ofTokens tokens i).renumbered d := by
  have hlen : (start tokens i).rest.length ≤ tokens.length :=
    (List.takeWhile_prefix _).length_le
  obtain ⟨result, s, hrun, -, -⟩ := Parse.obeys_declarations tokens (start tokens i) hlen
  have h := (Parse.indifferent [] d (Nat.le_refl (fuel tokens))).declarations false _ _ _ hrun
  have hstart : (start tokens i).shifted [] d = start tokens (i + d) := rfl
  rw [hstart] at h
  rw [ofTokens, ofTokens, h, hrun]
  cases result <;> rfl

end Lox
