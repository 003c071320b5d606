import Lox.Proofs.Parser.InTurn
import Lox.Proofs.Parser.Numbering
import Mathlib.Data.List.Perm.Subperm

/-!
# The numbers of broken programs

What is read from tokens that are not in order has been put together from what could be
read, and numbers have been given out for much that was thrown away: for the target of an
assignment, for what stands in a broken statement, for a statement that was read whole in
a block that was not closed. For all that, no two nodes of what is left have the same
number, and all the numbers lie between the first before the reading and the first behind
it.

The contract of a parser is stated behind what has been read already and will stand beside
its result, so that a phrase is a chain of the contracts of its parts.
-/

namespace Lox

theorem Spans.skip {i j : Nat} (h : i ≤ j) : Spans [] i j :=
  ⟨h, List.nodup_nil, fun _ h => nomatch h⟩

/-- Of numbers that have been given out some may be dropped, and the others put in any order. -/
theorem Spans.keep {ids ids' : List Nat} {i j : Nat} (h : Spans ids i j) (hs : ids'.Subperm ids) :
    Spans ids' i j := by
  obtain ⟨kept, hperm, hsub⟩ := hs
  exact Spans.perm ⟨h.le, h.nodup.sublist hsub, fun id hid => h.bounds id (hsub.subset hid)⟩
    hperm.symm

theorem Expr.nodeIdsAll_singleton (e : Expr) : nodeIdsAll [e] = e.nodeIds := List.append_nil _

theorem Stmt.nodeIdsAll_toList (first : Option Stmt) (rest : List Stmt) :
    nodeIdsAll (first.toList ++ rest) = nodeIdsOptional first ++ nodeIdsAll rest := by
  cases first <;> rfl

namespace Parse

variable {α β : Type}

/-- Behind nodes with numbers of their own the parser gives numbers to the nodes of its result,
some of those before among them, so that again no two are the same. -/
def Numbers (before : List NodeId) (ids : α → List NodeId) (p : Parse α) : Prop :=
  ∀ i s result s', Spans before i s.nextId → p.run s = some (result, s') →
    i ≤ s'.nextId ∧ ∀ a, result = .ok a → Spans (ids a) i s'.nextId

/-- The parser has no nodes in its result. -/
abbrev Unnumbered (p : Parse α) : Prop := Numbers [] (fun _ => []) p

/-! ## Rules -/

section Rules

variable {before : List NodeId} {ids : α → List NodeId} {ids' : β → List NodeId}

theorem Numbers.exhausted : Numbers before ids (exhausted : Parse α) :=
  fun _ _ _ _ _ h => nomatch h

/-- A parser that gives out no number. -/
theorem Unnumbered.of_run {p : Parse α}
    (hp : ∀ s result s', p.run s = some (result, s') → s'.nextId = s.nextId) : Unnumbered p := by
  intro i s result s' hspans h
  rw [hp s result s' h]
  exact ⟨hspans.le, fun _ _ => hspans⟩

theorem Numbers.pure {a : α} (h : (ids a).Subperm before) :
    Numbers before ids (pure a : Parse α) := by
  intro i s result s' hspans hrun
  cases hrun
  exact ⟨hspans.le, fun b hb => Except.ok.inj hb ▸ hspans.keep h⟩

theorem Numbers.fail (cause : Cause) : Numbers before ids (fail cause : Parse α) := by
  intro i s result s' hspans hrun
  cases hrun
  exact ⟨hspans.le, fun _ h => nomatch h⟩

/-- The nodes of the first result stand with those before. -/
theorem Numbers.bind {p : Parse α} {k : α → Parse β} (hp : Numbers [] ids p)
    (hk : ∀ a, Numbers (before ++ ids a) ids' (k a)) : Numbers before ids' (p >>= k) := by
  intro i s result s' hspans h
  rw [run_bind] at h
  rcases hs : p.run s with _ | ⟨fault | a, s₁⟩ <;> rw [hs] at h
  · cases h
  · cases h
    exact ⟨Nat.le_trans hspans.le (hp _ s _ _ (.nil _) hs).1, fun _ h => nomatch h⟩
  · exact hk a i s₁ result s' (hspans.append ((hp _ s _ _ (.nil _) hs).2 a rfl)) h

theorem Numbers.same {p : Parse α} {k : α → Parse β} (hp : Unnumbered p)
    (hk : ∀ a, Numbers before ids' (k a)) : Numbers before ids' (p >>= k) :=
  hp.bind fun a => by
    rw [List.append_nil]
    exact hk a

theorem Numbers.map {p : Parse α} (hp : Numbers before ids p) {f : α → β}
    (hf : ∀ a, ids' (f a) = ids a) : Numbers before ids' (f <$> p) := by
  intro i s result s' hspans h
  rw [← bind_pure_comp, run_bind] at h
  rcases hs : p.run s with _ | ⟨fault | a, s₁⟩ <;> rw [hs] at h
  · cases h
  · cases h
    exact ⟨(hp i s _ _ hspans hs).1, fun _ h => nomatch h⟩
  · cases h
    refine ⟨(hp i s _ _ hspans hs).1, fun b hb => ?_⟩
    rw [← Except.ok.inj hb, hf]
    exact (hp i s _ _ hspans hs).2 a rfl

theorem Numbers.freshId : Numbers [] (fun id => [id]) freshId := by
  intro i s result s' hspans h
  cases h
  exact ⟨Nat.le_succ_of_le hspans.le, fun id hid => Except.ok.inj hid ▸
    (Spans.skip hspans.le).append (.one s.nextId)⟩

theorem Unnumbered.record (fault : Fault) : Unnumbered (record fault) :=
  .of_run fun _ _ _ h => by
    cases h
    rfl

theorem Unnumbered.recordHere (cause : Cause) : Unnumbered (recordHere cause) :=
  .of_run fun _ _ _ h => by
    cases h
    rfl

theorem Unnumbered.nextIs (kind : Token.Kind) : Unnumbered (nextIs kind) :=
  .of_run fun _ _ _ h => by
    cases h
    rfl

theorem Unnumbered.acceptIf (wanted : Token.Kind → Bool) : Unnumbered (acceptIf wanted) := by
  refine .of_run fun s result s' h => ?_
  cases hs : Ahead wanted s.rest with
  | false =>
      rw [run_acceptIf_none hs] at h
      cases h
      rfl
  | true =>
      obtain ⟨_ | ⟨t, rest⟩, last, i, faults⟩ := s
      · cases hs
      · rw [run_acceptIf_cons rfl hs] at h
        cases h
        rfl

theorem Unnumbered.accept (kind : Token.Kind) : Unnumbered (accept kind) := .acceptIf _

theorem Unnumbered.expect (kind : Token.Kind) (cause : Cause) : Unnumbered (expect kind cause) := by
  refine Numbers.same (.accept kind) fun found => ?_
  cases found with
  | some t => exact .pure (.refl _)
  | none => exact .fail cause

/-- A fault may be noted on the way. -/
theorem Numbers.noting {c : Prop} [Decidable c] {cause : Cause} {p : Parse α}
    (hp : Numbers before ids p) :
    Numbers before ids (if c then Parse.recordHere cause >>= fun _ => p else p) := by
  split
  · exact .same (.recordHere cause) fun _ => hp
  · exact hp

end Rules

/-! ## Phrase by phrase -/

theorem Level.nodeIds_node (l : Level) (left : Expr) (operator : Token) (right : Expr) :
    (l.node left operator right).nodeIds = left.nodeIds ++ right.nodeIds := by
  cases l <;> rfl

/-- The number of a target is dropped with the target, and a target that stays has its nodes. -/
theorem assignTo_numbers (target : Expr) (equals : Token) (value : Expr) :
    Numbers (target.nodeIds ++ value.nodeIds) Expr.nodeIds (assignTo target equals value) := by
  have hstays : Numbers (target.nodeIds ++ value.nodeIds) Expr.nodeIds
      (do record ⟨.invalidAssignmentTarget, equals⟩; return target) :=
    .same (.record _) fun _ => .pure (List.sublist_append_left _ _).subperm
  cases target with
  | «variable» id name =>
      refine Numbers.freshId.bind fun new => .pure ?_
      have hperm : (new :: value.nodeIds).Perm (value.nodeIds ++ [new]) :=
        (List.perm_append_singleton new value.nodeIds).symm
      exact hperm.subperm.trans (List.sublist_cons_self id _).subperm
  | _ => exact hstays

/-- With so much fuel every phrase numbers its nodes. -/
structure Numbering (n : Nat) : Prop where
  expression : Numbers [] Expr.nodeIds (expression n)
  level : ∀ l, Numbers [] Expr.nodeIds (level n l)
  levelRest : ∀ l left, Numbers left.nodeIds Expr.nodeIds (levelRest n l left)
  operand : ∀ l, Numbers [] Expr.nodeIds (operand n l)
  unary : Numbers [] Expr.nodeIds (unary n)
  callRest : ∀ callee, Numbers callee.nodeIds Expr.nodeIds (callRest n callee)
  arguments : Numbers [] Expr.nodeIdsAll (arguments n)
  argumentsFrom : ∀ count, Numbers [] Expr.nodeIdsAll (argumentsFrom n count)
  primary : Numbers [] Expr.nodeIds (primary n)
  paramsFrom : ∀ count, Unnumbered (paramsFrom n count)
  declaration : Numbers [] Stmt.nodeIdsOptional (declaration n)
  declared : Numbers [] Stmt.nodeIds (declared n)
  function : Numbers [] Stmt.nodeIds (function n)
  statement : Numbers [] Stmt.nodeIds (statement n)
  forStatement : Numbers [] Stmt.nodeIds (forStatement n)
  ifStatement : Numbers [] Stmt.nodeIds (ifStatement n)
  whileStatement : Numbers [] Stmt.nodeIds (whileStatement n)
  block : Numbers [] Stmt.nodeIdsAll (block n)
  declarations : ∀ inBlock, Numbers [] Stmt.nodeIdsAll (declarations n inBlock)

section Steps

variable {n : Nat} (ih : Numbering n)
include ih

theorem expression_numbers : Numbers [] Expr.nodeIds (expression (n + 1)) := by
  refine (ih.level _).bind fun target => .same (.accept _) fun found => ?_
  cases found with
  | none => exact .pure (.refl _)
  | some equals => exact ih.expression.bind fun value => assignTo_numbers target equals value

theorem level_numbers (l : Level) : Numbers [] Expr.nodeIds (level (n + 1) l) :=
  (ih.operand l).bind fun left => ih.levelRest l left

theorem levelRest_numbers (l : Level) (left : Expr) :
    Numbers left.nodeIds Expr.nodeIds (levelRest (n + 1) l left) := by
  refine .same (.acceptIf _) fun found => ?_
  cases found with
  | none => exact .pure (.refl _)
  | some operator =>
      refine (ih.operand l).bind fun right => ?_
      rw [← l.nodeIds_node left operator right]
      exact ih.levelRest l _

theorem operand_numbers (l : Level) : Numbers [] Expr.nodeIds (operand (n + 1) l) := by
  rw [operand]
  cases l.tighter? with
  | none => exact ih.unary
  | some l => exact ih.level l

theorem unary_numbers : Numbers [] Expr.nodeIds (unary (n + 1)) := by
  refine .same (.acceptIf _) fun found => ?_
  cases found with
  | none => exact ih.primary.bind fun callee => ih.callRest callee
  | some operator => exact ih.unary.bind fun _ => .pure (.refl _)

theorem callRest_numbers (callee : Expr) :
    Numbers callee.nodeIds Expr.nodeIds (callRest (n + 1) callee) := by
  refine .same (.accept _) fun found => ?_
  cases found with
  | none => exact .pure (.refl _)
  | some _ =>
      exact ih.arguments.bind fun arguments => .same (.expect _ _) fun paren =>
        ih.callRest (.call callee paren arguments)

theorem arguments_numbers : Numbers [] Expr.nodeIdsAll (arguments (n + 1)) := by
  refine .same (.nextIs _) fun closed => ?_
  split
  · exact .pure (.refl _)
  · exact ih.argumentsFrom 0

theorem argumentsFrom_numbers (count : Nat) :
    Numbers [] Expr.nodeIdsAll (argumentsFrom (n + 1) count) := by
  rw [argumentsFrom]
  refine .noting <| ih.expression.bind fun first => .same (.accept _) fun found => ?_
  cases found with
  | none => exact .pure (by rw [Expr.nodeIdsAll_singleton]; exact .refl _)
  | some _ => exact (ih.argumentsFrom _).bind fun rest => .pure (.refl _)

theorem primary_numbers : Numbers [] Expr.nodeIds (primary (n + 1)) := by
  refine .same (.acceptIf _) fun found => ?_
  cases found with
  | none => exact .fail _
  | some t =>
      dsimp only
      split
      · exact .pure (.refl _)
      split
      · exact Numbers.freshId.bind fun _ => .pure (.refl _)
      · exact ih.expression.bind fun _ => .same (.expect _ _) fun _ => .pure (.refl _)

theorem expressionUnless_numbers (kind : Token.Kind) :
    Numbers [] Expr.nodeIdsOptional (expressionUnless n kind) := by
  refine .same (.nextIs _) fun found => ?_
  split
  · exact .pure (.refl _)
  · exact ih.expression.bind fun _ => .pure (.refl _)

theorem varDeclaration_numbers : Numbers [] Stmt.nodeIds (varDeclaration n) := by
  refine .same (.expect _ _) fun name => .same (.accept _) fun found => ?_
  have hrest (initializer : Option Expr) : Numbers (Expr.nodeIdsOptional initializer) Stmt.nodeIds
      (expect .semicolon .expectSemicolonAfterDeclaration >>= fun _ =>
        pure (Stmt.var name initializer)) :=
    .same (.expect _ _) fun _ => .pure (.refl _)
  cases found with
  | none => exact hrest none
  | some _ =>
      have hvalue : Numbers [] Expr.nodeIdsOptional (some <$> expression n) :=
        ih.expression.map fun _ => rfl
      exact hvalue.bind hrest

theorem expressionStatement_numbers : Numbers [] Stmt.nodeIds (expressionStatement n) :=
  ih.expression.bind fun _ => .same (.expect _ _) fun _ => .pure (.refl _)

theorem printStatement_numbers : Numbers [] Stmt.nodeIds (printStatement n) :=
  ih.expression.bind fun _ => .same (.expect _ _) fun _ => .pure (.refl _)

theorem returnStatement_numbers (keyword : Token) :
    Numbers [] Stmt.nodeIds (returnStatement n keyword) :=
  (expressionUnless_numbers ih _).bind fun _ => .same (.expect _ _) fun _ => .pure (.refl _)

theorem forInitializer_numbers : Numbers [] Stmt.nodeIdsOptional (forInitializer n) := by
  refine .same (.accept _) fun found => ?_
  cases found with
  | some _ => exact .pure (.refl _)
  | none =>
      refine .same (.accept _) fun found => ?_
      cases found with
      | some _ => exact (varDeclaration_numbers ih).map fun _ => rfl
      | none => exact (expressionStatement_numbers ih).map fun _ => rfl

/-- What a broken declaration has given numbers to is dropped. -/
theorem declaration_numbers : Numbers [] Stmt.nodeIdsOptional (declaration (n + 1)) := by
  have hdeclared : Numbers [] Stmt.nodeIdsOptional (some <$> declared n) :=
    ih.declared.map fun _ => rfl
  intro i s result s' hspans h
  rw [declaration, run_tryCatch] at h
  rcases hs : (some <$> declared n : Parse (Option Stmt)).run s with _ | ⟨fault | a, s₁⟩ <;>
    rw [hs] at h
  · cases h
  · have hle := (hdeclared i s _ _ hspans hs).1
    cases h
    exact ⟨hle, fun _ ho => Except.ok.inj ho ▸ .skip hle⟩
  · cases h
    exact hdeclared i s _ _ hspans hs

theorem declared_numbers : Numbers [] Stmt.nodeIds (declared (n + 1)) := by
  refine .same (.accept _) fun found => ?_
  cases found with
  | some _ => exact ih.function
  | none =>
      refine .same (.accept _) fun found => ?_
      cases found with
      | some _ => exact varDeclaration_numbers ih
      | none => exact ih.statement

theorem paramsFrom_numbers (count : Nat) : Unnumbered (paramsFrom (n + 1) count) := by
  rw [paramsFrom]
  refine .noting <| .same (.expect _ _) fun first => .same (.accept _) fun found => ?_
  cases found with
  | none => exact .pure (.refl _)
  | some _ => exact .same (ih.paramsFrom _) fun _ => .pure (.refl _)

theorem function_numbers : Numbers [] Stmt.nodeIds (function (n + 1)) := by
  refine .same (.expect _ _) fun name => .same (.expect _ _) fun _ => ?_
  have hrest (params : List Token) : Numbers [] Stmt.nodeIds
      (expect .rightParen .expectParenAfterParameters >>= fun _ =>
        expect .leftBrace .expectBraceBeforeBody >>= fun _ =>
          block n >>= fun body => pure (Stmt.function name params body)) :=
    .same (.expect _ _) fun _ => .same (.expect _ _) fun _ =>
      ih.block.bind fun _ => .pure (.refl _)
  refine .same (.nextIs _) fun closed => ?_
  dsimp only
  split
  · exact hrest []
  · exact .same (ih.paramsFrom 0) hrest

theorem statement_numbers : Numbers [] Stmt.nodeIds (statement (n + 1)) := by
  refine .same (.acceptIf _) fun found => ?_
  cases found with
  | none => exact expressionStatement_numbers ih
  | some keyword =>
      dsimp only
      split
      · exact ih.forStatement
      · exact ih.ifStatement
      · exact printStatement_numbers ih
      · exact returnStatement_numbers ih keyword
      · exact ih.whileStatement
      · exact ih.block.map fun _ => rfl

theorem forStatement_numbers : Numbers [] Stmt.nodeIds (forStatement (n + 1)) := by
  refine .same (.expect _ _) fun _ => (forInitializer_numbers ih).bind fun _ => ?_
  refine (expressionUnless_numbers ih _).bind fun _ => .same (.expect _ _) fun _ => ?_
  refine (expressionUnless_numbers ih _).bind fun _ => .same (.expect _ _) fun _ => ?_
  exact ih.statement.bind fun _ => .pure (.refl _)

theorem ifStatement_numbers : Numbers [] Stmt.nodeIds (ifStatement (n + 1)) := by
  refine .same (.expect _ _) fun _ => ih.expression.bind fun _ => ?_
  refine .same (.expect _ _) fun _ => ih.statement.bind fun _ => .same (.accept _) fun found => ?_
  cases found with
  | none => exact .pure (List.append_nil (_ ++ _) ▸ .refl _)
  | some _ =>
      have hbranch : Numbers [] Stmt.nodeIdsOptional (some <$> statement n) :=
        ih.statement.map fun _ => rfl
      exact hbranch.bind fun _ => .pure (.refl _)

theorem whileStatement_numbers : Numbers [] Stmt.nodeIds (whileStatement (n + 1)) := by
  refine .same (.expect _ _) fun _ => ih.expression.bind fun _ => ?_
  exact .same (.expect _ _) fun _ => ih.statement.bind fun _ => .pure (.refl _)

theorem block_numbers : Numbers [] Stmt.nodeIdsAll (block (n + 1)) :=
  (ih.declarations true).bind fun _ => .same (.expect _ _) fun _ => .pure (.refl _)

theorem declarations_numbers (inBlock : Bool) :
    Numbers [] Stmt.nodeIdsAll (declarations (n + 1) inBlock) := by
  have hmore : Numbers [] Stmt.nodeIdsAll (do
      let first ← declaration n
      let rest ← declarations n inBlock
      return first.toList ++ rest) :=
    ih.declaration.bind fun first => (ih.declarations inBlock).bind fun rest =>
      .pure (by rw [Stmt.nodeIdsAll_toList]; exact .refl _)
  intro i s result s' hspans h
  rw [run_declarations] at h
  split at h
  · cases h
    exact ⟨hspans.le, fun _ ha => Except.ok.inj ha ▸ hspans⟩
  · exact hmore i s result s' hspans h

end Steps

theorem numbering (n : Nat) : Numbering n := by
  induction n with
  | zero =>
      exact ⟨.exhausted, fun _ => .exhausted, fun _ _ => .exhausted, fun _ => .exhausted,
        .exhausted, fun _ => .exhausted, .exhausted, fun _ => .exhausted, .exhausted,
        fun _ => .exhausted, .exhausted, .exhausted, .exhausted, .exhausted, .exhausted, .exhausted,
        .exhausted, .exhausted, fun _ => .exhausted⟩
  | succ n ih =>
      exact ⟨expression_numbers ih, level_numbers ih, levelRest_numbers ih, operand_numbers ih,
        unary_numbers ih, callRest_numbers ih, arguments_numbers ih, argumentsFrom_numbers ih,
        primary_numbers ih, paramsFrom_numbers ih, declaration_numbers ih, declared_numbers ih,
        function_numbers ih, statement_numbers ih, forStatement_numbers ih, ifStatement_numbers ih,
        whileStatement_numbers ih, block_numbers ih, declarations_numbers ih⟩

end Parse

/-- Whatever the tokens are, no two nodes of what is read have the same number, and all numbers
are new. -/
theorem Parsed.spans_ofTokens (tokens : List Token) (i : NodeId) :
    Spans (Stmt.nodeIdsAll (ofTokens tokens i).statements) i (ofTokens tokens i).nextId := by
  obtain ⟨n, s, hrun, -, hnextId⟩ := ofTokens_answers tokens i
  have hspans := ((Parse.numbering n).declarations false i _ _ _ (.nil i) hrun).2 _ rfl
  rwa [hnextId] at hspans

end Lox
