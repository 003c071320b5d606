import Lox.Proofs.Parser.Charged
import Lox.Proofs.Parser.Cursor

/-!
# The parser on a cursor

A script is a program made of the operations of the parser and of nothing else. It can be
read as a parser, and it can be run on a cursor, where it is stuck as soon as it looks at a
position out of bounds. On a cursor that is in a state the two agree: nothing is ever stuck,
the answers are the same, and the cursor ends in the state in which the parser ends.

Every phrase of the parser is read from a script. What the cursor does is therefore settled by what
the parser does, and of that it remains to show that a list of declarations at the top leaves
no token, that a declaration before the end takes at least one, and, in `Charged`, that
the faults are at most as many as the tokens.
-/

namespace Lox

namespace Parse

/-- A program made of the operations of the parser. -/
inductive Script : Type → Type 1
  | pure {α : Type} (a : α) : Script α
  | bind {α β : Type} (first : Script α) (next : α → Script β) : Script β
  | caught {α : Type} (script : Script α) (handler : Fault → Script α) : Script α
  | exhausted {α : Type} : Script α
  | fail {α : Type} (cause : Cause) : Script α
  | record (fault : Fault) : Script Unit
  | recordHere (cause : Cause) : Script Unit
  | freshId : Script NodeId
  | atEnd : Script Bool
  | nextIs (kind : Token.Kind) : Script Bool
  | acceptIf (wanted : Token.Kind → Bool) : Script (Option Token)
  | skipBroken : Script Unit

variable {α β : Type}

namespace Script

/-- The parser that a script stands for. -/
def read {α : Type} : Script α → Parse α
  | .pure a => Pure.pure a
  | .bind first next => first.read >>= fun a => (next a).read
  | .caught script handler => tryCatch script.read fun fault => (handler fault).read
  | .exhausted => Parse.exhausted
  | .fail cause => Parse.fail cause
  | .record fault => Parse.record fault
  | .recordHere cause => Parse.recordHere cause
  | .freshId => Parse.freshId
  | .atEnd => Parse.atEnd
  | .nextIs kind => Parse.nextIs kind
  | .acceptIf wanted => Parse.acceptIf wanted
  | .skipBroken => Parse.skipBroken

/-- The script on a cursor. It has no answer if it runs out of fuel or out of bounds. -/
def onCursor {α : Type} : Script α → ExceptT Fault (StateT Cursor Option) α
  | .pure a => Pure.pure a
  | .bind first next => first.onCursor >>= fun a => (next a).onCursor
  | .caught script handler => tryCatch script.onCursor fun fault => (handler fault).onCursor
  | .exhausted => ExceptT.mk fun _ => none
  | .fail cause => ExceptT.mk fun c => return (.error ⟨cause, ← c.peek⟩, c)
  | .record fault => ExceptT.mk fun c => some (.ok (), { c with faults := c.faults ++ [fault] })
  | .recordHere cause =>
    ExceptT.mk fun c => return (.ok (), { c with faults := c.faults ++ [⟨cause, ← c.peek⟩] })
  | .freshId => ExceptT.mk fun c => some (.ok c.nextId, { c with nextId := c.nextId + 1 })
  | .atEnd => ExceptT.mk fun c => return (.ok (← c.atEnd), c)
  | .nextIs kind => ExceptT.mk fun c => return (.ok (← c.check (· = kind)), c)
  | .acceptIf wanted => ExceptT.mk fun c => do
    let (found, c) ← c.acceptIf wanted
    return (.ok found, c)
  | .skipBroken => ExceptT.mk fun c => return (.ok (), ← c.synchronize)

/-- The same result, and the cursor is in the state, with its list of tokens as it was. -/
inductive Agree (tape : List Token) : Except Fault α × State → Except Fault α × Cursor → Prop
  | same {result : Except Fault α} {s : State} {c : Cursor} (hat : c.At s) (htape : c.tape = tape) :
    Agree tape (result, s) (result, c)

section Agreement

variable {p : Parse α} {q : ExceptT Fault (StateT Cursor Option) α} {c : Cursor} {s : State}

/-- What is run behind agrees on the same list of tokens. -/
theorem Agree.bind {k : α → Parse β} {k' : α → ExceptT Fault (StateT Cursor Option) β}
    (h : Option.Rel (Agree c.tape) (p.run s) (q.run c))
    (hk : ∀ a {c' s'}, c'.At s' → Option.Rel (Agree c'.tape) ((k a).run s') ((k' a).run c')) :
    Option.Rel (Agree c.tape) ((p >>= k).run s) ((q >>= k').run c) := by
  rw [run_bind, run_bind]
  generalize p.run s = x at h ⊢
  generalize q.run c = y at h ⊢
  cases h with
  | none => exact .none
  | some hagree =>
      obtain @⟨result, s', c', hat, htape⟩ := hagree
      cases result with
      | error fault => exact .some (.same hat htape)
      | ok a => exact htape ▸ hk a hat

theorem Agree.caught {handler : Fault → Parse α}
    {handler' : Fault → ExceptT Fault (StateT Cursor Option) α}
    (h : Option.Rel (Agree c.tape) (p.run s) (q.run c))
    (hh : ∀ fault {c' s'}, c'.At s' →
      Option.Rel (Agree c'.tape) ((handler fault).run s') ((handler' fault).run c')) :
    Option.Rel (Agree c.tape) ((tryCatch p handler).run s) ((tryCatch q handler').run c) := by
  rw [run_tryCatch, run_tryCatch]
  generalize p.run s = x at h ⊢
  generalize q.run c = y at h ⊢
  cases h with
  | none => exact .none
  | some hagree =>
      obtain @⟨result, s', c', hat, htape⟩ := hagree
      cases result with
      | error fault => exact htape ▸ hh fault hat
      | ok a => exact .some (.same hat htape)

theorem acceptIf_agrees (wanted : Token.Kind → Bool) (h : c.At s) :
    Option.Rel (Agree c.tape) ((Parse.acceptIf wanted).run s)
      ((Script.acceptIf wanted).onCursor.run c) := by
  show Option.Rel _ _ ((c.acceptIf wanted).bind _)
  cases hs : Ahead wanted s.rest with
  | false =>
      rw [run_acceptIf_none hs, h.acceptIf_none hs]
      exact .some (.same h rfl)
  | true =>
      cases hrest : s.rest with
      | nil => rw [hrest] at hs; exact absurd hs Bool.false_ne_true
      | cons t rest =>
          rw [hrest, ahead_cons] at hs
          rw [run_acceptIf_cons hrest hs, h.acceptIf_cons hrest hs]
          exact .some (.same (h.next hrest) rfl)

end Agreement

/-- On a cursor that is in a state, a script does what the parser does that it stands for. -/
theorem onCursor_agrees (script : Script α) {c : Cursor} {s : State} (h : c.At s) :
    Option.Rel (Agree c.tape) (script.read.run s) (script.onCursor.run c) := by
  induction script generalizing c s with
  | pure a => exact .some (.same h rfl)
  | bind first next ih ih' => exact Agree.bind (ih h) ih'
  | caught script handler ih ih' => exact Agree.caught (ih h) ih'
  | exhausted => exact .none
  | fail cause =>
      show Option.Rel _ _ (c.peek.bind _)
      rw [h.peek]
      exact .some (.same h rfl)
  | record fault => exact .some (.same (h.report fault) rfl)
  | recordHere cause =>
      show Option.Rel _ _ (c.peek.bind _)
      rw [h.peek]
      exact .some (.same (h.report ⟨cause, s.peek⟩) rfl)
  | freshId =>
      show Option.Rel _ _ (some (Except.ok c.nextId, _))
      rw [h.nextId]
      exact .some (.same ⟨h.tape, h.rest, h.last, rfl, h.faults⟩ rfl)
  | atEnd =>
      show Option.Rel _ _ (c.atEnd.bind _)
      rw [h.atEnd]
      exact .some (.same h rfl)
  | nextIs kind =>
      show Option.Rel _ _ ((c.check _).bind _)
      rw [h.check]
      exact .some (.same h rfl)
  | acceptIf wanted => exact acceptIf_agrees wanted h
  | skipBroken =>
      obtain ⟨c', hsynchronize, hat, htape⟩ := h.synchronize
      show Option.Rel _ _ (c.synchronize.bind _)
      rw [hsynchronize]
      exact .some (.same hat htape)

/-- The script has the parser's answer, and leaves the cursor in the parser's state. -/
theorem onCursor_of_read (script : Script α) {c : Cursor} {s s' : State}
    {result : Except Fault α} (h : c.At s) (hrun : script.read.run s = some (result, s')) :
    ∃ c', script.onCursor.run c = some (result, c') ∧ c'.At s' ∧ c'.tape = c.tape := by
  have hagrees := script.onCursor_agrees h
  rw [hrun] at hagrees
  generalize script.onCursor.run c = y at hagrees ⊢
  obtain ⟨hat, htape⟩ | _ := hagrees
  exact ⟨_, rfl, hat, htape⟩

/-- What the script does on the cursor the parser does in the state. -/
theorem read_of_onCursor (script : Script α) {c c' : Cursor} {s : State}
    {result : Except Fault α} (h : c.At s) (hrun : script.onCursor.run c = some (result, c')) :
    ∃ s', script.read.run s = some (result, s') ∧ c'.At s' ∧ c'.tape = c.tape := by
  have hagrees := script.onCursor_agrees h
  rw [hrun] at hagrees
  generalize script.read.run s = x at hagrees ⊢
  obtain ⟨hat, htape⟩ | _ := hagrees
  exact ⟨_, rfl, hat, htape⟩

end Script

/-! ## Phrase by phrase -/

/-- The parser is made of the operations. -/
def Scripted (p : Parse α) : Prop := ∃ script : Script α, script.read = p

section Rules

variable {p : Parse α}

theorem Scripted.pure (a : α) : Scripted (pure a : Parse α) := ⟨.pure a, rfl⟩

theorem Scripted.bind {k : α → Parse β} (hp : Scripted p) (hk : ∀ a, Scripted (k a)) :
    Scripted (p >>= k) := by
  obtain ⟨script, rfl⟩ := hp
  exact ⟨.bind script fun a => (hk a).choose,
    congrArg (script.read >>= ·) (funext fun a => (hk a).choose_spec)⟩

theorem Scripted.map (hp : Scripted p) (f : α → β) : Scripted (f <$> p) := by
  rw [← bind_pure_comp]
  exact hp.bind fun a => .pure (f a)

theorem Scripted.caught {handler : Fault → Parse α} (hp : Scripted p)
    (hh : ∀ fault, Scripted (handler fault)) : Scripted (tryCatch p handler) := by
  obtain ⟨script, rfl⟩ := hp
  exact ⟨.caught script fun fault => (hh fault).choose,
    congrArg (tryCatch script.read) (funext fun fault => (hh fault).choose_spec)⟩

theorem Scripted.exhausted : Scripted (exhausted : Parse α) := ⟨.exhausted, rfl⟩

theorem Scripted.fail (cause : Cause) : Scripted (fail cause : Parse α) := ⟨.fail cause, rfl⟩

theorem Scripted.record (fault : Fault) : Scripted (record fault) := ⟨.record fault, rfl⟩

theorem Scripted.freshId : Scripted freshId := ⟨.freshId, rfl⟩

theorem Scripted.nextIs (kind : Token.Kind) : Scripted (nextIs kind) := ⟨.nextIs kind, rfl⟩

/-- A choice by the next token. -/
theorem Scripted.choose {wanted : Token.Kind → Bool} {k : Option Token → Parse β}
    (hsome : ∀ t, Scripted (k (some t))) (hnone : Scripted (k none)) :
    Scripted (acceptIf wanted >>= k) := by
  have hwanted : Scripted (acceptIf wanted) := ⟨.acceptIf wanted, rfl⟩
  refine hwanted.bind fun found => ?_
  cases found with
  | none => exact hnone
  | some t => exact hsome t

theorem Scripted.expect (kind : Token.Kind) (cause : Cause) : Scripted (expect kind cause) :=
  .choose (fun t => .pure t) (.fail cause)

theorem Scripted.noting {c : Prop} [Decidable c] {cause : Cause} (hp : Scripted p) :
    Scripted (if c then Parse.recordHere cause >>= fun _ => p else p) := by
  have hnoted : Scripted (Parse.recordHere cause) := ⟨.recordHere cause, rfl⟩
  split
  · exact hnoted.bind fun _ => hp
  · exact hp

theorem Scripted.ite {c : Prop} [Decidable c] {q : Parse α} (hp : Scripted p) (hq : Scripted q) :
    Scripted (if c then p else q) := by
  split
  · exact hp
  · exact hq

end Rules

/-- With so much fuel every phrase is made of the operations. -/
structure Scripting (n : Nat) : Prop where
  expression : Scripted (expression n)
  level : ∀ l, Scripted (level n l)
  levelRest : ∀ l left, Scripted (levelRest n l left)
  operand : ∀ l, Scripted (operand n l)
  unary : Scripted (unary n)
  callRest : ∀ callee, Scripted (callRest n callee)
  arguments : Scripted (arguments n)
  argumentsFrom : ∀ count, Scripted (argumentsFrom n count)
  primary : Scripted (primary n)
  declaration : Scripted (declaration n)
  declared : Scripted (declared n)
  function : Scripted (function n)
  statement : Scripted (statement n)
  forStatement : Scripted (forStatement n)
  ifStatement : Scripted (ifStatement n)
  whileStatement : Scripted (whileStatement n)
  block : Scripted (block n)
  declarations : ∀ inBlock, Scripted (declarations n inBlock)

theorem assignTo_scripted (target : Expr) (equals : Token) (value : Expr) :
    Scripted (assignTo target equals value) := by
  cases target with
  | «variable» id name => exact Scripted.freshId.bind fun id => .pure (Expr.assign id name value)
  | _ => exact (Scripted.record _).bind fun _ => .pure _

theorem paramsFrom_scripted (n count : Nat) : Scripted (paramsFrom n count) := by
  induction n generalizing count with
  | zero => exact .exhausted
  | succ n ih =>
      rw [paramsFrom]
      exact .noting <| (Scripted.expect _ _).bind fun first =>
        .choose (fun _ => (ih _).bind fun rest => .pure (first :: rest)) (.pure [first])

section Steps

variable {n : Nat} (ih : Scripting n)
include ih

theorem expression_scripted : Scripted (expression (n + 1)) :=
  (ih.level _).bind fun target => .choose
    (fun equals => ih.expression.bind fun value => assignTo_scripted target equals value)
    (.pure target)

theorem levelRest_scripted (l : Level) (left : Expr) : Scripted (levelRest (n + 1) l left) :=
  .choose (fun _ => (ih.operand l).bind fun _ => ih.levelRest l _) (.pure left)

theorem operand_scripted (l : Level) : Scripted (operand (n + 1) l) := by
  rw [operand]
  cases l.tighter? with
  | none => exact ih.unary
  | some l => exact ih.level l

theorem unary_scripted : Scripted (unary (n + 1)) :=
  .choose (fun _ => ih.unary.bind fun _ => .pure _) (ih.primary.bind ih.callRest)

theorem callRest_scripted (callee : Expr) : Scripted (callRest (n + 1) callee) :=
  .choose
    (fun _ => ih.arguments.bind fun _ => (Scripted.expect _ _).bind fun _ => ih.callRest _)
    (.pure callee)

theorem arguments_scripted : Scripted (arguments (n + 1)) :=
  (Scripted.nextIs _).bind fun _ => .ite (.pure _) (ih.argumentsFrom 0)

theorem argumentsFrom_scripted (count : Nat) : Scripted (argumentsFrom (n + 1) count) := by
  rw [argumentsFrom]
  exact .noting <| ih.expression.bind fun first =>
    .choose (fun _ => (ih.argumentsFrom _).bind fun rest => .pure (first :: rest)) (.pure [first])

theorem primary_scripted : Scripted (primary (n + 1)) := by
  refine .choose (fun t => ?_) (.fail _)
  dsimp only
  split
  · exact .pure _
  · exact .ite (Scripted.freshId.bind fun _ => .pure _) <|
      ih.expression.bind fun _ => (Scripted.expect _ _).bind fun _ => .pure _

theorem expressionUnless_scripted (kind : Token.Kind) : Scripted (expressionUnless n kind) :=
  (Scripted.nextIs kind).bind fun _ => .ite (.pure none) (ih.expression.bind fun _ => .pure _)

theorem varDeclaration_scripted : Scripted (varDeclaration n) := by
  have hrest (name : Token) (initializer : Option Expr) : Scripted
      (expect .semicolon .expectSemicolonAfterDeclaration >>= fun _ =>
        pure (Stmt.var name initializer)) :=
    (Scripted.expect _ _).bind fun _ => .pure _
  exact (Scripted.expect _ _).bind fun name =>
    .choose (fun _ => (ih.expression.map some).bind (hrest name)) (hrest name none)

theorem expressionStatement_scripted : Scripted (expressionStatement n) :=
  ih.expression.bind fun _ => (Scripted.expect _ _).bind fun _ => .pure _

theorem printStatement_scripted : Scripted (printStatement n) :=
  ih.expression.bind fun _ => (Scripted.expect _ _).bind fun _ => .pure _

theorem returnStatement_scripted (keyword : Token) : Scripted (returnStatement n keyword) :=
  (expressionUnless_scripted ih _).bind fun _ => (Scripted.expect _ _).bind fun _ => .pure _

theorem forInitializer_scripted : Scripted (forInitializer n) :=
  .choose (fun _ => .pure none) <|
    .choose (fun _ => (varDeclaration_scripted ih).map some)
      ((expressionStatement_scripted ih).map some)

theorem declaration_scripted : Scripted (declaration (n + 1)) := by
  have hskip : Scripted skipBroken := ⟨.skipBroken, rfl⟩
  exact (ih.declared.map some).caught fun fault =>
    (Scripted.record fault).bind fun _ => hskip.bind fun _ => .pure none

theorem declared_scripted : Scripted (declared (n + 1)) :=
  .choose (fun _ => ih.function) (.choose (fun _ => varDeclaration_scripted ih) ih.statement)

theorem function_scripted : Scripted (function (n + 1)) := by
  have hrest (name : Token) (params : List Token) : Scripted
      (expect .rightParen .expectParenAfterParameters >>= fun _ =>
        expect .leftBrace .expectBraceBeforeBody >>= fun _ =>
          block n >>= fun body => pure (Stmt.function name params body)) :=
    (Scripted.expect _ _).bind fun _ => (Scripted.expect _ _).bind fun _ =>
      ih.block.bind fun _ => .pure _
  exact (Scripted.expect _ _).bind fun name => (Scripted.expect _ _).bind fun _ =>
    (Scripted.nextIs _).bind fun _ =>
      .ite (hrest name []) ((paramsFrom_scripted n 0).bind (hrest name))

theorem statement_scripted : Scripted (statement (n + 1)) := by
  refine .choose (fun keyword => ?_) (expressionStatement_scripted ih)
  dsimp only
  split
  · exact ih.forStatement
  · exact ih.ifStatement
  · exact printStatement_scripted ih
  · exact returnStatement_scripted ih keyword
  · exact ih.whileStatement
  · exact ih.block.map Stmt.block

theorem forStatement_scripted : Scripted (forStatement (n + 1)) :=
  (Scripted.expect _ _).bind fun _ => (forInitializer_scripted ih).bind fun _ =>
    (expressionUnless_scripted ih _).bind fun _ => (Scripted.expect _ _).bind fun _ =>
      (expressionUnless_scripted ih _).bind fun _ => (Scripted.expect _ _).bind fun _ =>
        ih.statement.bind fun _ => .pure _

theorem ifStatement_scripted : Scripted (ifStatement (n + 1)) :=
  (Scripted.expect _ _).bind fun _ => ih.expression.bind fun _ =>
    (Scripted.expect _ _).bind fun _ => ih.statement.bind fun _ =>
      .choose (fun _ => (ih.statement.map some).bind fun _ => .pure _) (.pure _)

theorem whileStatement_scripted : Scripted (whileStatement (n + 1)) :=
  (Scripted.expect _ _).bind fun _ => ih.expression.bind fun _ =>
    (Scripted.expect _ _).bind fun _ => ih.statement.bind fun _ => .pure _

theorem block_scripted : Scripted (block (n + 1)) :=
  (ih.declarations true).bind fun _ => (Scripted.expect _ _).bind fun _ => .pure _

theorem declarations_scripted (inBlock : Bool) : Scripted (declarations (n + 1) inBlock) := by
  have hatEnd : Scripted atEnd := ⟨.atEnd, rfl⟩
  rw [declarations]
  refine hatEnd.bind fun _ => (Scripted.nextIs _).bind fun _ => .ite (.pure []) ?_
  exact ih.declaration.bind fun first => (ih.declarations inBlock).bind fun rest => .pure _

end Steps

theorem scripting (n : Nat) : Scripting n := by
  induction n with
  | zero =>
      exact ⟨.exhausted, fun _ => .exhausted, fun _ _ => .exhausted, fun _ => .exhausted,
        .exhausted, fun _ => .exhausted, .exhausted, fun _ => .exhausted, .exhausted, .exhausted,
        .exhausted, .exhausted, .exhausted, .exhausted, .exhausted, .exhausted, .exhausted,
        fun _ => .exhausted⟩
  | succ n ih =>
      exact ⟨expression_scripted ih, fun l => (ih.operand l).bind (ih.levelRest l),
        levelRest_scripted ih, operand_scripted ih, unary_scripted ih, callRest_scripted ih,
        arguments_scripted ih, argumentsFrom_scripted ih, primary_scripted ih,
        declaration_scripted ih, declared_scripted ih, function_scripted ih, statement_scripted ih,
        forStatement_scripted ih, ifStatement_scripted ih, whileStatement_scripted ih,
        block_scripted ih, declarations_scripted ih⟩

end Parse

end Lox
