import Lox.Proofs.Parser.Run

/-!
# What every reading keeps

There are few things that a parser does to its state: it takes a token, it gives out a
number, it notes a fault where it stands, it passes over the remains of a broken statement,
and it finds behind the value of an assignment that there is nothing to assign to.
`Parse.Kept` asks of a relation between the state before and the one after that it holds
over each of them and over one reading behind another. Then it holds over every reading,
of whatever phrase, and whether it ends in a tree or throws.

Only the last of these faults is not reported where the parser stands: its token is the
`=`, which is behind the parser with the whole value. It is never thrown.
-/

namespace Lox.Parse

/-- A relation between states before and after holds over all that a parser can do. -/
structure Kept (R : State → State → Prop) : Prop where
  refl : ∀ s, R s s
  trans : ∀ {s₁ s₂ s₃}, R s₁ s₂ → R s₂ s₃ → R s₁ s₃
  take : ∀ {s : State} {t rest}, s.rest = t :: rest → R s { s with rest }
  number : ∀ s : State, R s { s with nextId := s.nextId + 1 }
  note : ∀ (s : State) {cause}, cause ≠ .invalidAssignmentTarget →
    R s { s with faults := s.faults ++ [⟨cause, s.peek⟩] }
  skip : ∀ s : State, R s { s with rest := recover s.rest }
  /-- What stands before the `=` has been read, and the value has been read behind it. -/
  misassign : ∀ {n : Nat} {s s' : State} {equals : Token} {rest : List Token} {value : Expr},
    s.rest = equals :: rest → (expression n).run { s with rest } = some (.ok value, s') →
    R { s with rest } s' →
    R s { s' with faults := s'.faults ++ [⟨.invalidAssignmentTarget, equals⟩] }

variable {α β : Type} {R : State → State → Prop}

/-- The relation holds between the state before the reading and the one behind it, and what
is thrown is reported at the token where the parser then stands. -/
def Keeps (R : State → State → Prop) (p : Parse α) : Prop :=
  ∀ s result s', p.run s = some (result, s') →
    R s s' ∧ ∀ fault, result = .error fault →
      ∃ cause, cause ≠ .invalidAssignmentTarget ∧ fault = ⟨cause, s'.peek⟩

/-! ## Rules -/

section Rules

theorem Keeps.exhausted : Keeps R (exhausted : Parse α) := fun _ _ _ h => nomatch h

/-- A parser that always answers, and with a result. -/
theorem Keeps.of_run {p : Parse α} {a : State → α} {next : State → State}
    (hp : ∀ s, p.run s = some (.ok (a s), next s)) (hR : ∀ s, R s (next s)) : Keeps R p := by
  intro s result s' h
  obtain ⟨rfl, rfl⟩ := Prod.mk.inj (Option.some.inj ((hp s).symm.trans h))
  exact ⟨hR s, fun _ h => nomatch h⟩

variable (hR : Kept R)
include hR

theorem Keeps.pure (a : α) : Keeps R (pure a : Parse α) :=
  .of_run (fun _ => rfl) hR.refl

theorem Keeps.fail {cause : Cause} (hc : cause ≠ .invalidAssignmentTarget) :
    Keeps R (fail cause : Parse α) := by
  intro s result s' h
  cases h
  exact ⟨hR.refl s, fun fault hf => ⟨cause, hc, (Except.error.inj hf).symm⟩⟩

theorem Keeps.bind {p : Parse α} {k : α → Parse β} (hp : Keeps R p) (hk : ∀ a, Keeps R (k a)) :
    Keeps R (p >>= k) := by
  intro s result s' h
  rw [run_bind] at h
  rcases hs : p.run s with _ | ⟨fault | a, s₁⟩ <;> rw [hs] at h
  · cases h
  · cases h
    have hthrown := hp s _ _ hs
    exact ⟨hthrown.1, fun _ hf => hthrown.2 _ (congrArg Except.error (Except.error.inj hf))⟩
  · have hthen := hk a s₁ result s' h
    exact ⟨hR.trans (hp s _ _ hs).1 hthen.1, hthen.2⟩

theorem Keeps.map {p : Parse α} (hp : Keeps R p) (f : α → β) : Keeps R (f <$> p) := by
  rw [← bind_pure_comp]
  exact hp.bind hR fun _ => .pure hR _

theorem Keeps.freshId : Keeps R freshId := .of_run run_freshId hR.number

/-- A fault may be noted on the way. -/
theorem Keeps.noting {c : Prop} [Decidable c] {cause : Cause}
    (hc : cause ≠ .invalidAssignmentTarget) {p : Parse α} (hp : Keeps R p) :
    Keeps R (if c then Parse.recordHere cause >>= fun _ => p else p) := by
  split
  · exact (Keeps.of_run (run_recordHere cause) fun s => hR.note s hc).bind hR fun _ => hp
  · exact hp

theorem Keeps.nextIs (kind : Token.Kind) : Keeps R (nextIs kind) :=
  .of_run (fun s => run_nextIs kind s) hR.refl

theorem Keeps.acceptIf (wanted : Token.Kind → Bool) : Keeps R (acceptIf wanted) := by
  intro s result s' h
  cases hs : Ahead wanted s.rest with
  | false =>
      rw [run_acceptIf_none hs] at h
      cases h
      exact ⟨hR.refl s, fun _ h => nomatch h⟩
  | true =>
      obtain ⟨_ | ⟨t, rest⟩, last, i, faults⟩ := s
      · cases hs
      · rw [run_acceptIf_cons rfl hs] at h
        cases h
        exact ⟨hR.take rfl, fun _ h => nomatch h⟩

theorem Keeps.accept (kind : Token.Kind) : Keeps R (accept kind) := .acceptIf hR _

theorem Keeps.expect (kind : Token.Kind) {cause : Cause}
    (hc : cause ≠ .invalidAssignmentTarget) : Keeps R (expect kind cause) := by
  refine (Keeps.accept hR kind).bind hR fun found => ?_
  cases found with
  | some t => exact .pure hR t
  | none => exact .fail hR hc

end Rules

/-! ## Phrase by phrase -/

/-- With so much fuel every phrase keeps the relation. -/
structure Keeping (R : State → State → Prop) (n : Nat) : Prop where
  expression : Keeps R (expression n)
  level : ∀ l, Keeps R (level n l)
  levelRest : ∀ l left, Keeps R (levelRest n l left)
  operand : ∀ l, Keeps R (operand n l)
  unary : Keeps R (unary n)
  callRest : ∀ callee, Keeps R (callRest n callee)
  arguments : Keeps R (arguments n)
  argumentsFrom : ∀ count, Keeps R (argumentsFrom n count)
  primary : Keeps R (primary n)
  paramsFrom : ∀ count, Keeps R (paramsFrom n count)
  declaration : Keeps R (declaration n)
  declared : Keeps R (declared n)
  function : Keeps R (function n)
  statement : Keeps R (statement n)
  forStatement : Keeps R (forStatement n)
  ifStatement : Keeps R (ifStatement n)
  whileStatement : Keeps R (whileStatement n)
  block : Keeps R (block n)
  declarations : ∀ inBlock, Keeps R (declarations n inBlock)

/-- Behind the value a number is given out, or there is nothing to assign to. -/
theorem run_assignTo (target : Expr) (equals : Token) (value : Expr) (s : State) :
    (∃ e, (assignTo target equals value).run s =
        some (.ok e, { s with nextId := s.nextId + 1 })) ∨
      (assignTo target equals value).run s = some (.ok target,
        { s with faults := s.faults ++ [⟨.invalidAssignmentTarget, equals⟩] }) := by
  cases target with
  | «variable» id name => exact .inl ⟨_, rfl⟩
  | _ => exact .inr rfl

section Steps

variable (hR : Kept R) {n : Nat} (ih : Keeping R n)
include hR ih

/-- The value of an assignment, and what is found about its target behind it. -/
theorem assigned_keeps {s s' : State} {equals : Token} {rest : List Token} {target : Expr}
    {result : Except Fault Expr} (hs : s.rest = equals :: rest)
    (h : (do let value ← expression n; assignTo target equals value).run { s with rest } =
      some (result, s')) :
    R s s' ∧ ∀ fault, result = .error fault →
      ∃ cause, cause ≠ .invalidAssignmentTarget ∧ fault = ⟨cause, s'.peek⟩ := by
  rw [run_bind] at h
  rcases he : (expression n).run { s with rest } with _ | ⟨fault | value, s₁⟩ <;> rw [he] at h
  · cases h
  · cases h
    have hthrown := ih.expression _ _ _ he
    exact ⟨hR.trans (hR.take hs) hthrown.1,
      fun _ hf => hthrown.2 _ (congrArg Except.error (Except.error.inj hf))⟩
  · have hvalue := (ih.expression _ _ _ he).1
    rcases run_assignTo target equals value s₁ with ⟨e, hto⟩ | hto
    · obtain ⟨rfl, rfl⟩ := Prod.mk.inj (Option.some.inj (hto.symm.trans h))
      exact ⟨hR.trans (hR.take hs) (hR.trans hvalue (hR.number s₁)), fun _ h => nomatch h⟩
    · obtain ⟨rfl, rfl⟩ := Prod.mk.inj (Option.some.inj (hto.symm.trans h))
      exact ⟨hR.misassign hs he hvalue, fun _ h => nomatch h⟩

theorem expression_keeps : Keeps R (expression (n + 1)) := by
  refine (ih.level _).bind hR fun target => ?_
  intro s result s' h
  rw [run_bind, accept] at h
  cases hs : Ahead (· = .equal) s.rest with
  | false =>
      rw [run_acceptIf_none hs] at h
      cases h
      exact ⟨hR.refl s, fun _ h => nomatch h⟩
  | true =>
      rcases hrest : s.rest with _ | ⟨equals, rest⟩
      · rw [hrest] at hs
        cases hs
      · rw [hrest] at hs
        rw [run_acceptIf_cons hrest hs] at h
        exact assigned_keeps hR ih hrest h

theorem level_keeps (l : Level) : Keeps R (level (n + 1) l) :=
  (ih.operand l).bind hR fun left => ih.levelRest l left

theorem levelRest_keeps (l : Level) (left : Expr) : Keeps R (levelRest (n + 1) l left) := by
  refine (Keeps.acceptIf hR _).bind hR fun found => ?_
  cases found with
  | none => exact .pure hR left
  | some operator => exact (ih.operand l).bind hR fun _ => ih.levelRest l _

omit hR in
theorem operand_keeps (l : Level) : Keeps R (operand (n + 1) l) := by
  rw [operand]
  cases l.tighter? with
  | none => exact ih.unary
  | some l => exact ih.level l

theorem unary_keeps : Keeps R (unary (n + 1)) := by
  refine (Keeps.acceptIf hR _).bind hR fun found => ?_
  cases found with
  | none => exact ih.primary.bind hR fun callee => ih.callRest callee
  | some operator => exact ih.unary.bind hR fun _ => .pure hR _

theorem callRest_keeps (callee : Expr) : Keeps R (callRest (n + 1) callee) := by
  refine (Keeps.accept hR _).bind hR fun found => ?_
  cases found with
  | none => exact .pure hR callee
  | some _ =>
      exact ih.arguments.bind hR fun _ => (Keeps.expect hR _ (by nofun)).bind hR fun _ =>
        ih.callRest _

theorem arguments_keeps : Keeps R (arguments (n + 1)) := by
  refine (Keeps.nextIs hR _).bind hR fun closed => ?_
  split
  · exact .pure hR []
  · exact ih.argumentsFrom 0

theorem argumentsFrom_keeps (count : Nat) : Keeps R (argumentsFrom (n + 1) count) := by
  rw [argumentsFrom]
  refine .noting hR (by nofun) <| ih.expression.bind hR fun first =>
    (Keeps.accept hR _).bind hR fun found => ?_
  cases found with
  | none => exact .pure hR [first]
  | some _ => exact (ih.argumentsFrom _).bind hR fun _ => .pure hR _

theorem primary_keeps : Keeps R (primary (n + 1)) := by
  refine (Keeps.acceptIf hR _).bind hR fun found => ?_
  cases found with
  | none => exact .fail hR (by nofun)
  | some t =>
      dsimp only
      split
      · exact .pure hR _
      split
      · exact (Keeps.freshId hR).bind hR fun _ => .pure hR _
      · exact ih.expression.bind hR fun _ => (Keeps.expect hR _ (by nofun)).bind hR fun _ =>
          .pure hR _

theorem expressionUnless_keeps (kind : Token.Kind) : Keeps R (expressionUnless n kind) := by
  refine (Keeps.nextIs hR _).bind hR fun found => ?_
  split
  · exact .pure hR none
  · exact ih.expression.bind hR fun _ => .pure hR _

theorem varDeclaration_keeps : Keeps R (varDeclaration n) := by
  refine (Keeps.expect hR _ (by nofun)).bind hR fun name => ?_
  refine (Keeps.accept hR _).bind hR fun found => ?_
  have hrest (initializer : Option Expr) : Keeps R
      (expect .semicolon .expectSemicolonAfterDeclaration >>= fun _ =>
        pure (Stmt.var name initializer)) :=
    (Keeps.expect hR _ (by nofun)).bind hR fun _ => .pure hR _
  cases found with
  | none => exact hrest none
  | some _ => exact (ih.expression.map hR some).bind hR hrest

theorem expressionStatement_keeps : Keeps R (expressionStatement n) :=
  ih.expression.bind hR fun _ => (Keeps.expect hR _ (by nofun)).bind hR fun _ => .pure hR _

theorem printStatement_keeps : Keeps R (printStatement n) :=
  ih.expression.bind hR fun _ => (Keeps.expect hR _ (by nofun)).bind hR fun _ => .pure hR _

theorem returnStatement_keeps (keyword : Token) : Keeps R (returnStatement n keyword) :=
  (expressionUnless_keeps hR ih _).bind hR fun _ => (Keeps.expect hR _ (by nofun)).bind hR fun _ =>
    .pure hR _

theorem forInitializer_keeps : Keeps R (forInitializer n) := by
  refine (Keeps.accept hR _).bind hR fun found => ?_
  cases found with
  | some _ => exact .pure hR none
  | none =>
      refine (Keeps.accept hR _).bind hR fun found => ?_
      cases found with
      | some _ => exact (varDeclaration_keeps hR ih).map hR some
      | none => exact (expressionStatement_keeps hR ih).map hR some

/-- A fault that is caught is one that can be noted there. -/
theorem declaration_keeps : Keeps R (declaration (n + 1)) := by
  intro s result s' h
  rw [declaration, run_tryCatch] at h
  have hdeclared := (ih.declared.map hR some) s
  rcases hs : (some <$> declared n : Parse (Option Stmt)).run s with _ | ⟨fault | a, s₁⟩ <;>
    rw [hs] at h
  · cases h
  · obtain ⟨hlead, hthrown⟩ := hdeclared _ _ hs
    obtain ⟨cause, hc, rfl⟩ := hthrown fault rfl
    cases h
    exact ⟨hR.trans hlead (hR.trans (hR.note s₁ hc) (hR.skip _)), fun _ h => nomatch h⟩
  · cases h
    exact ⟨(hdeclared _ _ hs).1, fun _ h => nomatch h⟩

theorem declared_keeps : Keeps R (declared (n + 1)) := by
  refine (Keeps.accept hR _).bind hR fun found => ?_
  cases found with
  | some _ => exact ih.function
  | none =>
      refine (Keeps.accept hR _).bind hR fun found => ?_
      cases found with
      | some _ => exact varDeclaration_keeps hR ih
      | none => exact ih.statement

theorem paramsFrom_keeps (count : Nat) : Keeps R (paramsFrom (n + 1) count) := by
  rw [paramsFrom]
  refine .noting hR (by nofun) <| (Keeps.expect hR _ (by nofun)).bind hR fun first =>
    (Keeps.accept hR _).bind hR fun found => ?_
  cases found with
  | none => exact .pure hR [first]
  | some _ => exact (ih.paramsFrom _).bind hR fun _ => .pure hR _

theorem function_keeps : Keeps R (function (n + 1)) := by
  refine (Keeps.expect hR _ (by nofun)).bind hR fun name => ?_
  refine (Keeps.expect hR _ (by nofun)).bind hR fun _ => ?_
  have hrest (params : List Token) : Keeps R
      (expect .rightParen .expectParenAfterParameters >>= fun _ =>
        expect .leftBrace .expectBraceBeforeBody >>= fun _ =>
          block n >>= fun body => pure (Stmt.function name params body)) :=
    (Keeps.expect hR _ (by nofun)).bind hR fun _ => (Keeps.expect hR _ (by nofun)).bind hR fun _ =>
      ih.block.bind hR fun _ => .pure hR _
  refine (Keeps.nextIs hR _).bind hR fun closed => ?_
  dsimp only
  split
  · exact hrest []
  · exact (ih.paramsFrom 0).bind hR hrest

theorem statement_keeps : Keeps R (statement (n + 1)) := by
  refine (Keeps.acceptIf hR _).bind hR fun found => ?_
  cases found with
  | none => exact expressionStatement_keeps hR ih
  | some keyword =>
      dsimp only
      split
      · exact ih.forStatement
      · exact ih.ifStatement
      · exact printStatement_keeps hR ih
      · exact returnStatement_keeps hR ih keyword
      · exact ih.whileStatement
      · exact ih.block.map hR Stmt.block

theorem forStatement_keeps : Keeps R (forStatement (n + 1)) := by
  refine (Keeps.expect hR _ (by nofun)).bind hR fun _ => ?_
  refine (forInitializer_keeps hR ih).bind hR fun _ => ?_
  refine (expressionUnless_keeps hR ih _).bind hR fun _ => ?_
  refine (Keeps.expect hR _ (by nofun)).bind hR fun _ => ?_
  refine (expressionUnless_keeps hR ih _).bind hR fun _ => ?_
  exact (Keeps.expect hR _ (by nofun)).bind hR fun _ => ih.statement.bind hR fun _ => .pure hR _

theorem ifStatement_keeps : Keeps R (ifStatement (n + 1)) := by
  refine (Keeps.expect hR _ (by nofun)).bind hR fun _ => ih.expression.bind hR fun _ => ?_
  refine (Keeps.expect hR _ (by nofun)).bind hR fun _ => ih.statement.bind hR fun _ => ?_
  refine (Keeps.accept hR _).bind hR fun found => ?_
  cases found with
  | none => exact .pure hR _
  | some _ => exact (ih.statement.map hR some).bind hR fun _ => .pure hR _

theorem whileStatement_keeps : Keeps R (whileStatement (n + 1)) := by
  refine (Keeps.expect hR _ (by nofun)).bind hR fun _ => ih.expression.bind hR fun _ => ?_
  exact (Keeps.expect hR _ (by nofun)).bind hR fun _ => ih.statement.bind hR fun _ => .pure hR _

theorem block_keeps : Keeps R (block (n + 1)) :=
  (ih.declarations true).bind hR fun _ => (Keeps.expect hR _ (by nofun)).bind hR fun _ => .pure hR _

theorem declarations_keeps (inBlock : Bool) : Keeps R (declarations (n + 1) inBlock) := by
  have hmore : Keeps R (do
      let first ← declaration n
      let rest ← declarations n inBlock
      return first.toList ++ rest) :=
    ih.declaration.bind hR fun _ => (ih.declarations inBlock).bind hR fun _ => .pure hR _
  intro s result s' h
  rw [run_declarations] at h
  split at h
  · cases h
    exact ⟨hR.refl s, fun _ h => nomatch h⟩
  · exact hmore s result s' h

end Steps

theorem keeping (hR : Kept R) (n : Nat) : Keeping R n := by
  induction n with
  | zero =>
      exact ⟨.exhausted, fun _ => .exhausted, fun _ _ => .exhausted, fun _ => .exhausted,
        .exhausted, fun _ => .exhausted, .exhausted, fun _ => .exhausted, .exhausted,
        fun _ => .exhausted, .exhausted, .exhausted, .exhausted, .exhausted, .exhausted, .exhausted,
        .exhausted, .exhausted, fun _ => .exhausted⟩
  | succ n ih =>
      exact ⟨expression_keeps hR ih, level_keeps hR ih, levelRest_keeps hR ih, operand_keeps ih,
        unary_keeps hR ih, callRest_keeps hR ih, arguments_keeps hR ih, argumentsFrom_keeps hR ih,
        primary_keeps hR ih, paramsFrom_keeps hR ih, declaration_keeps hR ih, declared_keeps hR ih,
        function_keeps hR ih, statement_keeps hR ih, forStatement_keeps hR ih,
        ifStatement_keeps hR ih, whileStatement_keeps hR ih, block_keeps hR ih,
        declarations_keeps hR ih⟩

end Lox.Parse
