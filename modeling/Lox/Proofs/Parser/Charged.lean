import Lox.Proofs.Parser.InTurn

/-!
# Every fault is charged to a token

The balance of a state is the number of its faults and unread tokens together. To take a token
lowers it by one and to record a fault raises it by one, so a parser that never leaves it higher
has a token of its own for each of its faults.

A fault that is recorded on the way is charged to a token that is read there: an assignment
has its `=`, and an argument or a parameter too many has its own first token. A fault that is
thrown is charged where it is caught. Either the tokens read until then pay for it, or nothing has
happened yet, and then the token is the one that recovery passes over. `Pays` keeps the two apart.
A phrase that throws may owe a token to the phrase around it: behind a block without its closing
brace there is nothing left that recovery could pass over, and what pays is the opening brace.
-/

namespace Lox

namespace Parse

variable {α β : Type}

/-- The faults found and the tokens left. -/
def State.balance (s : State) : Int := s.faults.length + s.rest.length

/-- With a result a parser has lowered the balance by `c`, which is what it has to spare. When it
throws and the state is no longer what it was, the fault can be recorded at a debt of `d`. -/
def Pays (c d : Int) (p : Parse α) : Prop :=
  ∀ s result s', p.run s = some (result, s') → match result with
    | .ok _ => s'.balance + c ≤ s.balance
    | .error _ => s' = s ∨ s'.balance + 1 ≤ s.balance + d

section Rules

variable {c d a u b v : Int}

/-- A weaker contract. Where the numbers are known, they are compared by computation. -/
theorem Pays.mono {p : Parse α} (hp : Pays a u p) (hle : decide (c ≤ a ∧ u ≤ d) = true) :
    Pays c d p := by
  obtain ⟨hc, hd⟩ := of_decide_eq_true hle
  intro s result s' h
  have hpaid := hp s result s' h
  cases result with
  | ok x => exact Int.le_trans (Int.add_le_add_left hc _) hpaid
  | error fault => exact hpaid.imp_right fun hb => Int.le_trans hb (Int.add_le_add_left hd _)

theorem Pays.exhausted : Pays c d (exhausted : Parse α) := fun _ _ _ h => nomatch h

theorem Pays.fail (cause : Cause) : Pays 1 0 (fail cause : Parse α) := by
  intro s result s' h
  cases h
  exact .inl rfl

theorem Pays.pure (x : α) : Pays 0 0 (pure x : Parse α) := by
  intro s result s' h
  cases h
  exact Int.le_of_eq (Int.add_zero _)

/-- What the first parser has to spare pays for what the second one owes, and for the fault itself
if the second one throws at once. -/
theorem Pays.bind {p : Parse α} {k : α → Parse β} (hp : Pays a u p) (hk : ∀ x, Pays b v (k x)) :
    Pays (a + b) (max u (max v 1 - a)) (p >>= k) := by
  intro s result s' h
  rw [run_bind] at h
  rcases hrun : p.run s with _ | ⟨fault | x, s₁⟩ <;> rw [hrun] at h
  · cases h
  · cases h
    exact hp.mono (decide_eq_true ⟨Int.le_refl a, Int.le_max_left ..⟩) s _ _ hrun
  · have hfirst : s₁.balance + a ≤ s.balance := hp s _ _ hrun
    have hsecond := hk x s₁ result s' h
    cases result with
    | ok y =>
        show s'.balance + (a + b) ≤ s.balance
        have hb : s'.balance + b ≤ s₁.balance := hsecond
        omega
    | error fault =>
        refine .inr ?_
        rcases hsecond with rfl | hb <;> omega

theorem Pays.map {p : Parse α} (hp : Pays c d p) (f : α → β) : Pays c d (f <$> p) := by
  intro s result s' h
  rw [← bind_pure_comp, run_bind] at h
  rcases hrun : p.run s with _ | ⟨fault | x, s₁⟩ <;> rw [hrun] at h <;> cases h
  · exact hp s _ _ hrun
  · exact hp s _ _ hrun

theorem Pays.record (fault : Fault) : Pays (-1) 0 (record fault) := by
  intro s result s' h
  cases h
  show ((s.faults ++ [fault]).length : Int) + s.rest.length + -1 ≤ s.faults.length + s.rest.length
  rw [List.length_append, List.length_singleton]
  omega

theorem Pays.freshId : Pays 0 0 freshId := by
  intro s result s' h
  cases h
  exact Int.le_of_eq (Int.add_zero _)

/-- A look at the next token leaves everything as it is. -/
theorem Pays.test {kind : Token.Kind} {k : Bool → Parse β} (hk : ∀ b, Pays c d (k b)) :
    Pays c d (nextIs kind >>= k) := by
  intro s result s' h
  rw [run_bind, run_nextIs] at h
  exact hk _ s result s' h

/-- A choice by the next token: if it is taken, it pays. -/
theorem Pays.choose {wanted : Token.Kind → Bool} {k : Option Token → Parse β}
    (hsome : ∀ t, Pays a u (k (some t))) (hnone : Pays b v (k none)) :
    Pays (min (a + 1) b) (max 0 (max (u - 1) v)) (acceptIf wanted >>= k) := by
  intro s result s' h
  rw [run_bind] at h
  cases hs : Ahead wanted s.rest with
  | false =>
      rw [run_acceptIf_none hs] at h
      exact hnone.mono (decide_eq_true (by omega)) s result s' h
  | true =>
      obtain ⟨_ | ⟨t, rest⟩, last, i, faults⟩ := s
      · cases hs
      · rw [run_acceptIf_cons rfl hs] at h
        have htaken : State.balance ⟨t :: rest, last, i, faults⟩ =
            State.balance ⟨rest, last, i, faults⟩ + 1 := by
          show (faults.length : Int) + (t :: rest).length = faults.length + rest.length + 1
          rw [List.length_cons]
          omega
        have hrest := hsome t ⟨rest, last, i, faults⟩ result s' h
        cases result with
        | ok y =>
            show s'.balance + min (a + 1) b ≤ _
            have hpaid : s'.balance + a ≤ State.balance ⟨rest, last, i, faults⟩ := hrest
            omega
        | error fault =>
            refine .inr ?_
            rcases hrest with rfl | hpaid <;> omega

theorem Pays.expect (kind : Token.Kind) (cause : Cause) : Pays 1 0 (expect kind cause) :=
  .mono (Pays.choose (fun t => .pure t) (.fail cause)) rfl

/-- A fault that is noted on the way is owed until a token is taken. -/
theorem Pays.noting {e : Prop} [Decidable e] {cause : Cause} {p : Parse α} (hp : Pays 1 0 p) :
    Pays 0 2 (if e then Parse.recordHere cause >>= fun _ => p else p) := by
  split
  · have hnoted : Pays (-1) 0 (Parse.recordHere cause) := fun s => Pays.record ⟨cause, s.peek⟩ s
    exact .mono (hnoted.bind fun _ => hp) rfl
  · exact hp.mono rfl

end Rules

/-! ## Phrase by phrase -/

/-- With so much fuel every phrase pays for its faults. -/
structure Paying (n : Nat) : Prop where
  expression : Pays 1 0 (expression n)
  level : ∀ l, Pays 1 0 (level n l)
  levelRest : ∀ l left, Pays 0 0 (levelRest n l left)
  operand : ∀ l, Pays 1 0 (operand n l)
  unary : Pays 1 0 (unary n)
  callRest : ∀ callee, Pays 0 1 (callRest n callee)
  arguments : Pays 0 2 (arguments n)
  argumentsFrom : ∀ count, Pays 0 2 (argumentsFrom n count)
  primary : Pays 1 0 (primary n)
  declaration : ∀ s result s', s.rest ≠ [] → (declaration n).run s = some (result, s') →
    s'.balance ≤ s.balance
  declared : Pays 1 0 (declared n)
  function : Pays 1 0 (function n)
  statement : Pays 1 0 (statement n)
  forStatement : Pays 1 0 (forStatement n)
  ifStatement : Pays 1 0 (ifStatement n)
  whileStatement : Pays 1 0 (whileStatement n)
  block : Pays 1 1 (block n)
  declarations : ∀ inBlock, Pays 0 0 (declarations n inBlock)

/-- What cannot be assigned to is a fault, and the value has been read. -/
theorem assignTo_pays (target : Expr) (equals : Token) (value : Expr) :
    Pays (-1) 2 (assignTo target equals value) := by
  have hfault : Pays (-1) 2 (do record ⟨.invalidAssignmentTarget, equals⟩; return target) :=
    .mono ((Pays.record _).bind fun _ => .pure target) rfl
  cases target with
  | «variable» id name =>
      exact .mono (Pays.freshId.bind fun id => .pure (Expr.assign id name value)) rfl
  | _ => exact hfault

theorem paramsFrom_pays (n count : Nat) : Pays 0 2 (paramsFrom n count) := by
  induction n generalizing count with
  | zero => exact .exhausted
  | succ n ih =>
      rw [paramsFrom]
      exact .noting <| .mono ((Pays.expect _ _).bind fun first =>
        .choose (fun _ => (ih _).bind fun rest => .pure (first :: rest)) (.pure [first])) rfl

section Steps

variable {n : Nat} (ih : Paying n)
include ih

theorem expression_pays : Pays 1 0 (expression (n + 1)) :=
  .mono ((ih.level _).bind fun target =>
    .choose (fun equals => ih.expression.bind fun value => assignTo_pays target equals value)
      (.pure target)) rfl

theorem level_pays (l : Level) : Pays 1 0 (level (n + 1) l) :=
  .mono ((ih.operand l).bind fun left => ih.levelRest l left) rfl

theorem levelRest_pays (l : Level) (left : Expr) : Pays 0 0 (levelRest (n + 1) l left) :=
  .mono (.choose (fun _ => (ih.operand l).bind fun _ => ih.levelRest l _) (.pure left)) rfl

theorem operand_pays (l : Level) : Pays 1 0 (operand (n + 1) l) := by
  rw [operand]
  cases l.tighter? with
  | none => exact ih.unary
  | some l => exact ih.level l

theorem unary_pays : Pays 1 0 (unary (n + 1)) :=
  .mono (.choose (fun _ => ih.unary.bind fun _ => .pure _)
    (ih.primary.bind fun callee => ih.callRest callee)) rfl

theorem callRest_pays (callee : Expr) : Pays 0 1 (callRest (n + 1) callee) :=
  .mono (.choose
    (fun _ => ih.arguments.bind fun _ => (Pays.expect _ _).bind fun _ => ih.callRest _)
    (.pure callee)) rfl

theorem arguments_pay : Pays 0 2 (arguments (n + 1)) := by
  refine .test fun closed => ?_
  split
  · exact .mono (Pays.pure _) rfl
  · exact ih.argumentsFrom 0

theorem argumentsFrom_pays (count : Nat) : Pays 0 2 (argumentsFrom (n + 1) count) := by
  rw [argumentsFrom]
  exact .noting <| .mono (ih.expression.bind fun first =>
    .choose (fun _ => (ih.argumentsFrom _).bind fun rest => .pure (first :: rest))
      (.pure [first])) rfl

theorem primary_pays : Pays 1 0 (primary (n + 1)) := by
  refine .mono (Pays.choose (a := 0) (u := 1) (fun t => ?_) (.fail _)) rfl
  dsimp only
  split
  · exact .mono (Pays.pure _) rfl
  split
  · exact .mono (Pays.freshId.bind fun _ => .pure _) rfl
  · exact .mono (ih.expression.bind fun _ => (Pays.expect _ _).bind fun _ => .pure _) rfl

theorem expressionUnless_pays (kind : Token.Kind) : Pays 0 0 (expressionUnless n kind) := by
  refine .test fun found => ?_
  split
  · exact .pure _
  · exact .mono (ih.expression.bind fun _ => .pure _) rfl

theorem varDeclaration_pays : Pays 1 0 (varDeclaration n) := by
  have hrest (name : Token) (initializer : Option Expr) : Pays 1 0
      (expect .semicolon .expectSemicolonAfterDeclaration >>= fun _ =>
        pure (Stmt.var name initializer)) :=
    .mono ((Pays.expect _ _).bind fun _ => .pure _) rfl
  exact .mono ((Pays.expect _ _).bind fun name =>
    .choose (fun _ => (ih.expression.map some).bind (hrest name)) (hrest name none)) rfl

theorem expressionStatement_pays : Pays 1 0 (expressionStatement n) :=
  .mono (ih.expression.bind fun _ => (Pays.expect _ _).bind fun _ => .pure _) rfl

theorem printStatement_pays : Pays 1 0 (printStatement n) :=
  .mono (ih.expression.bind fun _ => (Pays.expect _ _).bind fun _ => .pure _) rfl

/-- If the semicolon is missing behind a value, the value has paid. The word `return` does it if
there is none. -/
theorem returnStatement_pays (keyword : Token) : Pays 1 1 (returnStatement n keyword) :=
  .mono ((expressionUnless_pays ih _).bind fun _ => (Pays.expect _ _).bind fun _ => .pure _) rfl

theorem forInitializer_pays : Pays 1 0 (forInitializer n) :=
  .mono (.choose (fun _ => .pure none) <|
    .choose (fun _ => (varDeclaration_pays ih).map some)
      ((expressionStatement_pays ih).map some)) rfl

/-- A fault that is caught is recorded, and a token is passed over for it unless it has been paid
for. -/
theorem declaration_pays {s s' : State} {result : Except Fault (Option Stmt)} (hs : s.rest ≠ [])
    (h : (declaration (n + 1)).run s = some (result, s')) : s'.balance ≤ s.balance := by
  rw [declaration, run_tryCatch] at h
  rcases hrun : (some <$> declared n : Parse (Option Stmt)).run s with _ | ⟨fault | o, s₁⟩ <;>
    rw [hrun] at h <;> cases h
  · have hpaid : s₁ = s ∨ s₁.balance + 1 ≤ s.balance + 0 := ih.declared.map some s _ _ hrun
    have hskip := length_recover_le s₁.rest
    have hlength := List.length_pos_iff.mpr hs
    show ((s₁.faults ++ [fault]).length : Int) + (recover s₁.rest).length ≤ s.balance
    rw [List.length_append, List.length_singleton]
    unfold State.balance at *
    rcases hpaid with rfl | hb <;> omega
  · have hpaid : s'.balance + 1 ≤ s.balance := ih.declared.map some s _ _ hrun
    omega

theorem declared_pays : Pays 1 0 (declared (n + 1)) :=
  .mono (.choose (fun _ => ih.function) <|
    .choose (fun _ => varDeclaration_pays ih) ih.statement) rfl

theorem function_pays : Pays 1 0 (function (n + 1)) := by
  have hrest (name : Token) (params : List Token) : Pays 3 0
      (expect .rightParen .expectParenAfterParameters >>= fun _ =>
        expect .leftBrace .expectBraceBeforeBody >>= fun _ =>
          block n >>= fun body => pure (Stmt.function name params body)) :=
    .mono ((Pays.expect _ _).bind fun _ => (Pays.expect _ _).bind fun _ =>
      ih.block.bind fun _ => .pure _) rfl
  refine .mono ((Pays.expect _ _).bind fun name => (Pays.expect _ _).bind fun _ =>
    .test (c := 3) (d := 2) fun closed => ?_) rfl
  dsimp only
  split
  · exact .mono (hrest name []) rfl
  · exact .mono ((paramsFrom_pays n 0).bind (hrest name)) rfl

theorem statement_pays : Pays 1 0 (statement (n + 1)) := by
  refine .mono (Pays.choose (a := 1) (u := 1) (fun keyword => ?_) (expressionStatement_pays ih)) rfl
  dsimp only
  split
  · exact ih.forStatement.mono rfl
  · exact ih.ifStatement.mono rfl
  · exact .mono (printStatement_pays ih) rfl
  · exact returnStatement_pays ih keyword
  · exact ih.whileStatement.mono rfl
  · exact ih.block.map Stmt.block

theorem forStatement_pays : Pays 1 0 (forStatement (n + 1)) :=
  .mono ((Pays.expect _ _).bind fun _ => (forInitializer_pays ih).bind fun _ =>
    (expressionUnless_pays ih _).bind fun _ => (Pays.expect _ _).bind fun _ =>
      (expressionUnless_pays ih _).bind fun _ => (Pays.expect _ _).bind fun _ =>
        ih.statement.bind fun _ => .pure _) rfl

theorem ifStatement_pays : Pays 1 0 (ifStatement (n + 1)) :=
  .mono ((Pays.expect _ _).bind fun _ => ih.expression.bind fun _ =>
    (Pays.expect _ _).bind fun _ => ih.statement.bind fun _ =>
      .choose (fun _ => (ih.statement.map some).bind fun _ => .pure _) (.pure _)) rfl

theorem whileStatement_pays : Pays 1 0 (whileStatement (n + 1)) :=
  .mono ((Pays.expect _ _).bind fun _ => ih.expression.bind fun _ =>
    (Pays.expect _ _).bind fun _ => ih.statement.bind fun _ => .pure _) rfl

theorem block_pays : Pays 1 1 (block (n + 1)) :=
  .mono ((ih.declarations true).bind fun _ => (Pays.expect _ _).bind fun _ => .pure _) rfl

theorem declarations_pay (inBlock : Bool) : Pays 0 0 (declarations (n + 1) inBlock) := by
  intro s result s' h
  cases result with
  | error fault => exact absurd h declarations_catch
  | ok body =>
      show s'.balance + 0 ≤ s.balance
      rw [run_declarations] at h
      split at h
      next =>
        cases h
        omega
      next hmore =>
        obtain ⟨first, s₁, hfirst, h⟩ := ok_of_bind h
        obtain ⟨rest, s₂, hrest, h⟩ := ok_of_bind h
        cases h
        have hb := ih.declaration s _ s₁ (fun hs => hmore (.inl hs)) hfirst
        have hb' : s'.balance + 0 ≤ s₁.balance := ih.declarations inBlock s₁ _ s' hrest
        omega

end Steps

theorem paying (n : Nat) : Paying n := by
  induction n with
  | zero =>
      exact ⟨.exhausted, fun _ => .exhausted, fun _ _ => .exhausted, fun _ => .exhausted,
        .exhausted, fun _ => .exhausted, .exhausted, fun _ => .exhausted, .exhausted,
        (fun _ _ _ _ h => nomatch h), .exhausted, .exhausted, .exhausted, .exhausted, .exhausted,
        .exhausted, .exhausted, fun _ => .exhausted⟩
  | succ n ih =>
      exact ⟨expression_pays ih, level_pays ih, levelRest_pays ih, operand_pays ih, unary_pays ih,
        callRest_pays ih, arguments_pay ih, argumentsFrom_pays ih, primary_pays ih,
        fun _ _ _ => declaration_pays ih, declared_pays ih, function_pays ih, statement_pays ih,
        forStatement_pays ih, ifStatement_pays ih, whileStatement_pays ih, block_pays ih,
        declarations_pay ih⟩

end Parse

/-- There are no more faults than tokens before the mark. -/
theorem Parsed.length_faults_le (tokens : List Token) (i : NodeId) :
    (ofTokens tokens i).faults.length ≤ (readable tokens).length := by
  obtain ⟨n, s, hrun, hfaults, -⟩ := ofTokens_answers tokens i
  have hpaid : s.balance + 0 ≤ (start tokens i).balance :=
    (Parse.paying n).declarations false _ _ _ hrun
  have hstart : (start tokens i).balance = (readable tokens).length := Int.zero_add _
  rw [hstart, Parse.State.balance] at hpaid
  rw [← hfaults]
  omega

end Lox
