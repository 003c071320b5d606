import Lox.Proofs.Parser.InTurn

/-!
# Segments that end in a semicolon

A segment is a semicolon with tokens before it that neither end a statement nor make one of
several. No parser reads past the semicolon of a segment, and neither does recovery, whatever
is wrong with the tokens before it. Therefore segments are read as if each of them were a
program of its own.

Only a conditional looks behind the semicolon, for an `else`. That is why no `else` may
stand there.
-/

namespace Lox.Parse

variable {α β : Type}

/-- The kinds of tokens that may stand before the semicolon. -/
def inSegment : Token.Kind → Bool
  | .semicolon | .leftBrace | .rightBrace | .kwFor | .eof => false
  | _ => true

/-- Tokens up to the first semicolon. -/
inductive Segment : List Token → Prop
  | last {t : Token} (ht : t.kind = .semicolon) : Segment [t]
  | cons {t : Token} {w : List Token} (ht : inSegment t.kind = true) (h : Segment w) :
      Segment (t :: w)

/-- The words in a segment that begin a statement other than an expression. -/
theorem kind_of_keyed {kind : Token.Kind} (hk : beginsKeyed kind = true)
    (hs : inSegment kind = true) :
    kind = .kwIf ∨ kind = .kwPrint ∨ kind = .kwReturn ∨ kind = .kwWhile := by
  cases kind <;> simp_all [beginsKeyed, inSegment]

theorem Segment.ne_nil {w : List Token} (h : Segment w) : w ≠ [] := by
  cases h <;> exact List.cons_ne_nil _ _

theorem Segment.ne_eof {w : List Token} (h : Segment w) : ∀ t ∈ w, t.kind ≠ .eof := by
  induction h with
  | last ht =>
      intro t hmem heof
      rw [List.mem_singleton.mp hmem, ht] at heof
      cases heof
  | cons ht _ ih =>
      refine List.forall_mem_cons.mpr ⟨fun heof => ?_, ih⟩
      rw [heof] at ht
      cases ht

/-- Recovery stops within a segment or behind its semicolon. -/
theorem Segment.recover {w : List Token} (h : Segment w) :
    ∃ w', (w' = [] ∨ Segment w') ∧ ∀ r, recover (w ++ r) = w' ++ r := by
  induction h with
  | @last t ht =>
      refine ⟨[], .inl rfl, fun r => ?_⟩
      rw [List.singleton_append, Parse.recover, if_pos (.inl ht)]
      rfl
  | @cons t w ht h ih =>
      obtain ⟨w', hw', hrecover⟩ := ih
      have hne : t.kind ≠ .semicolon := fun heq => by rw [heq] at ht; cases ht
      have hhead : ∀ r, (w ++ r).head? = w.head? := fun r => by cases h <;> rfl
      by_cases hb : w.head?.any (·.kind.beginsStatement) = true
      · refine ⟨w, .inr h, fun r => ?_⟩
        rw [List.cons_append, Parse.recover, if_pos (.inr (by rw [hhead]; exact hb))]
      · refine ⟨w', hw', fun r => ?_⟩
        rw [List.cons_append, Parse.recover, if_neg, hrecover]
        rw [hhead]
        exact fun hor => hor.elim hne hb

/-! ## Parsers that stay within a segment -/

/-- For the tokens `w` the parser answers the same whatever stands behind them, as long as that
is no `else`; it leaves the tokens `left` of them and finds the faults `found`. -/
def Answers (p : Parse α) (w : List Token) (i : NodeId) (result : Except Fault α)
    (left : List Token) (j : NodeId) (found : List Fault) : Prop :=
  ∀ r last faults, Ahead (· = .kwElse) r = false →
    p.run ⟨w ++ r, last, i, faults⟩ = some (result, ⟨left ++ r, last, j, faults ++ found⟩)

/-- The parser has no fuel for the tokens `w`, whatever stands behind them. -/
def Exhausts (p : Parse α) (w : List Token) (i : NodeId) : Prop :=
  ∀ r last faults, Ahead (· = .kwElse) r = false → p.run ⟨w ++ r, last, i, faults⟩ = none

/-- What has been read of a segment when a parser ends: it throws only within the segment, and
otherwise leaves what `Q` says. -/
def Left (Q : α → List Token → Prop) : Except Fault α → List Token → Prop
  | .error _, left => Segment left
  | .ok a, left => Q a left

/-- From tokens as `P` says the parser does not look behind them. -/
def Confined (P : List Token → Prop) (p : Parse α) (Q : α → List Token → Prop) : Prop :=
  ∀ w i, P w → Exhausts p w i ∨
    ∃ result left j found, Answers p w i result left j found ∧ Left Q result left

/-- The parser ends within the segment. -/
abbrev StaysInside (p : Parse α) : Prop := Confined Segment p fun _ => Segment

/-- The parser ends behind the semicolon. -/
abbrev Finishes (p : Parse α) : Prop := Confined Segment p fun _ left => left = []

section Rules

variable {P : List Token → Prop} {Q : α → List Token → Prop} {R : β → List Token → Prop}

theorem Confined.of_answers {p : Parse α}
    (h : ∀ w i, P w → ∃ result left j found, Answers p w i result left j found ∧
      Left Q result left) : Confined P p Q :=
  fun w i hw => .inr (h w i hw)

theorem Confined.of_false {p : Parse α} : Confined (fun _ => False) p Q :=
  fun _ _ hw => hw.elim

theorem Confined.mono {Q' : α → List Token → Prop} {p : Parse α} (h : Confined P p Q)
    (hQ : ∀ a w, Q a w → Q' a w) : Confined P p Q' := by
  intro w i hw
  obtain hnone | ⟨result, left, j, found, hanswers, hleft⟩ := h w i hw
  · exact .inl hnone
  · refine .inr ⟨result, left, j, found, hanswers, ?_⟩
    cases result with
    | error fault => exact hleft
    | ok a => exact hQ a left hleft

theorem Confined.exhausted : Confined P exhausted Q := fun _ _ _ => .inl fun _ _ _ _ => rfl

theorem Confined.pure {a : α} (h : ∀ w, P w → Q a w) : Confined P (pure a) Q :=
  .of_answers fun w i hw => ⟨.ok a, w, i, [], fun _ _ faults _ => by
    rw [List.append_nil]; rfl, h w hw⟩

/-- The second parser stays where the first one has stayed. -/
theorem Confined.bind {p : Parse α} {k : α → Parse β} (h : Confined P p Q)
    (hk : ∀ a, Confined (Q a) (k a) R) : Confined P (p >>= k) R := by
  intro w i hw
  obtain hnone | ⟨fault | a, left, j, found, hanswers, hleft⟩ := h w i hw
  · refine .inl fun r last faults hr => ?_
    rw [run_bind, hnone r last faults hr]
  · refine .inr ⟨.error fault, left, j, found, fun r last faults hr => ?_, hleft⟩
    rw [run_bind, hanswers r last faults hr]
  · obtain hnone | ⟨result, left', j', found', hanswers', hleft'⟩ := hk a left j hleft
    · refine .inl fun r last faults hr => ?_
      rw [run_bind, hanswers r last faults hr]
      exact hnone r last _ hr
    · refine .inr ⟨result, left', j', found ++ found', fun r last faults hr => ?_, hleft'⟩
      rw [run_bind, hanswers r last faults hr, ← List.append_assoc]
      exact hanswers' r last _ hr

/-- What the first parser leaves does not depend on its result. -/
theorem StaysInside.bind {p : Parse α} {k : α → Parse β} (h : StaysInside p)
    (hk : ∀ a, Confined Segment (k a) R) : Confined Segment (p >>= k) R := Confined.bind h hk

theorem Confined.map {p : Parse α} (h : Confined P p Q) {f : α → β}
    (hf : ∀ a w, Q a w → R (f a) w) : Confined P (f <$> p) R := by
  rw [← bind_pure_comp]
  exact h.bind fun a => .pure (hf a)

/-- A fault is found at a token of the segment. -/
theorem Confined.fail (cause : Cause) : Confined Segment (fail cause : Parse α) Q := by
  refine .of_answers fun w i hw => ⟨.error ⟨cause, w.headD ⟨.eof, "", 0⟩⟩, w, i, [], ?_, hw⟩
  intro r last faults _
  rw [run_fail, List.append_nil]
  cases hw <;> rfl

theorem StaysInside.record (fault : Fault) : StaysInside (record fault) :=
  .of_answers fun w i hw => ⟨.ok (), w, i, [fault], fun _ _ _ _ => rfl, hw⟩

theorem StaysInside.recordHere (cause : Cause) : StaysInside (recordHere cause) := by
  refine .of_answers fun w i hw =>
    ⟨.ok (), w, i, [⟨cause, w.headD ⟨.eof, "", 0⟩⟩], fun r last faults _ => ?_, hw⟩
  rw [run_recordHere]
  cases hw <;> rfl

theorem StaysInside.noting {c : Prop} [Decidable c] {cause : Cause} {p : Parse α}
    (h : StaysInside p) : StaysInside (if c then Parse.recordHere cause >>= fun _ => p else p) := by
  split
  · exact (StaysInside.recordHere cause).bind fun _ => h
  · exact h

theorem StaysInside.freshId : StaysInside freshId := by
  refine .of_answers fun w i hw => ⟨.ok i, w, i + 1, [], fun r last faults _ => ?_, hw⟩
  rw [run_freshId, List.append_nil]

theorem StaysInside.nextIs (kind : Token.Kind) : StaysInside (nextIs kind) := by
  refine .of_answers fun w i hw =>
    ⟨.ok (Ahead (· = kind) w), w, i, [], fun r last faults _ => ?_, hw⟩
  rw [run_nextIs, List.append_nil]
  cases hw <;> rfl

/-- The semicolon is not read unless it is wanted. -/
theorem Confined.acceptIf {wanted : Token.Kind → Bool} (hs : wanted .semicolon = false) :
    Confined Segment (acceptIf wanted) fun found left =>
      Segment left ∧ ∀ t, found = some t → wanted t.kind = true ∧ inSegment t.kind = true := by
  refine .of_answers fun w i hw => ?_
  have hnone (h : Ahead wanted w = false) : ∃ result left j found,
      Answers (Parse.acceptIf wanted) w i result left j found ∧ Left (fun found left =>
        Segment left ∧ ∀ t, found = some t → wanted t.kind = true ∧ inSegment t.kind = true)
        result left := by
    refine ⟨.ok none, w, i, [], fun r last faults _ => ?_, hw, nofun⟩
    rw [List.append_nil]
    exact run_acceptIf_none (by cases hw <;> exact h)
  cases hw with
  | last ht => exact hnone (by rw [ahead_cons, ht, hs])
  | @cons t w ht hw =>
      cases hwanted : wanted t.kind with
      | false => exact hnone hwanted
      | true =>
          refine ⟨.ok (some t), w, i, [], fun r last faults _ => ?_, hw, fun _ heq => ?_⟩
          · rw [List.append_nil]
            exact run_acceptIf_cons rfl hwanted
          · cases heq
            exact ⟨hwanted, ht⟩

theorem StaysInside.accept {kind : Token.Kind} (hk : kind ≠ .semicolon) :
    StaysInside (accept kind) :=
  (Confined.acceptIf (decide_eq_false hk.symm)).mono fun _ _ h => h.1

theorem StaysInside.expect {kind : Token.Kind} (hk : kind ≠ .semicolon) (cause : Cause) :
    StaysInside (expect kind cause) := by
  refine (StaysInside.accept hk).bind fun found => ?_
  cases found with
  | some t => exact .pure fun _ => id
  | none => exact .fail cause

/-- The semicolon is the last token of its segment. -/
theorem Finishes.expect (cause : Cause) : Finishes (expect .semicolon cause) := by
  refine .of_answers fun w i hw => ?_
  cases hw with
  | @last t ht =>
      refine ⟨.ok t, [], i, [], fun r last faults _ => ?_, rfl⟩
      rw [Parse.expect, run_bind, Parse.accept, run_acceptIf_cons rfl (decide_eq_true ht),
        List.append_nil]
      rfl
  | @cons t w ht hw =>
      refine ⟨.error ⟨cause, t⟩, t :: w, i, [], fun r last faults _ => ?_, .cons ht hw⟩
      have hnone : Ahead (· = .semicolon) (t :: w ++ r) = false :=
        decide_eq_false fun heq => by rw [heq] at ht; cases ht
      rw [Parse.expect, run_bind, Parse.accept, run_acceptIf_none hnone, List.append_nil]
      rfl

/-- There is no brace in a segment. -/
theorem Confined.expect_brace (cause : Cause) :
    Confined Segment (expect .leftBrace cause) fun _ _ => False := by
  refine Confined.bind (Confined.acceptIf rfl) fun found => ?_
  cases found with
  | none => exact fun w i hw => Confined.fail cause w i hw.1
  | some t =>
      intro w i hw
      obtain ⟨hbrace, hin⟩ := hw.2 t rfl
      rw [of_decide_eq_true hbrace] at hin
      cases hin

/-- Behind the semicolon stands no `else`. -/
theorem Confined.accept_else :
    Confined (· = []) (accept .kwElse) fun found left => found = none ∧ left = [] := by
  refine .of_answers fun w i hw => ⟨.ok none, [], i, [], fun r last faults hr => ?_, rfl, rfl⟩
  rw [hw, List.append_nil]
  exact run_acceptIf_none hr

end Rules

/-! ## Phrase by phrase -/

/-- With so much fuel no phrase that begins in a segment is read past the semicolon. -/
structure Bounded (n : Nat) : Prop where
  expression : StaysInside (expression n)
  level : ∀ l, StaysInside (level n l)
  levelRest : ∀ l left, StaysInside (levelRest n l left)
  operand : ∀ l, StaysInside (operand n l)
  unary : StaysInside (unary n)
  callRest : ∀ callee, StaysInside (callRest n callee)
  arguments : StaysInside (arguments n)
  argumentsFrom : ∀ count, StaysInside (argumentsFrom n count)
  primary : StaysInside (primary n)
  paramsFrom : ∀ count, StaysInside (paramsFrom n count)
  declared : Finishes (declared n)
  function : Finishes (function n)
  statement : Finishes (statement n)
  ifStatement : Finishes (ifStatement n)
  whileStatement : Finishes (whileStatement n)

section Steps

variable {n : Nat} (ih : Bounded n)
include ih

omit ih in
theorem assignTo_inside (target : Expr) (equals : Token) (value : Expr) :
    StaysInside (assignTo target equals value) := by
  cases target with
  | «variable» _ name => exact StaysInside.freshId.bind fun _ => .pure fun _ => id
  | _ => exact (StaysInside.record _).bind fun _ => .pure fun _ => id

theorem expression_inside : StaysInside (expression (n + 1)) := by
  refine (ih.level _).bind fun target => (StaysInside.accept (by decide)).bind fun found => ?_
  cases found with
  | none => exact .pure fun _ => id
  | some equals => exact ih.expression.bind fun value => assignTo_inside target equals value

theorem level_inside (l : Level) : StaysInside (level (n + 1) l) :=
  (ih.operand l).bind fun left => ih.levelRest l left

theorem levelRest_inside (l : Level) (left : Expr) : StaysInside (levelRest (n + 1) l left) := by
  have hs : l.has .semicolon = false := by cases l <;> rfl
  refine StaysInside.bind ((Confined.acceptIf hs).mono fun _ _ h => h.1) fun found => ?_
  cases found with
  | none => exact .pure fun _ => id
  | some operator => exact (ih.operand l).bind fun right => ih.levelRest l _

theorem operand_inside (l : Level) : StaysInside (operand (n + 1) l) := by
  rw [operand]
  cases l.tighter? with
  | none => exact ih.unary
  | some l => exact ih.level l

theorem unary_inside : StaysInside (unary (n + 1)) := by
  refine StaysInside.bind ((Confined.acceptIf rfl).mono fun _ _ h => h.1) fun found => ?_
  cases found with
  | none => exact ih.primary.bind fun callee => ih.callRest callee
  | some operator => exact ih.unary.bind fun operand => .pure fun _ => id

theorem callRest_inside (callee : Expr) : StaysInside (callRest (n + 1) callee) := by
  refine (StaysInside.accept (by decide)).bind fun found => ?_
  cases found with
  | none => exact .pure fun _ => id
  | some _ =>
      exact ih.arguments.bind fun arguments => (StaysInside.expect (by decide) _).bind fun paren =>
        ih.callRest (.call callee paren arguments)

theorem arguments_inside : StaysInside (arguments (n + 1)) := by
  refine (StaysInside.nextIs _).bind fun closed => ?_
  split
  · exact .pure fun _ => id
  · exact ih.argumentsFrom 0

theorem argumentsFrom_inside (count : Nat) : StaysInside (argumentsFrom (n + 1) count) := by
  rw [argumentsFrom]
  refine .noting <| ih.expression.bind fun first => ?_
  refine (StaysInside.accept (by decide)).bind fun found => ?_
  cases found with
  | none => exact .pure fun _ => id
  | some _ => exact (ih.argumentsFrom _).bind fun rest => .pure fun _ => id

theorem primary_inside : StaysInside (primary (n + 1)) := by
  refine StaysInside.bind ((Confined.acceptIf rfl).mono fun _ _ h => h.1) fun found => ?_
  cases found with
  | none => exact .fail _
  | some t =>
      dsimp only
      split
      · exact .pure fun _ => id
      split
      · exact StaysInside.freshId.bind fun _ => .pure fun _ => id
      · exact ih.expression.bind fun inner => (StaysInside.expect (by decide) _).bind fun _ =>
          .pure fun _ => id

theorem paramsFrom_inside (count : Nat) : StaysInside (paramsFrom (n + 1) count) := by
  rw [paramsFrom]
  refine .noting <| (StaysInside.expect (by decide) _).bind fun first =>
    (StaysInside.accept (by decide)).bind fun found => ?_
  cases found with
  | none => exact .pure fun _ => id
  | some _ => exact (ih.paramsFrom _).bind fun rest => .pure fun _ => id

theorem expressionUnless_inside (kind : Token.Kind) : StaysInside (expressionUnless n kind) := by
  refine (StaysInside.nextIs _).bind fun found => ?_
  split
  · exact .pure fun _ => id
  · exact ih.expression.bind fun e => .pure fun _ => id

theorem varDeclaration_finishes : Finishes (varDeclaration n) := by
  refine (StaysInside.expect (by decide) _).bind fun name => ?_
  refine (StaysInside.accept (by decide)).bind fun found => ?_
  have hrest (initializer : Option Expr) : Finishes
      (expect .semicolon .expectSemicolonAfterDeclaration >>= fun _ =>
        pure (.var name initializer) : Parse Stmt) :=
    (Finishes.expect _).bind fun _ => .pure fun _ => id
  cases found with
  | none => exact hrest none
  | some _ => exact StaysInside.bind (ih.expression.map fun _ _ => id) hrest

theorem expressionStatement_finishes : Finishes (expressionStatement n) :=
  ih.expression.bind fun _ => (Finishes.expect _).bind fun _ => .pure fun _ => id

theorem printStatement_finishes : Finishes (printStatement n) :=
  ih.expression.bind fun _ => (Finishes.expect _).bind fun _ => .pure fun _ => id

theorem returnStatement_finishes (keyword : Token) : Finishes (returnStatement n keyword) :=
  (expressionUnless_inside ih _).bind fun _ => (Finishes.expect _).bind fun _ => .pure fun _ => id

theorem declared_finishes : Finishes (declared (n + 1)) := by
  refine (StaysInside.accept (by decide)).bind fun found => ?_
  cases found with
  | some _ => exact ih.function
  | none =>
      refine (StaysInside.accept (by decide)).bind fun found => ?_
      cases found with
      | some _ => exact varDeclaration_finishes ih
      | none => exact ih.statement

/-- A function needs a brace, so it is broken. -/
theorem function_finishes : Finishes (function (n + 1)) := by
  refine (StaysInside.expect (by decide) _).bind fun name =>
    (StaysInside.expect (by decide) _).bind fun _ => (StaysInside.nextIs _).bind fun closed => ?_
  have hrest (params : List Token) : Finishes
      (expect .rightParen .expectParenAfterParameters >>= fun _ =>
        expect .leftBrace .expectBraceBeforeBody >>= fun _ =>
          block n >>= fun body => pure (Stmt.function name params body)) :=
    (StaysInside.expect (by decide) _).bind fun _ =>
      (Confined.expect_brace _).bind fun _ => .of_false
  dsimp only
  split
  · exact hrest []
  · exact (ih.paramsFrom 0).bind hrest

/-- The words that begin longer statements do not stand in a segment. -/
theorem statement_finishes : Finishes (statement (n + 1)) := by
  refine Confined.bind (Confined.acceptIf rfl) fun found => ?_
  cases found with
  | none => exact fun w i hw => expressionStatement_finishes ih w i hw.1
  | some keyword =>
      intro w i hw
      obtain ⟨hkeyed, hin⟩ := hw.2 keyword rfl
      dsimp only
      rcases kind_of_keyed hkeyed hin with hk | hk | hk | hk <;> rw [hk]
      · exact ih.ifStatement w i hw.1
      · exact printStatement_finishes ih w i hw.1
      · exact returnStatement_finishes ih keyword w i hw.1
      · exact ih.whileStatement w i hw.1

theorem ifStatement_finishes : Finishes (ifStatement (n + 1)) := by
  refine (StaysInside.expect (by decide) _).bind fun _ => ih.expression.bind fun condition => ?_
  refine (StaysInside.expect (by decide) _).bind fun _ => ih.statement.bind fun thenBranch => ?_
  refine Confined.accept_else.bind fun found => ?_
  intro w i hw
  obtain ⟨rfl, rfl⟩ := hw
  exact Confined.pure (P := (· = [])) (fun _ => id) [] i rfl

theorem whileStatement_finishes : Finishes (whileStatement (n + 1)) :=
  (StaysInside.expect (by decide) _).bind fun _ => ih.expression.bind fun _ =>
    (StaysInside.expect (by decide) _).bind fun _ => ih.statement.bind fun _ => .pure fun _ => id

end Steps

theorem bounded (n : Nat) : Bounded n := by
  induction n with
  | zero =>
      exact ⟨.exhausted, fun _ => .exhausted, fun _ _ => .exhausted, fun _ => .exhausted,
        .exhausted, fun _ => .exhausted, .exhausted, fun _ => .exhausted, .exhausted,
        fun _ => .exhausted, .exhausted, .exhausted, .exhausted, .exhausted, .exhausted⟩
  | succ n ih =>
      exact ⟨expression_inside ih, level_inside ih, levelRest_inside ih, operand_inside ih,
        unary_inside ih, callRest_inside ih, arguments_inside ih, argumentsFrom_inside ih,
        primary_inside ih, paramsFrom_inside ih, declared_finishes ih, function_finishes ih,
        statement_finishes ih, ifStatement_finishes ih, whileStatement_finishes ih⟩

/-- What is thrown in a segment is caught in it, and reading is taken up again in it or behind
its semicolon. -/
theorem declaration_confined (n : Nat) :
    Confined Segment (declaration n) fun _ left => left = [] ∨ Segment left := by
  cases n with
  | zero => exact .exhausted
  | succ n =>
      intro w i hw
      have hdeclared : Confined Segment (some <$> declared n) fun _ left => left = [] :=
        (bounded n).declared.map fun _ _ => id
      rw [declaration]
      obtain hnone | ⟨fault | o, left, j, found, hanswers, hleft⟩ := hdeclared w i hw
      · refine .inl fun r last faults hr => ?_
        rw [run_tryCatch, hnone r last faults hr]
      · obtain ⟨left', hleft', hrecover⟩ := Segment.recover hleft
        refine .inr ⟨.ok none, left', j, found ++ [fault], fun r last faults hr => ?_, hleft'⟩
        rw [run_tryCatch, hanswers r last faults hr, ← List.append_assoc, ← hrecover]
        rfl
      · refine .inr ⟨.ok o, left, j, found, fun r last faults hr => ?_, .inl hleft⟩
        rw [run_tryCatch, hanswers r last faults hr]

end Lox.Parse

namespace Lox.Parsed

open Parse

/-- The lists of tokens read one by one, each from the number that the one before it has left. -/
def inTurn : List (List Token) → NodeId → Parsed
  | [], i => ⟨[], [], i⟩
  | w :: ws, i => (ofTokens w i).andThen (inTurn ws (ofTokens w i).nextId)

/-- Whatever stands behind a segment, the first declaration is the same and leaves the same
part of the segment. -/
theorem segment_step {w : List Token} (hw : Segment w) (i : NodeId) :
    ∃ p left, left.length < w.length ∧ (left = [] ∨ Segment left) ∧
      ∀ r last, (∀ t ∈ r, t.kind ≠ .eof) → Ahead (· = .kwElse) r = false → last.kind = .eof →
        ofTokens (w ++ r ++ [last]) i = andThen p (ofTokens (left ++ r ++ [last]) p.nextId) := by
  have hne (r : List Token) : w ++ r ≠ [] := List.append_ne_nil_of_left_ne_nil hw.ne_nil r
  obtain ⟨result, s, hrun, -, htaken, -⟩ := sound _ .declaration ⟨w ++ [], mark w, i, []⟩
    (Nat.le_refl _) (hne [])
  obtain hnone | ⟨result', left, j, found, hanswers, hleft⟩ := declaration_confined _ w i hw
  · exact absurd ((hnone [] _ [] rfl).symm.trans hrun) nofun
  have hhere := (hanswers [] (mark w) [] rfl).symm.trans hrun
  obtain ⟨rfl, rfl⟩ := Prod.mk.inj (Option.some.inj hhere)
  cases result' with
  | error fault => exact absurd hrun declaration_catches
  | ok first =>
      have hlt : (left ++ []).length + 1 ≤ (w ++ []).length := (htaken first rfl).1
      rw [List.append_nil, List.append_nil] at hlt
      have hl : ∀ t ∈ left, t.kind ≠ .eof := by
        rcases hleft with rfl | hleft
        · exact nofun
        · exact hleft.ne_eof
      refine ⟨⟨first.toList, found, j⟩, left, hlt, hleft, fun r last hr helse hlast => ?_⟩
      have hwr : ∀ t ∈ w ++ r, t.kind ≠ .eof := List.forall_mem_append.mpr ⟨hw.ne_eof, hr⟩
      have hmark : mark (w ++ r ++ [last]) = last := mark_marked hwr hlast
      have hreadable : readable (w ++ r ++ [last]) = w ++ r :=
        congrArg State.rest (start_marked hwr hlast i)
      have hstep := hanswers r last [] helse
      rw [← start_marked hwr hlast i] at hstep
      have h := ofTokens_step (by rw [hreadable]; exact hne r) (by rw [hmark]; exact hstep)
        (List.forall_mem_append.mpr ⟨hl, hr⟩)
      rwa [hmark] at h

/-- What stands behind a segment is read as if it stood alone, and so is the segment. -/
theorem ofTokens_segment {w r : List Token} {last : Token} (hw : w = [] ∨ Segment w)
    (hr : ∀ t ∈ r, t.kind ≠ .eof) (helse : Ahead (· = .kwElse) r = false)
    (hlast : last.kind = .eof) (i : NodeId) :
    ofTokens (w ++ r ++ [last]) i =
      (ofTokens w i).andThen (ofTokens (r ++ [last]) (ofTokens w i).nextId) := by
  induction hlen : w.length using Nat.strongRecOn generalizing w r last i with
  | ind len ih =>
      rcases hw with rfl | hw
      · rfl
      obtain ⟨p, left, hlt, hleft, hstep⟩ := segment_step hw i
      rw [hlen] at hlt
      have halone : ofTokens w i = p.andThen (ofTokens left p.nextId) := by
        have hnil : ∀ t ∈ ([] : List Token), t.kind ≠ .eof := List.forall_mem_nil _
        have hcut := ih _ hlt hleft hnil (ahead_nil _) (kind_mark w) p.nextId rfl
        rw [List.nil_append, ofTokens_mark (kind_mark w), andThen_end] at hcut
        rw [← hcut, ← hstep [] _ hnil (ahead_nil _) (kind_mark w), List.append_nil,
          ← ofTokens_marked w i, readable_eq_self hw.ne_eof]
      rw [hstep r last hr helse hlast, ih _ hlt hleft hr helse hlast p.nextId rfl, halone,
        andThen_assoc]
      rfl

section Segments

variable {segments : List (List Token)}
  (h : ∀ w ∈ segments, Segment w ∧ Ahead (· = .kwElse) w = false)
include h

theorem flatten_ne_eof : ∀ t ∈ segments.flatten, t.kind ≠ .eof := by
  intro t ht
  obtain ⟨w, hw, ht⟩ := List.mem_flatten.mp ht
  exact (h w hw).1.ne_eof t ht

theorem no_else_of_flatten : Ahead (· = .kwElse) segments.flatten = false := by
  cases segments with
  | nil => rfl
  | cons w ws =>
      obtain ⟨hw, helse⟩ := h w List.mem_cons_self
      cases hw <;> exact helse

theorem ofTokens_flatten_marked {last : Token} (hlast : last.kind = .eof) (i : NodeId) :
    ofTokens (segments.flatten ++ [last]) i = inTurn segments i := by
  induction segments generalizing i with
  | nil => exact ofTokens_mark hlast i
  | cons w ws ih =>
      have hws : ∀ w ∈ ws, Segment w ∧ Ahead (· = .kwElse) w = false :=
        fun w hw => h w (List.mem_cons_of_mem _ hw)
      rw [List.flatten_cons, inTurn, ← ih hws]
      exact ofTokens_segment (.inr (h w List.mem_cons_self).1) (flatten_ne_eof hws)
        (no_else_of_flatten hws) hlast i

end Segments

/-- Segments, good or broken, are read one by one: what is read from all of them together, its
statements, its faults and its numbers, is what is read from each of them alone, from the number
that the one before it has left. -/
theorem ofTokens_flatten (segments : List (List Token)) (ending : List Token) (i : NodeId)
    (hsegments : ∀ w ∈ segments, Segment w ∧ Ahead (· = .kwElse) w = false)
    (hending : readable ending = []) :
    ofTokens (segments.flatten ++ ending) i = inTurn segments i := by
  have hreadable : readable (segments.flatten ++ ending) = segments.flatten := by
    rw [readable_append (flatten_ne_eof hsegments), hending, List.append_nil]
  rw [← ofTokens_marked, hreadable, ofTokens_flatten_marked hsegments (kind_mark _)]

/-- Two broken statements, one of them with two faults, and a good one. -/
theorem ofTokens_flatten_broken :
    let word (kind : Token.Kind) : Token := ⟨kind, "", 1⟩
    let x : Token := ⟨.identifier, "x", 1⟩
    let broken := [word .kwPrint, word .plus, word .semicolon]
    let twice := [word .kwVar, word .equal, word .kwPrint, word .star, word .semicolon]
    let good := [word .kwPrint, x, word .semicolon]
    ofTokens ([broken, twice, good].flatten ++ [word .eof]) 7 = inTurn [broken, twice, good] 7 ∧
      (inTurn [broken, twice, good] 7).statements = [.print (.variable 7 x)] ∧
      (inTurn [broken, twice, good] 7).faults = [⟨.expectExpression, word .plus⟩,
        ⟨.expectVariableName, word .equal⟩, ⟨.expectExpression, word .star⟩] ∧
      (inTurn [broken, twice, good] 7).nextId = 8 := by
  intro word x broken twice good
  have hbroken : Segment broken := .cons rfl (.cons rfl (.last rfl))
  have htwice : Segment twice := .cons rfl (.cons rfl (.cons rfl (.cons rfl (.last rfl))))
  have hgood : Segment good := .cons rfl (.cons rfl (.last rfl))
  refine ⟨ofTokens_flatten [broken, twice, good] [word .eof] 7 ?_ rfl, rfl, rfl, rfl⟩
  exact List.forall_mem_cons.mpr ⟨⟨hbroken, rfl⟩, List.forall_mem_cons.mpr ⟨⟨htwice, rfl⟩,
    List.forall_mem_singleton.mpr ⟨hgood, rfl⟩⟩⟩

end Lox.Parsed
