import Lox.Proofs.Parser.InTurn
import Lox.Proofs.Parser.Sentences

/-!
# Statements that lack their semicolon

A statement that ends in a semicolon may lack it. What stands behind is then either taken for
more of the statement, or the parser throws there and has read the statement up to that
point. Only few tokens that begin a statement also go on with one: a minus or an opening
parenthesis behind an expression, and any expression behind a bare `return`.
-/

namespace Lox.Parse

variable {α β : Type}

/-! ## What stands behind a statement -/

/-- The kinds of tokens that may stand behind a statement: those that begin the next one, an
`else`, and the brace that closes the block. -/
def mayFollow (kind : Token.Kind) : Bool :=
  beginsDeclared kind || decide (kind = .kwElse) || decide (kind = .rightBrace)

/-- What may stand behind a statement. -/
def Next (r : List Token) : Prop := r = [] ∨ Ahead mayFollow r = true

/-- The kinds of tokens that may begin a statement and go on with an expression as well. -/
def continues (kind : Token.Kind) : Bool := decide (kind = .minus) || decide (kind = .leftParen)

theorem Next.ahead_ne {r : List Token} (hr : Next r) {wanted : Token.Kind → Bool}
    (h : ∀ kind, mayFollow kind = true → wanted kind = false) : Ahead wanted r = false := by
  rcases hr with rfl | hr
  · rfl
  · exact Parse.ahead_ne h hr

/-- More declarations may follow. -/
theorem Reads.next {inBlock : Bool} {w : List Token} {i j : NodeId} {body : List Stmt}
    (h : Reads (.declarations inBlock) w i body j) : Next w := by
  cases h with
  | declarationsEnd => exact .inl rfl
  | declarationsMore hs _ =>
      have hb := ahead_append hs.begins
      exact .inr (ahead_mono (fun _ h => by rw [mayFollow, h]; rfl) (hb _))

/-- An expression ends before what may stand behind its statement. -/
theorem Next.tight {r : List Token} (hr : Next r) (hc : Ahead continues r = false) (n : Nat) :
    Tight n r := by
  cases r with
  | nil => exact ⟨fun _ _ => rfl, rfl⟩
  | cons t r =>
      have hm : mayFollow t.kind = true := hr.resolve_left (List.cons_ne_nil t r)
      have hc : continues t.kind = false := hc
      refine ⟨fun l _ => ?_, ?_⟩
      · show l.has t.kind = false
        cases l <;> cases hk : t.kind <;> rw [hk] at hm hc <;>
          first | rfl | exact absurd hc (by decide) | cases hm
      · show decide (t.kind = .leftParen) = false
        cases hk : t.kind <;> rw [hk] at hc <;> first | rfl | exact absurd hc (by decide)

/-! ## Parsers that throw behind what they have read -/

/-- The parser reads the tokens `w` and throws at the next one. -/
def Throws (p : Parse α) (w r : List Token) (i : NodeId) (cause : Cause) (j : NodeId) : Prop :=
  ∀ last faults, p.run ⟨w ++ r, last, i, faults⟩ =
    some (.error ⟨cause, r.headD last⟩, ⟨r, last, j, faults⟩)

section Rules

variable {p : Parse α} {u v w r : List Token} {i j k : NodeId} {a : α} {cause : Cause}

theorem Throws.fail : Throws (fail cause : Parse α) [] r i cause i := fun _ _ => rfl

theorem Throws.bind (h : Throws p w r i cause j) (f : α → Parse β) :
    Throws (p >>= f) w r i cause j := by
  intro last faults
  rw [run_bind, h last faults]

theorem Throws.map (h : Throws p w r i cause j) (f : α → β) : Throws (f <$> p) w r i cause j := by
  rw [← bind_pure_comp]
  exact h.bind _

theorem Takes.throws {f : α → Parse β} (hp : Takes p u (v ++ r) i a j)
    (hf : Throws (f a) v r j cause k) : Throws (p >>= f) (u ++ v) r i cause k := by
  intro last faults
  rw [run_bind, List.append_assoc, hp last faults]
  exact hf last faults

/-- The second parser throws at once. -/
theorem Takes.throws_last {f : α → Parse β} (hp : Takes p w r i a j)
    (hf : Throws (f a) [] r j cause k) : Throws (p >>= f) w r i cause k := by
  have h : Throws (p >>= f) (w ++ []) r i cause k := Takes.throws hp hf
  rwa [List.append_nil] at h

theorem Throws.acceptIf {wanted : Token.Kind → Bool} {f : Option Token → Parse β} {t : Token}
    (ht : wanted t.kind = true) (hf : Throws (f (some t)) w r i cause j) :
    Throws (Parse.acceptIf wanted >>= f) (t :: w) r i cause j := by
  intro last faults
  rw [run_bind, run_acceptIf_cons rfl ht]
  exact hf last faults

theorem Throws.acceptIf_none {wanted : Token.Kind → Bool} {f : Option Token → Parse β}
    (hw : Ahead wanted (w ++ r) = false) (hf : Throws (f none) w r i cause j) :
    Throws (Parse.acceptIf wanted >>= f) w r i cause j := by
  intro last faults
  rw [run_bind, run_acceptIf_none hw]
  exact hf last faults

theorem Throws.accept {kind : Token.Kind} {f : Option Token → Parse β} {t : Token}
    (ht : t.kind = kind) (hf : Throws (f (some t)) w r i cause j) :
    Throws (Parse.accept kind >>= f) (t :: w) r i cause j :=
  .acceptIf (decide_eq_true ht) hf

theorem Throws.accept_none {kind : Token.Kind} {f : Option Token → Parse β}
    (hw : Ahead (· = kind) (w ++ r) = false) (hf : Throws (f none) w r i cause j) :
    Throws (Parse.accept kind >>= f) w r i cause j :=
  .acceptIf_none hw hf

theorem Throws.expect {kind : Token.Kind} {cause' : Cause} {f : Token → Parse β} {t : Token}
    (ht : t.kind = kind) (hf : Throws (f t) w r i cause j) :
    Throws (Parse.expect kind cause' >>= f) (t :: w) r i cause j :=
  Takes.throws (u := [t]) (.accept ht (.pure t)) hf

/-- The token is not there. -/
theorem Throws.missing {kind : Token.Kind} (hr : Ahead (· = kind) r = false) :
    Throws (Parse.expect kind cause) [] r i cause i :=
  .accept_none hr .fail

theorem Throws.test {kind : Token.Kind} {f : Bool → Parse β} {c : Bool}
    (hw : Ahead (· = kind) (w ++ r) = c) (hf : Throws (f c) w r i cause j) :
    Throws (nextIs kind >>= f) w r i cause j := by
  intro last faults
  rw [run_bind, run_nextIs, hw]
  exact hf last faults

end Rules

/-! ## Expressions -/

/-- An expression ends before anything but an operator, an argument list or an equals sign. -/
theorem takes_expression {r : List Token} (hr : Tight 6 r) (heq : Ahead (· = .equal) r = false)
    {n : Nat} {w : List Token} {i j : NodeId} {e : Expr} (h : Reads .expression w i e j)
    (hn : 15 + 32 * w.length ≤ n) : Takes (expression n) w r i e j := by
  induction n generalizing w i e j with
  | zero => omega
  | succ n ih =>
      rw [expression]
      cases h with
      | value h =>
          have hl : Takes (level n .disjunction) w r i e j :=
            finds n (.level .disjunction) w r i e j h hr (show 14 + 32 * w.length ≤ n by omega)
          exact hl.bind_last (.accept_none heq (.pure e))
      | @assign t equals w e i j ht hequals h =>
          rw [List.length_cons, List.length_cons] at hn
          have hl : Takes (level n .disjunction) [t] (equals :: w ++ r) i (.variable i t) (i + 1) :=
            finds n (.level .disjunction) [t] _ i _ _ (.of_name ht i)
              (tight_of_ahead (p := (· = .equal)) (ahead_kind hequals rfl)
                (fun l kind hk => by rw [of_decide_eq_true hk]; cases l <;> rfl) rfl _)
              (show 14 + 32 * 1 ≤ n by omega)
          have he : Takes (expression n) w r (i + 1) e j := ih h (by omega)
          exact hl.bind (v := equals :: w) (.accept hequals (he.bind_last (.freshId (.pure _))))

section Missing

variable {r : List Token} (hr : Ahead beginsExpression r = false)
include hr

theorem throws_unary {n : Nat} (hn : 2 ≤ n) (i : NodeId) :
    Throws (unary n) [] r i .expectExpression i := by
  obtain ⟨n, rfl⟩ := Nat.exists_eq_add_of_le' hn
  have hhead (wanted : Token.Kind → Bool)
      (h : ∀ kind, wanted kind = true → beginsExpression kind = true) : Ahead wanted r = false := by
    cases hw : Ahead wanted r with
    | false => rfl
    | true => exact (ahead_mono h hw).symm.trans hr
  have hprimary : Throws (primary (n + 1)) [] r i .expectExpression i :=
    .acceptIf_none (hhead beginsPrimary fun _ h => Bool.or_eq_true_iff.mpr (.inr h)) .fail
  exact .acceptIf_none (hhead isUnary fun _ h => Bool.or_eq_true_iff.mpr (.inl h)) (hprimary.bind _)

theorem throws_level {n : Nat} (l : Level) (hn : 4 + 2 * l.depth ≤ n) (i : NodeId) :
    Throws (level n l) [] r i .expectExpression i := by
  obtain ⟨n, rfl⟩ : ∃ k, n = k + 2 := ⟨n - 2, by omega⟩
  have hoperand : Throws (operand (n + 1) l) [] r i .expectExpression i := by
    rw [operand]
    cases hl : l.tighter? with
    | none => exact throws_unary hr (by omega) i
    | some m =>
        have hdepth := Level.depth_of_tighter hl
        exact throws_level m (by omega) i
  exact hoperand.bind _
termination_by l.depth

/-- There is no expression. -/
theorem throws_expression {n : Nat} (hn : 15 ≤ n) (i : NodeId) :
    Throws (expression n) [] r i .expectExpression i := by
  obtain ⟨n, rfl⟩ := Nat.exists_eq_add_of_le' hn
  exact (throws_level hr .disjunction (by rw [Level.depth]; omega) i).bind _

end Missing

/-! ## Statements -/

/-- `Unended p w i j cause goesOn` says that the tokens `w` are a statement less its semicolon, in
a place of the phrase `p`. The fault `cause` is reported behind it, unless there is a token of the
kinds `goesOn`, with which it goes on. The numbers `i` and `j` are those before and after it. -/
inductive Unended :
    Phrase → List Token → NodeId → NodeId → Cause → (Token.Kind → Bool) → Prop
  | expression {w : List Token} {e : Expr} {i j : NodeId} (h : Reads .expression w i e j) :
      Unended .statement w i j .expectSemicolonAfterExpression continues
  | print {t : Token} {w : List Token} {e : Expr} {i j : NodeId} (ht : t.kind = .kwPrint)
      (h : Reads .expression w i e j) :
      Unended .statement (t :: w) i j .expectSemicolonAfterValue continues
  | ret {t : Token} {w : List Token} {e : Expr} {i j : NodeId} (ht : t.kind = .kwReturn)
      (h : Reads .expression w i e j) :
      Unended .statement (t :: w) i j .expectSemicolonAfterReturnValue continues
  | bareRet {t : Token} {i : NodeId} (ht : t.kind = .kwReturn) :
      Unended .statement [t] i i .expectExpression beginsExpression
  | var {t name equals : Token} {w : List Token} {e : Expr} {i j : NodeId} (ht : t.kind = .kwVar)
      (hname : name.kind = .identifier) (hequals : equals.kind = .equal)
      (h : Reads .expression w i e j) :
      Unended .declared (t :: name :: equals :: w) i j .expectSemicolonAfterDeclaration continues
  | bareVar {t name : Token} {i : NodeId} (ht : t.kind = .kwVar)
      (hname : name.kind = .identifier) :
      Unended .declared [t, name] i i .expectSemicolonAfterDeclaration fun _ => false

section Statements

variable {p : Phrase} {w r : List Token} {i j : NodeId} {cause : Cause}
  {goesOn : Token.Kind → Bool}

theorem Unended.begins_statement (h : Unended .statement w i j cause goesOn) :
    Ahead beginsPlain w = true := by
  cases h with
  | expression h => exact ahead_mono (fun _ h => Bool.or_eq_true_iff.2 (.inr h)) h.begins
  | print ht | ret ht | bareRet ht => exact ahead_kind ht rfl

theorem throws_statement (h : Unended .statement w i j cause goesOn) (hr : Next r)
    (hgoesOn : Ahead goesOn r = false) {n : Nat} (hn : 16 + 32 * w.length ≤ n) :
    Throws (statement n) w r i cause j := by
  obtain ⟨n, rfl⟩ : ∃ k, n = k + 1 := ⟨n - 1, by omega⟩
  have hsemicolon : Ahead (· = .semicolon) r = false :=
    hr.ahead_ne fun kind hk => by cases kind <;> first | rfl | cases hk
  have hequal : Ahead (· = .equal) r = false :=
    hr.ahead_ne fun kind hk => by cases kind <;> first | rfl | cases hk
  rw [statement]
  cases h with
  | @expression w e _ _ h =>
      have he : Takes (expression n) w r i e j :=
        takes_expression (hr.tight hgoesOn 6) hequal h (by omega)
      refine .acceptIf_none (ahead_ne (fun kind hk => ?_) (ahead_append h.begins r))
        (he.throws_last ((Throws.missing hsemicolon).bind _))
      cases kind <;> first | rfl | cases hk
  | @print t w e _ _ ht h =>
      rw [List.length_cons] at hn
      have he : Takes (expression n) w r i e j :=
        takes_expression (hr.tight hgoesOn 6) hequal h (by omega)
      refine .acceptIf (by rw [ht]; rfl) ?_
      dsimp only
      rw [ht]
      exact he.throws_last ((Throws.missing hsemicolon).bind _)
  | @ret t w e _ _ ht h =>
      rw [List.length_cons] at hn
      have he : Takes (expression n) w r i e j :=
        takes_expression (hr.tight hgoesOn 6) hequal h (by omega)
      have hvalue : Takes (expressionUnless n .semicolon) w r i (some e) j := by
        refine .test (c := false) (ahead_ne (fun kind hk => ?_) (ahead_append h.begins r))
          (he.bind_last (.pure _))
        cases kind <;> first | rfl | cases hk
      refine .acceptIf (by rw [ht]; rfl) ?_
      dsimp only
      rw [ht]
      exact hvalue.throws_last ((Throws.missing hsemicolon).bind _)
  | @bareRet t _ ht =>
      have hvalue : Throws (expressionUnless n .semicolon) [] r i .expectExpression i := by
        refine .test (c := false) hsemicolon ((throws_expression hgoesOn ?_ i).bind _)
        rw [List.length_singleton] at hn
        omega
      refine .acceptIf (by rw [ht]; rfl) ?_
      dsimp only
      rw [ht]
      exact hvalue.bind _

/-- The parser reads the statement and throws behind it, unless it goes on. -/
theorem throws_declared (h : Unended p w i j cause goesOn) (hr : Next r)
    (hgoesOn : Ahead goesOn r = false) {n : Nat} (hn : 17 + 32 * w.length ≤ n) :
    Throws (declared n) w r i cause j := by
  obtain ⟨n, rfl⟩ : ∃ k, n = k + 1 := ⟨n - 1, by omega⟩
  have hsemicolon : Ahead (· = .semicolon) r = false :=
    hr.ahead_ne fun kind hk => by cases kind <;> first | rfl | cases hk
  have hequal : Ahead (· = .equal) r = false :=
    hr.ahead_ne fun kind hk => by cases kind <;> first | rfl | cases hk
  have hstatement (h : Unended .statement w i j cause goesOn) :
      Throws (declared (n + 1)) w r i cause j := by
    have hb := ahead_append h.begins_statement r
    rw [declared]
    refine .accept_none (ahead_ne (fun kind hk => ?_) hb)
      (.accept_none (ahead_ne (fun kind hk => ?_) hb) (throws_statement h hr hgoesOn (by omega)))
    · cases kind <;> first | rfl | cases hk
    · cases kind <;> first | rfl | cases hk
  cases h with
  | @var t name equals w e _ _ ht hname hequals h =>
      simp only [List.length_cons] at hn
      have he : Takes (expression n) w r i e j :=
        takes_expression (hr.tight hgoesOn 6) hequal h (by omega)
      exact .accept_none (ahead_kind_ne ht rfl) (.accept ht (.expect hname (.accept hequals
        ((he.map some).throws_last ((Throws.missing hsemicolon).bind _)))))
  | @bareVar t name _ ht hname =>
      exact .accept_none (ahead_kind_ne ht rfl) (.accept ht (.expect hname (.accept_none hequal
        ((Throws.missing hsemicolon).bind _))))
  | expression h => exact hstatement (.expression h)
  | print ht h => exact hstatement (.print ht h)
  | ret ht h => exact hstatement (.ret ht h)
  | bareRet ht => exact hstatement (.bareRet ht)

end Statements

end Lox.Parse
