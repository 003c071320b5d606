import Lox.Proofs.Parser.Unended
import Lox.Proofs.Parser.Writing

/-!
# Statements that go on

If the semicolon of a statement is left out and the next statement begins with a minus or an
opening parenthesis, the two are one statement: what begins the next expression is an operator or
an argument list behind the one before it. This changes how the tokens group, but they can still be
read.
-/

namespace Lox.Parse

/-! ## From any first number -/

/-- What can be read from one first number can be read from any, and with the same end. -/
theorem Reads.anywhere {p : Phrase} {w : List Token} {i j : NodeId} {a : p.Tree}
    (h : Reads p w i a j) (i' : NodeId) :
    ∃ b k, Reads p w i' b k ∧ p.dangling b = p.dangling a := by
  induction h generalizing i' with
  | value _ ih =>
      obtain ⟨e, k, he, -⟩ := ih i'
      exact ⟨e, k, .value he, rfl⟩
  | assign ht heq _ ih =>
      obtain ⟨e, k, he, -⟩ := ih (i' + 1)
      exact ⟨_, _, .assign ht heq he, rfl⟩
  | level _ _ ih ih' =>
      obtain ⟨e, k, he, -⟩ := ih i'
      obtain ⟨rest, l, hr, -⟩ := ih' k
      exact ⟨_, l, .level he hr, rfl⟩
  | levelEnd => exact ⟨_, _, .levelEnd, rfl⟩
  | levelMore ho _ _ ih ih' =>
      obtain ⟨e, k, he, -⟩ := ih i'
      obtain ⟨rest, l, hr, -⟩ := ih' k
      exact ⟨_, l, .levelMore ho he hr, rfl⟩
  | tighter hl _ ih =>
      obtain ⟨e, k, he, -⟩ := ih i'
      exact ⟨e, k, .tighter hl he, rfl⟩
  | tightest hl _ ih =>
      obtain ⟨e, k, he, -⟩ := ih i'
      exact ⟨e, k, .tightest hl he, rfl⟩
  | operator ht _ ih =>
      obtain ⟨e, k, he, -⟩ := ih i'
      exact ⟨_, k, .operator ht he, rfl⟩
  | call _ _ ih ih' =>
      obtain ⟨e, k, he, -⟩ := ih i'
      obtain ⟨calls, l, hc, -⟩ := ih' k
      exact ⟨_, l, .call he hc, rfl⟩
  | callEnd => exact ⟨_, _, .callEnd, rfl⟩
  | callMore ht _ hp _ ih ih' =>
      obtain ⟨args, k, ha, -⟩ := ih i'
      obtain ⟨calls, l, hc, -⟩ := ih' k
      exact ⟨_, l, .callMore ht ha hp hc, rfl⟩
  | noArguments => exact ⟨_, _, .noArguments, rfl⟩
  | someArguments _ ih =>
      obtain ⟨args, k, ha, -⟩ := ih i'
      exact ⟨args, k, .someArguments ha, rfl⟩
  | lastArgument hn _ ih =>
      obtain ⟨e, k, he, -⟩ := ih i'
      exact ⟨_, k, .lastArgument hn he, rfl⟩
  | moreArguments hn _ hc _ ih ih' =>
      obtain ⟨e, k, he, -⟩ := ih i'
      obtain ⟨es, l, hes, -⟩ := ih' k
      exact ⟨_, l, .moreArguments hn he hc hes, rfl⟩
  | constant ht => exact ⟨_, _, .constant ht, rfl⟩
  | name ht => exact ⟨_, _, .name ht, rfl⟩
  | group ht _ hp ih =>
      obtain ⟨e, k, he, -⟩ := ih i'
      exact ⟨_, k, .group ht he hp, rfl⟩
  | lastParam hn ht => exact ⟨_, _, .lastParam hn ht, rfl⟩
  | moreParams hn ht hc _ ih =>
      obtain ⟨ts, k, h, -⟩ := ih i'
      exact ⟨_, k, .moreParams hn ht hc h, rfl⟩
  | noExpression => exact ⟨_, _, .noExpression, rfl⟩
  | someExpression _ ih =>
      obtain ⟨e, k, he, -⟩ := ih i'
      exact ⟨_, k, .someExpression he, rfl⟩
  | varBare ht hs => exact ⟨_, _, .varBare ht hs, rfl⟩
  | varValue ht heq _ hs ih =>
      obtain ⟨e, k, he, -⟩ := ih i'
      exact ⟨_, k, .varValue ht heq he hs, rfl⟩
  | expressionStatement _ hs ih =>
      obtain ⟨e, k, he, -⟩ := ih i'
      exact ⟨_, k, .expressionStatement he hs, rfl⟩
  | printStatement _ hs ih =>
      obtain ⟨e, k, he, -⟩ := ih i'
      exact ⟨_, k, .printStatement he hs, rfl⟩
  | returnStatement _ hs ih =>
      obtain ⟨o, k, ho, -⟩ := ih i'
      exact ⟨_, k, .returnStatement ho hs, rfl⟩
  | noInitializer hs => exact ⟨_, _, .noInitializer hs, rfl⟩
  | varInitializer ht _ ih =>
      obtain ⟨s, k, hs, -⟩ := ih i'
      exact ⟨_, k, .varInitializer ht hs, rfl⟩
  | valueInitializer _ ih =>
      obtain ⟨s, k, hs, -⟩ := ih i'
      exact ⟨_, k, .valueInitializer hs, rfl⟩
  | declaration _ ih =>
      obtain ⟨s, k, hs, hd⟩ := ih i'
      exact ⟨some s, k, .declaration hs, hd⟩
  | functionDeclared ht _ ih =>
      obtain ⟨s, k, hs, hd⟩ := ih i'
      exact ⟨s, k, .functionDeclared ht hs, hd⟩
  | varDeclared ht _ ih =>
      obtain ⟨s, k, hs, hd⟩ := ih i'
      exact ⟨s, k, .varDeclared ht hs, hd⟩
  | statementDeclared _ ih =>
      obtain ⟨s, k, hs, hd⟩ := ih i'
      exact ⟨s, k, .statementDeclared hs, hd⟩
  | functionBare hn ho hc hb _ ih =>
      obtain ⟨body, k, h, -⟩ := ih i'
      exact ⟨_, k, .functionBare hn ho hc hb h, rfl⟩
  | functionParams hn ho _ hc hb _ ih ih' =>
      obtain ⟨params, k, hp, -⟩ := ih i'
      obtain ⟨body, l, h, -⟩ := ih' k
      exact ⟨_, l, .functionParams hn ho hp hc hb h, rfl⟩
  | statementPlain _ ih =>
      obtain ⟨s, k, hs, hd⟩ := ih i'
      exact ⟨s, k, .statementPlain hs, hd⟩
  | statementFor ht _ ih =>
      obtain ⟨s, k, hs, hd⟩ := ih i'
      exact ⟨s, k, .statementFor ht hs, hd⟩
  | statementIf ht _ ih =>
      obtain ⟨s, k, hs, hd⟩ := ih i'
      exact ⟨s, k, .statementIf ht hs, hd⟩
  | statementPrint ht _ ih =>
      obtain ⟨s, k, hs, hd⟩ := ih i'
      exact ⟨s, k, .statementPrint ht hs, hd⟩
  | statementReturn ht _ ih =>
      obtain ⟨s, k, hs, hd⟩ := ih i'
      exact ⟨s, k, .statementReturn ht hs, hd⟩
  | statementWhile ht _ ih =>
      obtain ⟨s, k, hs, hd⟩ := ih i'
      exact ⟨s, k, .statementWhile ht hs, hd⟩
  | statementBlock ht _ ih =>
      obtain ⟨body, k, h, -⟩ := ih i'
      exact ⟨_, k, .statementBlock ht h, rfl⟩
  | forStatement ho _ _ hs _ hc _ ihi ihd ihn ihb =>
      obtain ⟨initializer, j, hi, -⟩ := ihi i'
      obtain ⟨condition, k, hd, -⟩ := ihd j
      obtain ⟨increment, l, hn, -⟩ := ihn k
      obtain ⟨body, m, hb, hdangling⟩ := ihb l
      exact ⟨_, m, .forStatement ho hi hd hs hn hc hb, hdangling⟩
  | ifBare ho _ hc _ ihd iht =>
      obtain ⟨condition, j, hd, -⟩ := ihd i'
      obtain ⟨thenBranch, k, ht, -⟩ := iht j
      exact ⟨_, k, .ifBare ho hd hc ht, rfl⟩
  | ifElse ho _ hc _ hn hk _ ihd iht ihe =>
      obtain ⟨condition, j, hd, -⟩ := ihd i'
      obtain ⟨thenBranch, k, ht, hthen⟩ := iht j
      obtain ⟨elseBranch, l, he, helse⟩ := ihe k
      exact ⟨_, l, .ifElse ho hd hc ht (hthen.trans hn) hk he, helse⟩
  | whileStatement ho _ hc _ ihd ihb =>
      obtain ⟨condition, j, hd, -⟩ := ihd i'
      obtain ⟨body, k, hb, hdangling⟩ := ihb j
      exact ⟨_, k, .whileStatement ho hd hc hb, hdangling⟩
  | block _ hb ih =>
      obtain ⟨body, k, h, -⟩ := ih i'
      exact ⟨body, k, .block h hb, rfl⟩
  | declarationsEnd => exact ⟨_, _, .declarationsEnd, rfl⟩
  | declarationsMore _ _ ih ih' =>
      obtain ⟨o, k, hs, -⟩ := ih i'
      obtain ⟨rest, l, hr, -⟩ := ih' k
      cases hs with
      | declaration hs => exact ⟨_, l, .declarationsMore (.declaration hs) hr, rfl⟩

theorem Reads.found {p : Phrase} {w : List Token} {i j : NodeId} {a : p.Tree}
    (h : Reads p w i a j) : Found p w := fun i' =>
  let ⟨b, k, hb, _⟩ := h.anywhere i'
  ⟨b, k, hb⟩

/-! ## Expressions that go on -/

/-- Behind whatever is read as the phrase the tokens `v` are more of it. -/
def Prolongs (p : Phrase) (v : List Token) : Prop :=
  ∀ w i a j, Reads p w i a j → ∃ b k, Reads p (w ++ v) i b k

/-- The last operand goes on, and more operators may follow. -/
theorem Prolongs.level {l : Level} {u v : List Token} (hu : Prolongs (.operand l) u)
    (hv : Found (.levelRest l) v) : Prolongs (.level l) (u ++ v) := by
  -- the induction is on the operands behind the first
  have hall : ∀ (rest : List (Token × Expr)) {x y : List Token} {i j k : NodeId} {e : Expr},
      Reads (.operand l) x i e j → Reads (.levelRest l) y j rest k →
      ∃ x' y' e' rest' j' k', x ++ y ++ (u ++ v) = x' ++ y' ∧ Reads (.operand l) x' i e' j' ∧
        Reads (.levelRest l) y' j' rest' k' := by
    intro rest
    induction rest with
    | nil =>
        intro x y i j k e hx hy
        cases hy with
        | levelEnd =>
            obtain ⟨e', j', hx'⟩ := hu _ _ _ _ hx
            obtain ⟨rest', k', hv'⟩ := hv j'
            exact ⟨_, v, e', rest', j', k', by simp, hx', hv'⟩
    | cons r rest ih =>
        intro x y i j k e hx hy
        cases hy with
        | levelMore ho hy hr =>
            obtain ⟨x', y', e', rest', j', k', heq, hx', hy'⟩ := ih hy hr
            exact ⟨x, _, e, _, j, k', by simp [← heq], hx, .levelMore ho hx' hy'⟩
  intro w i e j h
  cases h with
  | level hx hy =>
      obtain ⟨x', y', e', rest', j', k', heq, hx', hy'⟩ := hall _ hx hy
      exact ⟨_, k', (Reads.level hx' hy').of_eq heq.symm⟩

/-- What begins with a parenthesis is an argument list, and maybe more of them. -/
theorem found_callRest_of_unary {v : List Token} {i j : NodeId} {e : Expr}
    (h : Reads .unary v i e j) (hv : Ahead (· = .leftParen) v = true) : Found .callRest v := by
  cases h with
  | operator ht =>
      rw [ahead_cons, decide_eq_true_eq] at hv
      rw [hv] at ht
      cases ht
  | call he hc =>
      cases he with
      | constant ht =>
          rw [List.singleton_append, ahead_cons, decide_eq_true_eq] at hv
          rw [Token.constant?, hv] at ht
          cases ht
      | name ht =>
          rw [List.singleton_append, ahead_cons, decide_eq_true_eq, ht] at hv
          cases hv
      | @group t paren w e _ _ ht he hp =>
          intro i'
          obtain ⟨e', k, he'⟩ := he.found i'
          obtain ⟨calls, l, hc'⟩ := hc.found k
          have hcall := Reads.callMore ht (.someArguments (.lastArgument (by decide) he')) hp hc'
          exact ⟨_, l, by simpa using hcall⟩

theorem prolongs_unary {v : List Token} {i j : NodeId} {e : Expr} (h : Reads .unary v i e j)
    (hv : Ahead (· = .leftParen) v = true) : Prolongs .unary v := by
  intro w
  induction hlen : w.length using Nat.strongRecOn generalizing w with
  | ind n ih =>
      intro i e j hw
      cases hw with
      | @operator t w e _ _ ht hw =>
          obtain ⟨e', k, hw'⟩ := ih w.length (by simp [← hlen]) w rfl _ _ _ hw
          exact ⟨_, k, .operator ht hw'⟩
      | @call x y e calls _ _ _ hx hy =>
          obtain ⟨calls', k, hcalls⟩ := found_callRest_of_unary h hv j
          exact ⟨_, k, (Reads.call hx (hy.callRest_append hcalls)).of_eq (by simp)⟩

/-- What is ahead is in the first of two parts, if there is anything in it. -/
theorem ahead_left {p q : Token.Kind → Bool} {u v : List Token} (hu : Ahead q u = true)
    (h : Ahead p (u ++ v) = true) : Ahead p u = true := by
  cases u with
  | nil => exact absurd hu Bool.false_ne_true
  | cons t u => exact h

theorem found_of_minus {v : List Token} {i j : NodeId} {e : Expr} (h : Reads .unary v i e j)
    (hv : Ahead (· = .minus) v = true) :
    ∃ t u, v = t :: u ∧ t.kind = .minus ∧ Found .unary u := by
  cases h with
  | operator ht h => exact ⟨_, _, rfl, of_decide_eq_true hv, h.found⟩
  | call h =>
      have hne : Ahead (· = .minus) _ = false := ahead_ne (fun kind hk => by
        cases kind <;> first | rfl | cases hk) h.begins
      exact absurd (hne.symm.trans (ahead_left h.begins hv)) Bool.false_ne_true

/-- What begins with a minus is an operator with its operand, and maybe more of them. -/
theorem found_levelRest_of_sum {v : List Token} {i j : NodeId} {e : Expr}
    (h : Reads (.level .sum) v i e j) (hv : Ahead (· = .minus) v = true) :
    Found (.levelRest .sum) v := by
  cases h with
  | @level _ x rest _ _ _ _ _ hx hrest =>
      have hx' : ∃ t u, x = t :: u ∧ t.kind = .minus ∧ Found (.operand .sum) u := by
        cases hx with
        | tightest hl => cases hl
        | tighter hl hx =>
            cases hl
            cases hx with
            | @level _ y rest _ _ _ _ _ hy hrest =>
                cases hy with
                | tighter hl => cases hl
                | tightest _ hy =>
                    have hhead := ahead_left (ahead_append hy.begins rest) hv
                    obtain ⟨t, u, rfl, ht, hu⟩ := found_of_minus hy (ahead_left hy.begins hhead)
                    refine ⟨t, u ++ rest, rfl, ht, fun i' => ?_⟩
                    obtain ⟨e', k, hu'⟩ := hu i'
                    obtain ⟨rest', l, hrest'⟩ := hrest.found k
                    exact ⟨_, l, .tighter rfl (.level (.tightest rfl hu') hrest')⟩
      obtain ⟨t, u, rfl, ht, hu⟩ := hx'
      intro i'
      obtain ⟨e', k, hu'⟩ := hu i'
      obtain ⟨rest', l, hrest'⟩ := hrest.found k
      exact ⟨_, l, .levelMore (by rw [ht]; rfl) hu' hrest'⟩

theorem prolongs_sum {v : List Token} {i j : NodeId} {e : Expr} (h : Reads (.level .sum) v i e j)
    (hv : Ahead (· = .minus) v = true) : Prolongs (.level .sum) v := by
  intro w i e j hw
  cases hw with
  | level hx hy =>
      obtain ⟨rest, k, hmore⟩ := found_levelRest_of_sum h hv _
      exact ⟨_, k, (Reads.level hx (hy.levelRest_append hmore)).of_eq (by simp)⟩

/-- An operand goes on as what it consists of does. -/
theorem Prolongs.operand {l : Level} {v : List Token}
    (hunary : l.tighter? = none → Prolongs .unary v)
    (hlevel : ∀ m, l.tighter? = some m → Prolongs (.level m) v) : Prolongs (.operand l) v := by
  intro w i e j h
  cases h with
  | tightest hl h =>
      obtain ⟨e', k, h'⟩ := hunary hl _ _ _ _ h
      exact ⟨e', k, .tightest hl h'⟩
  | tighter hl h =>
      obtain ⟨e', k, h'⟩ := hlevel _ hl _ _ _ _ h
      exact ⟨e', k, .tighter hl h'⟩

/-- An expression of a level goes on with one that begins with a parenthesis, and on the levels of
the minus and above also with one that begins with a minus. -/
theorem prolongs_level {l : Level} {v : List Token} {i j : NodeId} {e : Expr}
    (h : Reads (.level l) v i e j)
    (hv : Ahead (· = .leftParen) v = true ∨ Ahead (· = .minus) v = true ∧ 1 ≤ l.depth) :
    Prolongs (.level l) v := by
  by_cases hsum : l = .sum ∧ Ahead (· = .minus) v = true
  · obtain ⟨rfl, hminus⟩ := hsum
    exact prolongs_sum h hminus
  cases h with
  | @level _ x rest _ _ _ _ _ hx hrest =>
      refine .level ?_ hrest.found
      have hhead {wanted : Token.Kind → Bool} (ha : Ahead wanted (x ++ rest) = true) :
          Ahead wanted x = true := ahead_left hx.begins ha
      refine .operand (fun hl => ?_) fun m hm => ?_
      · cases hx with
        | tighter hl' => rw [hl] at hl'; cases hl'
        | tightest _ hx =>
            refine prolongs_unary hx (hhead (hv.resolve_right fun hminus => ?_))
            have hdepth := hminus.2
            cases l <;> first | exact absurd hdepth (by decide) | cases hl
      · have hdepth := Level.depth_of_tighter hm
        cases hx with
        | tightest hl' => rw [hm] at hl'; cases hl'
        | tighter hl' hx =>
            rw [hm] at hl'
            cases hl'
            refine prolongs_level hx (hv.imp hhead fun hminus => ⟨hhead hminus.1, ?_⟩)
            cases l <;> cases hm <;> first | decide | exact absurd ⟨rfl, hminus.1⟩ hsum
termination_by l.depth

theorem prolongs_expression {v : List Token} {i j : NodeId} {e : Expr}
    (h : Reads .expression v i e j) (hv : Ahead continues v = true) : Prolongs .expression v := by
  have hlevel : Prolongs (.level .disjunction) v := by
    cases h with
    | assign ht => rw [ahead_cons, ht] at hv; cases hv
    | value h =>
        refine prolongs_level h ?_
        cases v with
        | nil => cases hv
        | cons t v =>
            rcases Bool.or_eq_true_iff.mp hv with hminus | hparen
            · exact .inr ⟨hminus, by decide⟩
            · exact .inl hparen
  intro w
  induction hlen : w.length using Nat.strongRecOn generalizing w with
  | ind n ih =>
      intro i e j hw
      cases hw with
      | value hw =>
          obtain ⟨e', k, hw'⟩ := hlevel _ _ _ _ hw
          exact ⟨e', k, .value hw'⟩
      | @assign t equals w e _ _ ht heq hw =>
          have hlt : w.length < n := by
            rw [← hlen, List.length_cons, List.length_cons]
            omega
          obtain ⟨e', k, hw'⟩ := ih w.length hlt w rfl _ _ _ hw
          exact ⟨_, _, .assign ht heq hw'⟩

/-- A statement that lacks its semicolon goes on with an expression statement. -/
theorem Unended.joined {p : Phrase} {w v : List Token} {i j : NodeId} {cause : Cause}
    {goesOn : Token.Kind → Bool} (h : Unended p w i j cause goesOn)
    (hv : Found .expressionStatement v) (hgoesOn : Ahead goesOn v = true) : Found p (w ++ v) := by
  obtain ⟨s, k, hs⟩ := hv 0
  cases hs with
  | @expressionStatement semicolon x e _ _ hx hsemicolon =>
      have hjoined {y : List Token} {i j : NodeId} {a : Expr} (hy : Reads .expression y i a j)
          (hgoesOn : Ahead continues (x ++ [semicolon]) = true) : Found .expression (y ++ x) := by
        obtain ⟨b, k, hb⟩ := prolongs_expression hx (ahead_left hx.begins hgoesOn) _ _ _ _ hy
        exact hb.found
      intro i'
      cases h with
      | expression hy =>
          obtain ⟨b, k, hb⟩ := hjoined hy hgoesOn i'
          exact ⟨_, k, (Reads.statementPlain (.expressionStatement hb hsemicolon)).of_eq
            (by simp)⟩
      | print ht hy =>
          obtain ⟨b, k, hb⟩ := hjoined hy hgoesOn i'
          exact ⟨_, k, (Reads.statementPrint ht (.printStatement hb hsemicolon)).of_eq (by simp)⟩
      | ret ht hy =>
          obtain ⟨b, k, hb⟩ := hjoined hy hgoesOn i'
          exact ⟨_, k, (Reads.statementReturn ht
            (.returnStatement (.someExpression hb) hsemicolon)).of_eq (by simp)⟩
      | bareRet ht =>
          obtain ⟨b, k, hb⟩ := hx.found i'
          exact ⟨_, k, (Reads.statementReturn ht
            (.returnStatement (.someExpression hb) hsemicolon)).of_eq (by simp)⟩
      | var ht hname hequals hy =>
          obtain ⟨b, k, hb⟩ := hjoined hy hgoesOn i'
          exact ⟨_, k, (Reads.varDeclared ht (.varValue hname hequals hb hsemicolon)).of_eq
            (by simp)⟩
      | bareVar => cases x <;> cases hgoesOn

end Lox.Parse
