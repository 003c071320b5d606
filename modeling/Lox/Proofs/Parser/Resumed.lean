import Lox.Proofs.Parser.Unended
import Lox.Proofs.Parser.Writing

/-!
# Where reading is taken up again

Behind a statement that lacks its semicolon the fault is found at the first token of what
follows. Recovery passes over that token before it looks for the beginning of a statement, even
if the token begins one. So the statement that it begins is not read from its beginning: reading
is taken up again behind its first semicolon, or at the next word in it that begins a statement.
-/

namespace Lox

/-- What is reported behind a statement that lacks the semicolon at its end. Behind a bare `return`
an expression is expected first. Other statements do not end in a semicolon of their own. -/
def Stmt.missing? : Stmt → Option Parse.Cause
  | .expression _ => some .expectSemicolonAfterExpression
  | .print _ => some .expectSemicolonAfterValue
  | .var _ _ => some .expectSemicolonAfterDeclaration
  | .ret _ (some _) => some .expectSemicolonAfterReturnValue
  | .ret _ none => some .expectExpression
  | _ => none

namespace Parse

/-! ## Statements that end in a semicolon -/

/-- No word that begins a statement goes on with the one before it. -/
def Apart (goesOn : Token.Kind → Bool) : Prop :=
  ∀ kind : Token.Kind, kind.beginsStatement = true → goesOn kind = false

theorem apart_continues : Apart continues := fun kind h => by
  cases kind <;> first | rfl | cases h

theorem apart_beginsExpression : Apart beginsExpression := fun kind h => by
  cases kind <;> first | rfl | cases h

/-- A statement that ends in a semicolon, without it. -/
theorem Reads.unended {w : List Token} {s : Stmt} {i j : NodeId} (h : Reads .declared w i s j)
    {cause : Cause} (hs : s.missing? = some cause) :
    ∃ p u semicolon goesOn, w = u ++ [semicolon] ∧ semicolon.kind = .semicolon ∧
      Unended p u i j cause goesOn ∧ Apart goesOn := by
  cases h with
  | functionDeclared _ h => cases h <;> cases hs
  | varDeclared ht h =>
      cases h with
      | varBare hname hsemicolon =>
          cases hs
          exact ⟨_, [_, _], _, _, rfl, hsemicolon, .bareVar ht hname, fun _ _ => rfl⟩
      | @varValue name equals semicolon u e _ _ hname hequals h hsemicolon =>
          cases hs
          exact ⟨_, _ :: name :: equals :: u, _, _, rfl, hsemicolon, .var ht hname hequals h,
            apart_continues⟩
  | statementDeclared h =>
      cases h with
      | statementPlain h =>
          cases h with
          | expressionStatement h hsemicolon =>
              cases hs
              exact ⟨_, _, _, _, rfl, hsemicolon, .expression h, apart_continues⟩
      | statementPrint ht h =>
          cases h with
          | @printStatement semicolon u e _ _ h hsemicolon =>
              cases hs
              exact ⟨_, _ :: u, _, _, rfl, hsemicolon, .print ht h, apart_continues⟩
      | statementReturn ht h =>
          cases h with
          | @returnStatement _ semicolon u o _ _ h hsemicolon =>
              cases h with
              | noExpression =>
                  cases hs
                  exact ⟨_, [_], _, _, rfl, hsemicolon, .bareRet ht, apart_beginsExpression⟩
              | someExpression h =>
                  cases hs
                  exact ⟨_, _ :: u, _, _, rfl, hsemicolon, .ret ht h, apart_continues⟩
      | statementFor _ h => cases h; cases hs
      | statementIf _ h => cases h <;> cases hs
      | statementWhile _ h => cases h; cases hs
      | statementBlock => cases hs

/-- Where one declaration is read and no more. -/
theorem Reads.of_singleton {w : List Token} {s : Stmt} {i j : NodeId}
    (h : Reads (.declarations false) w i [s] j) : Reads .declared w i s j := by
  cases h with
  | @declarationsMore _ u v _ _ _ k _ hs hr =>
      cases hr with
      | declarationsEnd =>
          cases hs with
          | declaration hs => rwa [List.append_nil]

/-! ## What recovery passes over -/

/-- The kinds of tokens at which recovery neither stops nor goes on. -/
def passedOver (kind : Token.Kind) : Bool := decide (kind ≠ .semicolon) && !kind.beginsStatement

theorem passedOver_of_has {l : Level} {kind : Token.Kind} (h : l.has kind = true) :
    passedOver kind = true := by
  cases l <;> cases kind <;> first | rfl | cases h

theorem passedOver_of_unary {kind : Token.Kind} (h : isUnary kind = true) :
    passedOver kind = true := by
  cases kind <;> first | rfl | cases h

theorem passedOver_of_primary {kind : Token.Kind} (h : beginsPrimary kind = true) :
    passedOver kind = true := by
  cases kind <;> first | rfl | cases h

theorem passedOver_of_eq {t : Token} {kind : Token.Kind} (ht : t.kind = kind)
    (hk : passedOver kind = true) : passedOver t.kind = true := by
  rw [ht, hk]

/-- The phrases of expressions. -/
def Phrase.inExpression : Phrase → Bool
  | .expression | .level _ | .levelRest _ | .operand _ | .unary | .callRest | .arguments
  | .argumentsFrom _ | .primary => true
  | _ => false

/-- Recovery passes over expressions. -/
theorem Reads.passedOver {p : Phrase} {w : List Token} {i j : NodeId} {a : p.Tree}
    (h : Reads p w i a j) (hexpr : p.inExpression = true) : ∀ t ∈ w, passedOver t.kind = true := by
  induction h with
  | value _ ih | tighter _ _ ih | tightest _ _ ih | someArguments _ ih | lastArgument _ _ ih =>
      exact ih rfl
  | assign ht heq _ ih =>
      exact List.forall_mem_cons.mpr ⟨passedOver_of_eq ht rfl,
        List.forall_mem_cons.mpr ⟨passedOver_of_eq heq rfl, ih rfl⟩⟩
  | level _ _ ih ih' | call _ _ ih ih' => exact List.forall_mem_append.mpr ⟨ih rfl, ih' rfl⟩
  | levelMore ho _ _ ih ih' =>
      exact List.forall_mem_cons.mpr ⟨passedOver_of_has ho,
        List.forall_mem_append.mpr ⟨ih rfl, ih' rfl⟩⟩
  | operator ht _ ih => exact List.forall_mem_cons.mpr ⟨passedOver_of_unary ht, ih rfl⟩
  | callMore ht _ hp _ ih ih' =>
      exact List.forall_mem_cons.mpr ⟨passedOver_of_eq ht rfl, List.forall_mem_append.mpr ⟨ih rfl,
        List.forall_mem_cons.mpr ⟨passedOver_of_eq hp rfl, ih' rfl⟩⟩⟩
  | moreArguments _ _ hc _ ih ih' =>
      exact List.forall_mem_append.mpr ⟨ih rfl,
        List.forall_mem_cons.mpr ⟨passedOver_of_eq hc rfl, ih' rfl⟩⟩
  | constant ht =>
      exact List.forall_mem_singleton.mpr (passedOver_of_primary (beginsPrimary_of_constant ht))
  | name ht => exact List.forall_mem_singleton.mpr (passedOver_of_eq ht rfl)
  | group ht _ hp ih =>
      exact List.forall_mem_cons.mpr ⟨passedOver_of_eq ht rfl, List.forall_mem_append.mpr ⟨ih rfl,
        List.forall_mem_singleton.mpr (passedOver_of_eq hp rfl)⟩⟩
  | levelEnd | callEnd | noArguments => exact List.forall_mem_nil _
  | _ => cases hexpr

/-- In a statement that lacks its semicolon recovery passes over all tokens but the first. -/
theorem Unended.passedOver {p : Phrase} {w : List Token} {i j : NodeId} {cause : Cause}
    {goesOn : Token.Kind → Bool} (h : Unended p w i j cause goesOn) :
    ∃ t u, w = t :: u ∧ t.kind ≠ .semicolon ∧ ∀ t ∈ u, passedOver t.kind = true := by
  cases h with
  | expression h =>
      cases w with
      | nil => exact absurd h.begins Bool.false_ne_true
      | cons t u =>
          obtain ⟨ht, hu⟩ := List.forall_mem_cons.mp (h.passedOver rfl)
          exact ⟨t, u, rfl, of_decide_eq_true (Bool.and_eq_true_iff.mp ht).1, hu⟩
  | print ht h | ret ht h => exact ⟨_, _, rfl, by rw [ht]; nofun, h.passedOver rfl⟩
  | bareRet ht => exact ⟨_, _, rfl, by rw [ht]; nofun, List.forall_mem_nil _⟩
  | var ht hname hequals h =>
      exact ⟨_, _, rfl, by rw [ht]; nofun, List.forall_mem_cons.mpr ⟨passedOver_of_eq hname rfl,
        List.forall_mem_cons.mpr ⟨passedOver_of_eq hequals rfl, h.passedOver rfl⟩⟩⟩
  | bareVar ht hname =>
      exact ⟨_, _, rfl, by rw [ht]; nofun, List.forall_mem_singleton.mpr
        (passedOver_of_eq hname rfl)⟩

/-- Recovery goes on at a token of another kind, if no statement begins behind it. -/
theorem recover_cons {t : Token} {w : List Token} (ht : t.kind ≠ .semicolon)
    (hw : Ahead Token.Kind.beginsStatement w = false) : recover (t :: w) = recover w := by
  rw [recover, if_neg]
  rintro (h | h)
  · exact ht h
  · exact Bool.false_ne_true (hw.symm.trans h)

theorem no_statement_of_passedOver {w r : List Token} {semicolon : Token}
    (hw : ∀ t ∈ w, Parse.passedOver t.kind = true) (hs : semicolon.kind = .semicolon) :
    Ahead Token.Kind.beginsStatement (w ++ semicolon :: r) = false := by
  cases w with
  | nil => exact ahead_kind_ne hs rfl
  | cons t w =>
      have ht := (Bool.and_eq_true_iff.mp (hw t List.mem_cons_self)).2
      exact (Bool.not_eq_true' _).mp ht

/-- Recovery stops behind the first semicolon if no statement begins before it. -/
theorem recover_semicolon {w r : List Token} {semicolon : Token}
    (hw : ∀ t ∈ w, Parse.passedOver t.kind = true) (hs : semicolon.kind = .semicolon) :
    recover (w ++ semicolon :: r) = r := by
  induction w with
  | nil => rw [List.nil_append, recover, if_pos (.inl hs)]
  | cons t w ih =>
      obtain ⟨ht, hw⟩ := List.forall_mem_cons.mp hw
      have hne : t.kind ≠ .semicolon := of_decide_eq_true (Bool.and_eq_true_iff.mp ht).1
      rw [List.cons_append, recover_cons hne (no_statement_of_passedOver hw hs), ih hw]

/-- Recovery passes over a statement that ends in a semicolon, whatever it begins with. -/
theorem Unended.recover {p : Phrase} {w r : List Token} {i j : NodeId} {cause : Cause}
    {goesOn : Token.Kind → Bool} (h : Unended p w i j cause goesOn) {semicolon : Token}
    (hs : semicolon.kind = .semicolon) : Parse.recover (w ++ semicolon :: r) = r := by
  obtain ⟨t, u, rfl, ht, hu⟩ := h.passedOver
  rw [List.cons_append, recover_cons ht (no_statement_of_passedOver hu hs),
    recover_semicolon hu hs]

theorem recover_subset (w : List Token) : Parse.recover w ⊆ w := by
  induction w with
  | nil => exact List.Subset.refl _
  | cons t w ih =>
      rw [Parse.recover]
      split
      · exact List.subset_cons_self t w
      · exact List.Subset.trans ih (List.subset_cons_self t w)

/-- The run of a declaration that lacks its semicolon: the fault is recorded, and what recovery
leaves is left. -/
theorem Throws.caught {n : Nat} {w r : List Token} {i j : NodeId} {cause : Cause}
    (h : Throws (declared n) w r i cause j) (last : Token) (faults : List Fault) :
    (declaration (n + 1)).run ⟨w ++ r, last, i, faults⟩ =
      some (.ok none, ⟨Parse.recover r, last, j, faults ++ [⟨cause, r.headD last⟩]⟩) := by
  rw [declaration, run_tryCatch, h.map some last faults]
  rfl

end Parse

namespace Parsed

open Parse

/-- Tokens that are read as one statement. -/
theorem reads_declared {w : List Token} {s : Stmt} {i j : NodeId} (hw : ∀ t ∈ w, t.kind ≠ .eof)
    (h : ofTokens w i = ⟨[s], [], j⟩) : Reads .declared w i s j := by
  have hreads := (ofTokens_iff_reads _ _ _ _).mp h
  rw [readable_eq_self hw] at hreads
  exact hreads.of_singleton

/-- A statement is read off the front of a program. -/
theorem ofTokens_append {p q : List Token} {s : Stmt} {i j : NodeId}
    (hp : ∀ t ∈ p, t.kind ≠ .eof) (h : ofTokens p i = ⟨[s], [], j⟩) (hs : s.dangling = false) :
    ofTokens (p ++ q) i = andThen ⟨[s], [], j⟩ (ofTokens q j) := by
  have hreads := reads_declared hp h
  have htakes : Takes (declaration (18 + 32 * p.length)) p (readable q) i (some s) j :=
    finds _ .declaration p _ i (some s) j (.declaration hreads) (no_else_of_not_dangling hs)
      (Nat.le_refl _)
  have hne : readable (p ++ q) ≠ [] := by
    rw [readable_append hp]
    intro hnil
    rw [(List.append_eq_nil_iff.mp hnil).1] at hreads
    exact absurd hreads.begins Bool.false_ne_true
  have hrun := htakes (mark (p ++ q)) []
  rw [← readable_append hp] at hrun
  rw [ofTokens_step hne hrun (readable_ne_eof q), ofTokens_marked_append hp]
  rfl

/-- Whether there are faults does not depend on the first number. -/
theorem faults_eq_nil_anywhere {tokens : List Token} {i : NodeId}
    (h : (ofTokens tokens i).faults = []) (j : NodeId) : (ofTokens tokens j).faults = [] := by
  rw [faults_eq_nil_iff, ← sentence_iff_reads] at h ⊢
  exact h

theorem not_dangling_of_missing {s : Stmt} {cause : Cause} (h : s.missing? = some cause) :
    s.dangling = false := by
  cases s <;> first | rfl | cases h

/-- A statement that lacks its semicolon is dropped at the next token, and what recovery passes
over is dropped with it. -/
theorem ofTokens_dropped {ph : Phrase} {p q : List Token} {i j : NodeId} {cause : Cause}
    {goesOn : Token.Kind → Bool} (h : Unended ph p i j cause goesOn) (hp : ∀ t ∈ p, t.kind ≠ .eof)
    (hnext : Next (readable q)) (hgoesOn : Ahead goesOn (readable q) = false) :
    ofTokens (p ++ q) i =
      andThen ⟨[], [⟨cause, (readable q).headD (mark (p ++ q))⟩], j⟩
        (ofTokens (recover (readable q) ++ [mark (p ++ q)]) j) := by
  have hne : readable (p ++ q) ≠ [] := by
    obtain ⟨t, u, rfl, -⟩ := h.passedOver
    rw [readable_append hp]
    exact List.cons_ne_nil _ _
  have hrun := (throws_declared h hnext hgoesOn (Nat.le_refl _)).caught (mark (p ++ q)) []
  rw [← readable_append hp] at hrun
  exact ofTokens_step hne hrun fun t ht => readable_ne_eof q t (recover_subset _ ht)

/-- In front of a program that begins with a word for a statement, a statement that lacks its
semicolon costs one fault, at that word, and everything that recovery passes over; the rest is read
as it stands, and with all its faults. If the program begins with a statement that ends in a
semicolon, no more is lost than that statement, and no other fault is found. -/
theorem ofTokens_unended {p q : List Token} {semicolon t : Token} {s : Stmt} {i j k : NodeId}
    {cause : Cause} (hp : ofTokens (p ++ [semicolon]) i = ⟨[s], [], j⟩)
    (hs : s.missing? = some cause) (hsemicolon : semicolon.kind = .semicolon)
    (heof : ∀ t ∈ p, t.kind ≠ .eof) (ht : t.kind.beginsStatement = true)
    (hq : (ofTokens (t :: q) k).faults = []) :
    ofTokens (p ++ t :: q) i = andThen ⟨[], [⟨cause, t⟩], j⟩
        (ofTokens (recover (readable (t :: q)) ++ [mark (t :: q)]) j) ∧
      ∀ q₁ q₂ s₁ k₁ cause₁, t :: q = q₁ ++ q₂ → (∀ t ∈ q₁, t.kind ≠ .eof) →
        ofTokens q₁ k = ⟨[s₁], [], k₁⟩ → s₁.missing? = some cause₁ →
        ofTokens (p ++ t :: q) i =
          ⟨(ofTokens q₂ j).statements, [⟨cause, t⟩], (ofTokens q₂ j).nextId⟩ := by
  have hall : ∀ t ∈ p ++ [semicolon], t.kind ≠ .eof :=
    List.forall_mem_append.mpr ⟨heof, List.forall_mem_singleton.mpr (by rw [hsemicolon]; nofun)⟩
  obtain ⟨ph, u, semicolon', goesOn, hsplit, -, hunended, hapart⟩ :=
    (reads_declared hall hp).unended hs
  obtain ⟨rfl, -⟩ := List.append_inj' hsplit rfl
  have hreadable : readable (t :: q) = t :: readable q :=
    List.takeWhile_cons_of_pos (decide_eq_true fun heq => by rw [heq] at ht; cases ht)
  have hnext : Next (readable (t :: q)) := by
    obtain ⟨body, _, hreads⟩ := (faults_eq_nil_iff _ _).mp hq
    exact hreads.next
  have hdropped := ofTokens_dropped hunended heof hnext
    (by rw [hreadable]; exact hapart t.kind ht)
  rw [mark_append heof (List.cons_ne_nil t q)] at hdropped
  have hfirst : ofTokens (p ++ t :: q) i = andThen ⟨[], [⟨cause, t⟩], j⟩
      (ofTokens (recover (readable (t :: q)) ++ [mark (t :: q)]) j) := by
    rw [hdropped, hreadable]
    rfl
  refine ⟨hfirst, fun q₁ q₂ s₁ k₁ cause₁ hcut hq₁ hread hs₁ => ?_⟩
  -- recovery passes over the first statement
  obtain ⟨_, u₁, semicolon₁, _, rfl, hsemicolon₁, hunended₁, -⟩ :=
    (reads_declared hq₁ hread).unended hs₁
  have hrecover : recover (readable (t :: q)) = readable q₂ := by
    rw [hcut, readable_append hq₁, List.append_assoc]
    exact hunended₁.recover hsemicolon₁
  have hclean : (ofTokens q₂ j).faults = [] := by
    rw [hcut, ofTokens_append hq₁ hread (not_dangling_of_missing hs₁)] at hq
    exact faults_eq_nil_anywhere hq j
  rw [hfirst, hrecover, hcut, ofTokens_marked_append hq₁, andThen, hclean]
  rfl

/-- Of three `print` statements, the first without its semicolon, only the third is read. -/
theorem ofTokens_unended_print :
    let word (kind : Token.Kind) : Token := ⟨kind, "", 1⟩
    let print (name : String) : List Token := [word .kwPrint, ⟨.identifier, name, 1⟩]
    (ofTokens (print "y" ++ word .semicolon :: (print "z" ++ [word .semicolon])) 0).faults = [] ∧
      ofTokens (print "x" ++ (print "y" ++ word .semicolon :: (print "z" ++ [word .semicolon]))) 0 =
        ⟨[.print (.variable 1 ⟨.identifier, "z", 1⟩)],
          [⟨.expectSemicolonAfterValue, word .kwPrint⟩], 2⟩ := by
  intro word print
  have hclean : (ofTokens (print "y" ++ word .semicolon ::
      (print "z" ++ [word .semicolon])) 0).faults = [] := rfl
  have hfirst : ofTokens (print "x" ++ [word .semicolon]) 0 =
      ⟨[.print (.variable 0 ⟨.identifier, "x", 1⟩)], [], 1⟩ := rfl
  obtain ⟨-, hkept⟩ := ofTokens_unended hfirst rfl rfl (by simp [print, word]) rfl hclean
  exact ⟨hclean, hkept (print "y" ++ [word .semicolon]) (print "z" ++ [word .semicolon]) _ _ _ rfl
    (by simp [print, word]) rfl rfl⟩

end Parsed

end Lox
