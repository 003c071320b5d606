import Lox.Proofs.Parser.Contract

/-!
# What tokens begin a phrase, and what may follow it

The parser chooses its way by the next token. `Phrase.Begins` tells with which token
the reading of a phrase begins, so that the way of a reading can be told, and
`Follow` what may stand behind it, so that the parser does not read on. An expression
is followed by something that ends it, an operand by no operator of a tighter level,
and a statement by no `else` that it could take.
-/

namespace Lox.Parse

/-! ## First tokens -/

theorem ahead_append {p : Token.Kind → Bool} {w : List Token} (h : Ahead p w = true)
    (r : List Token) : Ahead p (w ++ r) = true := by
  cases w with
  | nil => exact absurd h Bool.false_ne_true
  | cons t w => exact h

theorem ahead_mono {p q : Token.Kind → Bool}
    (hk : ∀ kind, p kind = true → q kind = true) {w : List Token}
    (h : Ahead p w = true) : Ahead q w = true := by
  cases w with
  | nil => exact absurd h Bool.false_ne_true
  | cons t w => exact hk _ h

/-- A token of one sort ahead is none of another. -/
theorem ahead_ne {p q : Token.Kind → Bool}
    (hk : ∀ kind, p kind = true → q kind = false) {w : List Token}
    (h : Ahead p w = true) : Ahead q w = false := by
  cases w with
  | nil => exact absurd h Bool.false_ne_true
  | cons t w => exact hk _ h

theorem ahead_kind {p : Token.Kind → Bool} {t : Token} {kind : Token.Kind} {w : List Token}
    (ht : t.kind = kind) (hk : p kind = true) : Ahead p (t :: w) = true := by
  rw [ahead_cons, ht, hk]

theorem ahead_kind_ne {p : Token.Kind → Bool} {t : Token} {kind : Token.Kind} {w : List Token}
    (ht : t.kind = kind) (hk : p kind = false) : Ahead p (t :: w) = false := by
  rw [ahead_cons, ht, hk]

/-- The kinds of tokens that begin an expression. -/
def beginsExpression (kind : Token.Kind) : Bool := isUnary kind || beginsPrimary kind

/-- The kinds of tokens that begin a statement. -/
def beginsPlain (kind : Token.Kind) : Bool := beginsKeyed kind || beginsExpression kind

/-- The kinds of tokens that begin a declaration. -/
def beginsDeclared (kind : Token.Kind) : Bool :=
  decide (kind = .kwFun) || decide (kind = .kwVar) || beginsPlain kind

theorem beginsPrimary_of_constant {t : Token} {value : Literal} (h : t.constant? = some value) :
    beginsPrimary t.kind = true := by
  cases hk : t.kind <;> simp_all [beginsPrimary, Token.constant?]

/-- What the tokens of a phrase begin with. -/
def Phrase.Begins : Phrase → List Token → Prop
  | .expression, w | .level _, w | .operand _, w | .unary, w | .argumentsFrom _, w
  | .expressionStatement, w => Ahead beginsExpression w = true
  | .primary, w => Ahead beginsPrimary w = true
  | .levelRest l, w => w = [] ∨ Ahead l.has w = true
  | .statement, w => Ahead beginsPlain w = true
  | .declared, w | .declaration, w => Ahead beginsDeclared w = true
  | _, _ => True

theorem ReadsLong.begins {p : Phrase} {w : List Token} {i j : Nat} {a : p.Tree}
    {faults : List Fault} (h : ReadsLong p w i a j faults) : p.Begins w := by
  induction h with
  | value _ ih | tighter _ _ ih | tightest _ _ ih | lastArgument _ ih | declaration _ ih =>
      exact ih
  | level _ _ ih _ | moreArguments _ _ _ ih _ | expressionStatement _ _ ih =>
      exact ahead_append ih _
  | call _ _ ih _ =>
      exact ahead_append (ahead_mono (fun _ h => Bool.or_eq_true_iff.2 (.inr h)) ih) _
  | assign ht | name ht | group ht | functionDeclared ht | varDeclared ht | statementFor ht
  | statementIf ht | statementPrint ht | statementReturn ht | statementWhile ht
  | statementBlock ht => exact ahead_kind ht rfl
  | operator ht => exact Bool.or_eq_true_iff.2 (.inl ht)
  | constant ht => exact beginsPrimary_of_constant ht
  | levelEnd => exact .inl rfl
  | levelMore ho => exact .inr ho
  | statementDeclared _ ih => exact ahead_mono (fun _ h => Bool.or_eq_true_iff.2 (.inr h)) ih
  | statementPlain _ ih => exact ahead_mono (fun _ h => Bool.or_eq_true_iff.2 (.inr h)) ih
  | _ => trivial

theorem Reads.begins {p : Phrase} {w : List Token} {i j : Nat} {a : p.Tree}
    (h : Reads p w i a j) : p.Begins w :=
  h.long.begins

theorem ReadsLong.ne_nil {w : List Token} {i j : Nat} {e : Expr} {faults : List Fault}
    (h : ReadsLong .expression w i e j faults) : w ≠ [] := by
  intro hw
  subst hw
  exact absurd h.begins Bool.false_ne_true

theorem ReadsLong.pos_of_declaration {w : List Token} {i j : Nat} {o : Option Stmt}
    {faults : List Fault} (h : ReadsLong .declaration w i o j faults) : 0 < w.length := by
  cases w with
  | nil => exact absurd h.begins Bool.false_ne_true
  | cons t w => exact Nat.succ_pos _

/-- An entry that is not reported is not one too many. -/
theorem lt_of_overrun_eq_nil {cause : Cause} {count : Nat} {w : List Token} (hw : w ≠ [])
    (h : overrun cause count w = []) : count < maxArity := by
  obtain ⟨t, w, rfl⟩ := List.exists_cons_of_ne_nil hw
  refine Nat.lt_of_not_le fun hle => ?_
  rw [overrun_cons hle] at h
  exact List.cons_ne_nil _ _ h

/-- What is read without a report is read with no list too long. -/
theorem ReadsLong.reads {p : Phrase} {w : List Token} {i j : Nat} {a : p.Tree}
    {faults : List Fault} (h : ReadsLong p w i a j faults) (hnone : faults = []) :
    Reads p w i a j := by
  induction h with
  | value _ ih => exact .value (ih hnone)
  | assign ht heq _ ih => exact .assign ht heq (ih hnone)
  | level _ _ ihe ihr =>
      obtain ⟨hfs, hgs⟩ := List.append_eq_nil_iff.1 hnone
      exact .level (ihe hfs) (ihr hgs)
  | levelEnd => exact .levelEnd
  | levelMore ho _ _ ihe ihr =>
      obtain ⟨hfs, hgs⟩ := List.append_eq_nil_iff.1 hnone
      exact .levelMore ho (ihe hfs) (ihr hgs)
  | tighter hl _ ih => exact .tighter hl (ih hnone)
  | tightest hl _ ih => exact .tightest hl (ih hnone)
  | operator ht _ ih => exact .operator ht (ih hnone)
  | call _ _ ihe ihc =>
      obtain ⟨hfs, hgs⟩ := List.append_eq_nil_iff.1 hnone
      exact .call (ihe hfs) (ihc hgs)
  | callEnd => exact .callEnd
  | callMore ht _ hp _ iha ihc =>
      obtain ⟨hfs, hgs⟩ := List.append_eq_nil_iff.1 hnone
      exact .callMore ht (iha hfs) hp (ihc hgs)
  | noArguments => exact .noArguments
  | someArguments _ ih => exact .someArguments (ih hnone)
  | lastArgument he ih =>
      obtain ⟨hover, hfs⟩ := List.append_eq_nil_iff.1 hnone
      exact .lastArgument (lt_of_overrun_eq_nil he.ne_nil hover) (ih hfs)
  | moreArguments he hc _ ihe ihes =>
      obtain ⟨hfs, hgs⟩ := List.append_eq_nil_iff.1 hnone
      obtain ⟨hover, hfs⟩ := List.append_eq_nil_iff.1 hfs
      exact .moreArguments (lt_of_overrun_eq_nil he.ne_nil hover) (ihe hfs) hc (ihes hgs)
  | constant ht => exact .constant ht
  | name ht => exact .name ht
  | group ht _ hp ih => exact .group ht (ih hnone) hp
  | lastParam ht => exact .lastParam (lt_of_overrun_eq_nil (List.cons_ne_nil _ _) hnone) ht
  | moreParams ht hc _ ih =>
      obtain ⟨hover, hfs⟩ := List.append_eq_nil_iff.1 hnone
      exact .moreParams (lt_of_overrun_eq_nil (List.cons_ne_nil _ _) hover) ht hc (ih hfs)
  | noExpression => exact .noExpression
  | someExpression _ ih => exact .someExpression (ih hnone)
  | varBare ht hs => exact .varBare ht hs
  | varValue ht heq _ hs ih => exact .varValue ht heq (ih hnone) hs
  | expressionStatement _ hs ih => exact .expressionStatement (ih hnone) hs
  | printStatement _ hs ih => exact .printStatement (ih hnone) hs
  | returnStatement _ hs ih => exact .returnStatement (ih hnone) hs
  | noInitializer hs => exact .noInitializer hs
  | varInitializer ht _ ih => exact .varInitializer ht (ih hnone)
  | valueInitializer _ ih => exact .valueInitializer (ih hnone)
  | declaration _ ih => exact .declaration (ih hnone)
  | functionDeclared ht _ ih => exact .functionDeclared ht (ih hnone)
  | varDeclared ht _ ih => exact .varDeclared ht (ih hnone)
  | statementDeclared _ ih => exact .statementDeclared (ih hnone)
  | functionBare hn ho hc hb _ ih => exact .functionBare hn ho hc hb (ih hnone)
  | functionParams hn ho _ hc hb _ ihp ih =>
      obtain ⟨hfs, hgs⟩ := List.append_eq_nil_iff.1 hnone
      exact .functionParams hn ho (ihp hfs) hc hb (ih hgs)
  | statementPlain _ ih => exact .statementPlain (ih hnone)
  | statementFor ht _ ih => exact .statementFor ht (ih hnone)
  | statementIf ht _ ih => exact .statementIf ht (ih hnone)
  | statementPrint ht _ ih => exact .statementPrint ht (ih hnone)
  | statementReturn ht _ ih => exact .statementReturn ht (ih hnone)
  | statementWhile ht _ ih => exact .statementWhile ht (ih hnone)
  | statementBlock ht _ ih => exact .statementBlock ht (ih hnone)
  | forStatement ho _ _ hs _ hc _ ihi ihd ihn ihb =>
      obtain ⟨hi, hrest⟩ := List.append_eq_nil_iff.1 hnone
      obtain ⟨hd, hrest⟩ := List.append_eq_nil_iff.1 hrest
      obtain ⟨hn, hb⟩ := List.append_eq_nil_iff.1 hrest
      exact .forStatement ho (ihi hi) (ihd hd) hs (ihn hn) hc (ihb hb)
  | ifBare ho _ hc _ ihd iht =>
      obtain ⟨hfs, hgs⟩ := List.append_eq_nil_iff.1 hnone
      exact .ifBare ho (ihd hfs) hc (iht hgs)
  | ifElse ho _ hc _ hn hk _ ihd iht ihe =>
      obtain ⟨hfs, hrest⟩ := List.append_eq_nil_iff.1 hnone
      obtain ⟨hgs, hhs⟩ := List.append_eq_nil_iff.1 hrest
      exact .ifElse ho (ihd hfs) hc (iht hgs) hn hk (ihe hhs)
  | whileStatement ho _ hc _ ihd ihb =>
      obtain ⟨hfs, hgs⟩ := List.append_eq_nil_iff.1 hnone
      exact .whileStatement ho (ihd hfs) hc (ihb hgs)
  | block _ hb ih => exact .block (ih hnone) hb
  | declarationsEnd => exact .declarationsEnd
  | declarationsMore _ _ ihs ihr =>
      obtain ⟨hfs, hgs⟩ := List.append_eq_nil_iff.1 hnone
      exact .declarationsMore (ihs hfs) (ihr hgs)

/-- Where nothing is reported, the two relations are the same. -/
theorem readsLong_nil_iff {p : Phrase} {w : List Token} {i j : Nat} {a : p.Tree} :
    ReadsLong p w i a j [] ↔ Reads p w i a j :=
  ⟨fun h => h.reads rfl, fun h => h.long⟩

theorem ReadsLong.of_operand {l : Level} {w : List Token} {e : Expr} {i j : Nat}
    {faults : List Fault} (h : ReadsLong (.operand l) w i e j faults) :
    ReadsLong (.level l) w i e j faults := by
  have hl : ReadsLong (.level l) (w ++ []) i e j (faults ++ []) := .level h .levelEnd
  rwa [List.append_nil, List.append_nil] at hl

/-- What has no operators with two operands is an expression of every level. -/
theorem ReadsLong.of_unary {w : List Token} {e : Expr} {i j : Nat} {faults : List Fault}
    (h : ReadsLong .unary w i e j faults) : ReadsLong (.level .disjunction) w i e j faults := by
  have hp : ReadsLong (.level .product) w i e j faults := .of_operand (.tightest rfl h)
  have hs : ReadsLong (.level .sum) w i e j faults := .of_operand (.tighter rfl hp)
  have hc : ReadsLong (.level .comparison) w i e j faults := .of_operand (.tighter rfl hs)
  have he : ReadsLong (.level .equality) w i e j faults := .of_operand (.tighter rfl hc)
  have ha : ReadsLong (.level .conjunction) w i e j faults := .of_operand (.tighter rfl he)
  exact .of_operand (.tighter rfl ha)

theorem Reads.of_unary {w : List Token} {e : Expr} {i j : Nat} (h : Reads .unary w i e j) :
    Reads (.level .disjunction) w i e j :=
  h.long.of_unary.reads rfl

/-- A name by itself is an expression of every level. -/
theorem Reads.of_name {t : Token} (ht : t.kind = .identifier) (i : Nat) :
    Reads (.level .disjunction) [t] i (.variable i t) (i + 1) :=
  .of_unary (.call (.name ht) .callEnd)

/-! ## What follows -/

/-- The kinds of tokens that end an expression. -/
def endsExpression (kind : Token.Kind) : Bool :=
  decide (kind = .semicolon) || decide (kind = .rightParen) || decide (kind = .comma)

/-- An operator belongs to one level. -/
theorem Level.eq_of_has {l m : Level} {kind : Token.Kind} (hl : l.has kind = true)
    (hm : m.has kind = true) : l = m := by
  cases l <;> cases m <;> grind [Level.has]

/-- Neither an operator of a level tighter than the given depth follows nor an argument
list. -/
def Tight (depth : Nat) (r : List Token) : Prop :=
  (∀ l : Level, l.depth < depth → Ahead l.has r = false) ∧ Ahead (· = .leftParen) r = false

/-- What may follow a list of declarations: a closing brace, or nothing outside of blocks. -/
def FollowAll : Bool → List Token → Prop
  | true, r => Ahead (· = .rightBrace) r = true
  | false, r => r = []

/-- What may follow a phrase. -/
def Follow : (p : Phrase) → p.Tree → List Token → Prop
  | .expression, _, r => Ahead endsExpression r = true
  | .level l, _, r | .levelRest l, _, r => Tight (l.depth + 1) r
  | .operand l, _, r => Tight l.depth r
  | .unary, _, r | .callRest, _, r => Ahead (· = .leftParen) r = false
  | .arguments, _, r | .argumentsFrom _, _, r => Ahead (· = .rightParen) r = true
  | .paramsFrom _, _, r => Ahead (· = .comma) r = false
  | .expressionUnless kind, _, r =>
    (kind = .semicolon ∨ kind = .rightParen) ∧ Ahead (· = kind) r = true
  | .declarations inBlock, _, r => FollowAll inBlock r
  | p, a, r => p.dangling a = true → Ahead (· = .kwElse) r = false

theorem no_else_of_not_dangling {p : Phrase} {a : p.Tree} {r : List Token}
    (hd : p.dangling a = false) : p.dangling a = true → Ahead (· = .kwElse) r = false :=
  fun hd' => absurd (hd.symm.trans hd') Bool.false_ne_true

theorem Tight.mono {m n : Nat} {r : List Token} (h : Tight n r) (hmn : m ≤ n) : Tight m r :=
  ⟨fun l hl => h.1 l (Nat.lt_of_lt_of_le hl hmn), h.2⟩

/-- A token that is no operator and no parenthesis follows any operand. -/
theorem tight_of_ahead {p : Token.Kind → Bool} {r : List Token} (h : Ahead p r = true)
    (hl : ∀ (l : Level) kind, p kind = true → l.has kind = false)
    (hp : p .leftParen = false) (n : Nat) : Tight n r := by
  refine ⟨fun l _ => ?_, ?_⟩
  · exact ahead_ne (hl l) h
  · refine ahead_ne (fun kind hk => decide_eq_false ?_) h
    intro h
    subst h
    exact absurd hk (by rw [hp]; exact Bool.false_ne_true)

theorem tight_of_ends {r : List Token} (h : Ahead endsExpression r = true) (n : Nat) :
    Tight n r := by
  refine tight_of_ahead h (fun l kind hk => ?_) rfl n
  cases l <;> cases kind <;> first | rfl | cases hk

/-- An operator is followed by nothing tighter than itself. -/
theorem tight_of_operator {l : Level} {r : List Token} (h : Ahead l.has r = true) :
    Tight l.depth r := by
  refine ⟨fun m hm => ahead_ne (fun kind hk => ?_) h, ahead_ne (fun kind hk => ?_) h⟩
  · cases hk' : m.has kind with
    | false => rfl
    | true =>
        rw [Level.eq_of_has hk hk'] at hm
        exact absurd hm (Nat.lt_irrefl _)
  · cases l <;> cases kind <;> first | rfl | cases hk

theorem no_else_of_declarations {inBlock : Bool} {w r : List Token} {i j : Nat} {body : List Stmt}
    {faults : List Fault} (h : ReadsLong (.declarations inBlock) w i body j faults)
    (hf : FollowAll inBlock r) : Ahead (· = .kwElse) (w ++ r) = false := by
  cases h with
  | declarationsEnd =>
      cases inBlock with
      | true => exact ahead_ne (fun kind hk => by rw [of_decide_eq_true hk]; rfl) (w := r) hf
      | false => rw [show r = [] from hf]; rfl
  | declarationsMore hs _ =>
      rw [List.append_assoc]
      refine ahead_ne (fun kind hk => ?_) (ahead_append hs.begins _)
      cases kind <;> first | rfl | cases hk

end Lox.Parse
