import Lox.Proofs.Parser.Grammar
import Lox.Proofs.Parser.Reading

/-!
# From readings to derivations

Tokens that stand for a tree can be derived in the grammar. Each phrase of the
parser belongs to a right-hand side, or to what is left of one behind its first
word; `Phrase.Derived` is the table of these, and the proof is an induction on the
reading.
-/

namespace Lox.Parse

open Grammar Pattern Token.Kind

/-- The rule for the expressions of a level. -/
def Level.ruleName : Level → Grammar.Name
  | disjunction => .logicOr
  | conjunction => .logicAnd
  | equality => .equality
  | comparison => .comparison
  | sum => .term
  | product => .factor

/-- The rule for the operands of a level. -/
def Level.operandName (l : Level) : Grammar.Name :=
  match l.tighter? with
  | some m => m.ruleName
  | none => .unary

/-- The operators of a level, as the grammar lists them. -/
def Level.operators : Level → Pattern
  | disjunction => one kwOr
  | conjunction => one kwAnd
  | equality => one bangEqual ||| one equalEqual
  | comparison => one greater ||| one greaterEqual ||| one less ||| one lessEqual
  | sum => one minus ||| one plus
  | product => one slash ||| one star

theorem Level.rule_ruleName (l : Level) :
    rule l.ruleName = name l.operandName ++ many (l.operators ++ name l.operandName) := by
  cases l <;> rfl

/-- Tokens behind a word of the given kind. -/
def Behind (kind : Token.Kind) (n : Grammar.Name) (w : List Token) : Prop :=
  ∀ t : Token, t.kind = kind → Derives (.name n) (t :: w)

/-- Entries of a list of which some have been read. -/
def entries (count : Nat) (entry : Pattern) : Pattern :=
  entry ++ upTo (maxEntries - 1 - count) (one comma ++ entry)

/-- What the tokens of a phrase can be derived from. -/
def Phrase.Derived : Phrase → List Token → Prop
  | .expression => Derives (name .expression)
  | .level l => Derives (name l.ruleName)
  | .levelRest l => Derives (many (l.operators ++ .name l.operandName))
  | .operand l => Derives (name l.operandName)
  | .unary => Derives (name .unary)
  | .callRest => Derives (many (one leftParen ++ optional (name .arguments) ++ one rightParen))
  | .arguments => Derives (optional (name .arguments))
  | .argumentsFrom count => Derives (entries count (name .expression))
  | .primary => Derives (name .primary)
  | .paramsFrom count => Derives (entries count (one identifier))
  | .expressionUnless _ => Derives (optional (name .expression))
  | .varDeclaration => Behind kwVar .varDecl
  | .expressionStatement => Derives (name .exprStmt)
  | .printStatement => Behind kwPrint .printStmt
  | .returnStatement _ => Behind kwReturn .returnStmt
  | .forInitializer => Derives (name .varDecl ||| .name .exprStmt ||| one semicolon)
  | .declaration | .declared => Derives (name .declaration)
  | .function => Behind kwFun .funDecl
  | .statement => Derives (name .statement)
  | .forStatement => Behind kwFor .forStmt
  | .ifStatement => Behind kwIf .ifStmt
  | .whileStatement => Behind kwWhile .whileStmt
  | .block => Behind leftBrace .block
  | .declarations _ => Derives (many (name .declaration))

theorem derives_one {kind : Token.Kind} {t : Token} (ht : t.kind = kind) :
    Derives (one kind) [t] :=
  .token (decide_eq_true ht)

theorem derives_operators {l : Level} {t : Token} (ht : l.has t.kind = true) :
    Derives l.operators [t] := by
  cases l with
  | disjunction | conjunction => exact .token ht
  | equality | sum | product =>
      rcases Bool.or_eq_true_iff.1 ht with h | h
      · exact .left (.token h)
      · exact .right (.token h)
  | comparison =>
      rcases Bool.or_eq_true_iff.1 ht with h | h
      · rcases Bool.or_eq_true_iff.1 h with h | h
        · rcases Bool.or_eq_true_iff.1 h with h | h
          · exact .left (.left (.left (.token h)))
          · exact .left (.left (.right (.token h)))
        · exact .left (.right (.token h))
      · exact .right (.token h)

theorem derives_constant {t : Token} {value : Literal} (ht : t.constant? = some value) :
    Derives (rule .primary) [t] := by
  rw [Token.constant?] at ht
  split at ht
  · rename_i hk
    exact .left (.left (.left (.left (.left (.right (.token (by rw [hk])))))))
  · rename_i hk
    exact .left (.left (.left (.left (.left (.left (.token (by rw [hk])))))))
  · rename_i hk
    exact .left (.left (.left (.left (.right (derives_one hk)))))
  · rename_i hk
    exact .left (.left (.left (.right (derives_one hk))))
  · rename_i hk
    exact .left (.left (.right (derives_one hk)))
  · cases ht

theorem derives_of_eq {p : Pattern} {w w' : List Token} (h : Derives p w) (hw : w = w') :
    Derives p w' := hw ▸ h

theorem derives_last {count : Nat} {entry : Pattern} {w : List Token} (h : Derives entry w) :
    Derives (entries count entry) w :=
  derives_of_eq (.seq h .upToNil) (List.append_nil w)

/-- With room for one more entry in front, the limit of the repetition grows by one. -/
theorem derives_more {count : Nat} {entry : Pattern} {comma : Token} {u v : List Token}
    (hn : count + 1 < maxEntries) (hu : Derives entry u) (hc : comma.kind = .comma)
    (hv : Derives (entries (count + 1) entry) v) :
    Derives (entries count entry) (u ++ comma :: v) := by
  cases hv with
  | @seq _ _ v x hv hx =>
      rw [entries, show maxEntries - 1 - count = maxEntries - 1 - (count + 1) + 1 by omega]
      exact .seq hu (.upToCons (u := comma :: v) (.seq (u := [comma]) (derives_one hc) hv) hx)

theorem Reads.count_lt {p : Phrase} {w : List Token} {i j : Nat} {a : p.Tree}
    (h : Reads p w i a j) {count : Nat} (hp : p = .argumentsFrom count ∨ p = .paramsFrom count) :
    count < maxArity := by
  cases h with
  | lastArgument hn | moreArguments hn | lastParam hn | moreParams hn =>
      rcases hp with hp | hp <;> cases hp
      exact hn
  | _ => rcases hp with hp | hp <;> cases hp

/-- Tokens that stand for a tree can be derived from what belongs to their phrase. -/
theorem Reads.derived {p : Phrase} {w : List Token} {i j : Nat} {a : p.Tree}
    (h : Reads p w i a j) : p.Derived w := by
  induction h with
  | value _ ih => exact .name (.name (.right ih))
  | assign ht heq _ ih =>
      cases ih with
      | name ih => exact .name (.name (.left (((derives_one ht).seq (derives_one heq)).seq ih)))
  | @level l _ _ _ _ _ _ _ _ _ ih ih' =>
      show Derives (Pattern.name l.ruleName) _
      refine .name ?_
      rw [l.rule_ruleName]
      exact ih.seq ih'
  | levelEnd => exact .manyNil
  | levelMore ho _ _ ih ih' => exact .manyCons ((derives_operators ho).seq ih) ih'
  | tighter hl _ ih | tightest hl _ ih =>
      show Derives (Pattern.name (Level.operandName _)) _
      rw [Level.operandName, hl]
      exact ih
  | operator ht _ ih =>
      refine .name (.left (.seq (u := [_]) ?_ ih))
      rcases Bool.or_eq_true_iff.1 ht with h | h
      · exact .left (.token h)
      · exact .right (.token h)
  | call _ _ ih ih' => exact .name (.right (.name (ih.seq ih')))
  | callEnd => exact .manyNil
  | callMore ht _ hp _ ih ih' =>
      exact derives_of_eq (.manyCons (((derives_one ht).seq ih).seq (derives_one hp)) ih') (by simp)
  | noArguments => exact .absent
  | someArguments _ ih => exact .present (.name ih)
  | lastArgument _ _ ih => exact derives_last ih
  | moreArguments _ _ hc hes ih ih' => exact derives_more (hes.count_lt (.inl rfl)) ih hc ih'
  | constant ht => exact .name (derives_constant ht)
  | name ht => exact .name (.left (.right (derives_one ht)))
  | group ht _ hp ih =>
      exact .name (.right (((derives_one ht).seq ih).seq (derives_one hp)))
  | lastParam _ ht => exact derives_last (derives_one ht)
  | moreParams _ ht hc h ih =>
      exact derives_more (u := [_]) (h.count_lt (.inr rfl)) (derives_one ht) hc ih
  | noExpression => exact .absent
  | someExpression _ ih => exact .present ih
  | varBare ht hs =>
      intro t hv
      exact .name ((((derives_one hv).seq (derives_one ht)).seq .absent).seq (derives_one hs))
  | varValue ht heq _ hs ih =>
      intro t hv
      exact .name ((((derives_one hv).seq (derives_one ht)).seq
        (.present ((derives_one heq).seq ih))).seq (derives_one hs))
  | expressionStatement _ hs ih => exact .name (ih.seq (derives_one hs))
  | printStatement _ hs ih =>
      intro t hp
      exact .name (((derives_one hp).seq ih).seq (derives_one hs))
  | returnStatement _ hs ih =>
      intro t hr
      exact .name (((derives_one hr).seq ih).seq (derives_one hs))
  | noInitializer hs => exact .right (derives_one hs)
  | varInitializer ht _ ih => exact .left (.left (ih _ ht))
  | valueInitializer _ ih => exact .left (.right ih)
  | declaration _ ih => exact ih
  | functionDeclared ht _ ih => exact .name (.left (.left (ih _ ht)))
  | varDeclared ht _ ih => exact .name (.left (.right (ih _ ht)))
  | statementDeclared _ ih => exact .name (.right ih)
  | functionBare hn ho hc hb _ ih =>
      intro t hf
      exact .name ((((((derives_one hf).seq (derives_one hn)).seq (derives_one ho)).seq .absent).seq
        (derives_one hc)).seq (ih _ hb))
  | functionParams hn ho _ hc hb _ ih ih' =>
      intro t hf
      exact derives_of_eq (.name ((((((derives_one hf).seq (derives_one hn)).seq
        (derives_one ho)).seq (.present (.name (n := .parameters) ih))).seq (derives_one hc)).seq
        (ih' _ hb))) (by simp)
  | statementPlain _ ih => exact .name (.left (.left (.left (.left (.left (.left ih))))))
  | statementFor ht _ ih => exact .name (.left (.left (.left (.left (.left (.right (ih _ ht)))))))
  | statementIf ht _ ih => exact .name (.left (.left (.left (.left (.right (ih _ ht))))))
  | statementPrint ht _ ih => exact .name (.left (.left (.left (.right (ih _ ht)))))
  | statementReturn ht _ ih => exact .name (.left (.left (.right (ih _ ht))))
  | statementWhile ht _ ih => exact .name (.left (.right (ih _ ht)))
  | statementBlock ht _ ih => exact .name (.right (ih _ ht))
  | forStatement ho _ _ hs _ hc _ ih₁ ih₂ ih₃ ih₄ =>
      intro t hf
      exact derives_of_eq (.name ((((((((derives_one hf).seq (derives_one ho)).seq ih₁).seq
        ih₂).seq (derives_one hs)).seq ih₃).seq (derives_one hc)).seq ih₄)) (by simp)
  | ifBare ho _ hc _ ih ih' =>
      intro t hi
      exact derives_of_eq (.name ((((((derives_one hi).seq (derives_one ho)).seq ih).seq
        (derives_one hc)).seq ih').seq .absent)) (by simp)
  | ifElse ho _ hc _ _ hk _ ih₁ ih₂ ih₃ =>
      intro t hi
      exact derives_of_eq (.name ((((((derives_one hi).seq (derives_one ho)).seq ih₁).seq
        (derives_one hc)).seq ih₂).seq (.present ((derives_one hk).seq ih₃)))) (by simp)
  | whileStatement ho _ hc _ ih ih' =>
      intro t hw
      exact derives_of_eq (.name (((((derives_one hw).seq (derives_one ho)).seq ih).seq
        (derives_one hc)).seq ih')) (by simp)
  | block _ hb ih =>
      intro t ht
      exact .name (((derives_one ht).seq ih).seq (derives_one hb))
  | declarationsEnd => exact .manyNil
  | declarationsMore _ _ ih ih' => exact .manyCons ih ih'

end Lox.Parse
