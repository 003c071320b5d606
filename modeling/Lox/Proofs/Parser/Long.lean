import Lox.Proofs.Parser.Reading

/-!
# What a parser reads where only a list is too long

A list of arguments or parameters with more than `maxArity` entries is the one thing
that is reported without anything being left out: each entry behind so many others is
reported at its first token and then read like the others. `ReadsLong p w i a j faults`
says that the tokens `w` stand for the tree `a` of the phrase `p`, however long the
lists in it are, and that `faults` are the reports, in the order of the tokens.

Its rules are those of `Reads` without the bound on the entries of a list. Where no
list is too long, nothing is reported and the two relations are the same.
-/

namespace Lox.Parse

/-- Is a fault of this cause the report of an entry that is one too many? -/
def Cause.isOverrun : Cause → Bool
  | .tooManyArguments | .tooManyParameters => true
  | _ => false

/-- What is reported of the entry `w` of a list that stands behind `count` others. -/
def overrun (cause : Cause) (count : Nat) (w : List Token) : List Fault :=
  if maxArity ≤ count then w.head?.toList.map (Fault.mk cause) else []

theorem overrun_of_lt {count : Nat} (h : count < maxArity) (cause : Cause) (w : List Token) :
    overrun cause count w = [] :=
  if_neg (Nat.not_le.2 h)

theorem overrun_cons {count : Nat} (h : maxArity ≤ count) (cause : Cause) (t : Token)
    (w : List Token) : overrun cause count (t :: w) = [⟨cause, t⟩] :=
  if_pos h

/-- Tokens, the tree they stand for, the node numbers before and after it, and the reports of
entries that are too many. -/
inductive ReadsLong : (p : Phrase) → List Token → Nat → p.Tree → Nat → List Fault → Prop
  | value {w : List Token} {e : Expr} {i j : Nat} {fs : List Fault}
      (h : ReadsLong (.level .disjunction) w i e j fs) : ReadsLong .expression w i e j fs
  | assign {t equals : Token} {w : List Token} {e : Expr} {i j : Nat} {fs : List Fault}
      (ht : t.kind = .identifier) (heq : equals.kind = .equal)
      (h : ReadsLong .expression w (i + 1) e j fs) :
      ReadsLong .expression (t :: equals :: w) i (.assign j t e) (j + 1) fs
  | level {l : Level} {u v : List Token} {e : Expr} {rest : List (Token × Expr)} {i j k : Nat}
      {fs gs : List Fault} (he : ReadsLong (.operand l) u i e j fs)
      (hr : ReadsLong (.levelRest l) v j rest k gs) :
      ReadsLong (.level l) (u ++ v) i (l.build e rest) k (fs ++ gs)
  | levelEnd {l : Level} {i : Nat} : ReadsLong (.levelRest l) [] i [] i []
  | levelMore {l : Level} {operator : Token} {u v : List Token} {e : Expr}
      {rest : List (Token × Expr)} {i j k : Nat} {fs gs : List Fault}
      (ho : l.has operator.kind = true) (he : ReadsLong (.operand l) u i e j fs)
      (hr : ReadsLong (.levelRest l) v j rest k gs) :
      ReadsLong (.levelRest l) (operator :: (u ++ v)) i ((operator, e) :: rest) k (fs ++ gs)
  | tighter {l m : Level} {w : List Token} {e : Expr} {i j : Nat} {fs : List Fault}
      (hl : l.tighter? = some m) (h : ReadsLong (.level m) w i e j fs) :
      ReadsLong (.operand l) w i e j fs
  | tightest {l : Level} {w : List Token} {e : Expr} {i j : Nat} {fs : List Fault}
      (hl : l.tighter? = none) (h : ReadsLong .unary w i e j fs) :
      ReadsLong (.operand l) w i e j fs
  | operator {t : Token} {w : List Token} {e : Expr} {i j : Nat} {fs : List Fault}
      (ht : isUnary t.kind = true) (h : ReadsLong .unary w i e j fs) :
      ReadsLong .unary (t :: w) i (.unary t e) j fs
  | call {u v : List Token} {e : Expr} {calls : List (List Expr × Token)} {i j k : Nat}
      {fs gs : List Fault} (he : ReadsLong .primary u i e j fs)
      (hc : ReadsLong .callRest v j calls k gs) :
      ReadsLong .unary (u ++ v) i (buildCalls e calls) k (fs ++ gs)
  | callEnd {i : Nat} : ReadsLong .callRest [] i [] i []
  | callMore {t paren : Token} {u v : List Token} {args : List Expr}
      {calls : List (List Expr × Token)} {i j k : Nat} {fs gs : List Fault}
      (ht : t.kind = .leftParen) (ha : ReadsLong .arguments u i args j fs)
      (hp : paren.kind = .rightParen) (hc : ReadsLong .callRest v j calls k gs) :
      ReadsLong .callRest (t :: (u ++ paren :: v)) i ((args, paren) :: calls) k (fs ++ gs)
  | noArguments {i : Nat} : ReadsLong .arguments [] i [] i []
  | someArguments {w : List Token} {args : List Expr} {i j : Nat} {fs : List Fault}
      (h : ReadsLong (.argumentsFrom 0) w i args j fs) : ReadsLong .arguments w i args j fs
  | lastArgument {count : Nat} {w : List Token} {e : Expr} {i j : Nat} {fs : List Fault}
      (h : ReadsLong .expression w i e j fs) :
      ReadsLong (.argumentsFrom count) w i [e] j (overrun .tooManyArguments count w ++ fs)
  | moreArguments {count : Nat} {comma : Token} {u v : List Token} {e : Expr} {es : List Expr}
      {i j k : Nat} {fs gs : List Fault} (he : ReadsLong .expression u i e j fs)
      (hc : comma.kind = .comma) (hes : ReadsLong (.argumentsFrom (count + 1)) v j es k gs) :
      ReadsLong (.argumentsFrom count) (u ++ comma :: v) i (e :: es) k
        (overrun .tooManyArguments count u ++ fs ++ gs)
  | constant {t : Token} {value : Literal} {i : Nat} (ht : t.constant? = some value) :
      ReadsLong .primary [t] i (.literal value) i []
  | name {t : Token} {i : Nat} (ht : t.kind = .identifier) :
      ReadsLong .primary [t] i (.variable i t) (i + 1) []
  | group {t paren : Token} {w : List Token} {e : Expr} {i j : Nat} {fs : List Fault}
      (ht : t.kind = .leftParen) (h : ReadsLong .expression w i e j fs)
      (hp : paren.kind = .rightParen) :
      ReadsLong .primary (t :: (w ++ [paren])) i (.group e) j fs
  | lastParam {count : Nat} {t : Token} {i : Nat} (ht : t.kind = .identifier) :
      ReadsLong (.paramsFrom count) [t] i [t] i (overrun .tooManyParameters count [t])
  | moreParams {count : Nat} {t comma : Token} {w ts : List Token} {i j : Nat} {fs : List Fault}
      (ht : t.kind = .identifier) (hc : comma.kind = .comma)
      (h : ReadsLong (.paramsFrom (count + 1)) w i ts j fs) :
      ReadsLong (.paramsFrom count) (t :: comma :: w) i (t :: ts) j
        (overrun .tooManyParameters count [t] ++ fs)
  | noExpression {kind : Token.Kind} {i : Nat} :
      ReadsLong (.expressionUnless kind) [] i none i []
  | someExpression {kind : Token.Kind} {w : List Token} {e : Expr} {i j : Nat} {fs : List Fault}
      (h : ReadsLong .expression w i e j fs) :
      ReadsLong (.expressionUnless kind) w i (some e) j fs
  | varBare {t semicolon : Token} {i : Nat} (ht : t.kind = .identifier)
      (hs : semicolon.kind = .semicolon) :
      ReadsLong .varDeclaration [t, semicolon] i (.var t none) i []
  | varValue {t equals semicolon : Token} {w : List Token} {e : Expr} {i j : Nat}
      {fs : List Fault} (ht : t.kind = .identifier) (heq : equals.kind = .equal)
      (h : ReadsLong .expression w i e j fs) (hs : semicolon.kind = .semicolon) :
      ReadsLong .varDeclaration (t :: equals :: (w ++ [semicolon])) i (.var t (some e)) j fs
  | expressionStatement {semicolon : Token} {w : List Token} {e : Expr} {i j : Nat}
      {fs : List Fault} (h : ReadsLong .expression w i e j fs)
      (hs : semicolon.kind = .semicolon) :
      ReadsLong .expressionStatement (w ++ [semicolon]) i (.expression e) j fs
  | printStatement {semicolon : Token} {w : List Token} {e : Expr} {i j : Nat} {fs : List Fault}
      (h : ReadsLong .expression w i e j fs) (hs : semicolon.kind = .semicolon) :
      ReadsLong .printStatement (w ++ [semicolon]) i (.print e) j fs
  | returnStatement {keyword semicolon : Token} {w : List Token} {e : Option Expr} {i j : Nat}
      {fs : List Fault} (h : ReadsLong (.expressionUnless .semicolon) w i e j fs)
      (hs : semicolon.kind = .semicolon) :
      ReadsLong (.returnStatement keyword) (w ++ [semicolon]) i (.ret keyword e) j fs
  | noInitializer {semicolon : Token} {i : Nat} (hs : semicolon.kind = .semicolon) :
      ReadsLong .forInitializer [semicolon] i none i []
  | varInitializer {t : Token} {w : List Token} {s : Stmt} {i j : Nat} {fs : List Fault}
      (ht : t.kind = .kwVar) (h : ReadsLong .varDeclaration w i s j fs) :
      ReadsLong .forInitializer (t :: w) i (some s) j fs
  | valueInitializer {w : List Token} {s : Stmt} {i j : Nat} {fs : List Fault}
      (h : ReadsLong .expressionStatement w i s j fs) :
      ReadsLong .forInitializer w i (some s) j fs
  | declaration {w : List Token} {s : Stmt} {i j : Nat} {fs : List Fault}
      (h : ReadsLong .declared w i s j fs) : ReadsLong .declaration w i (some s) j fs
  | functionDeclared {t : Token} {w : List Token} {s : Stmt} {i j : Nat} {fs : List Fault}
      (ht : t.kind = .kwFun) (h : ReadsLong .function w i s j fs) :
      ReadsLong .declared (t :: w) i s j fs
  | varDeclared {t : Token} {w : List Token} {s : Stmt} {i j : Nat} {fs : List Fault}
      (ht : t.kind = .kwVar) (h : ReadsLong .varDeclaration w i s j fs) :
      ReadsLong .declared (t :: w) i s j fs
  | statementDeclared {w : List Token} {s : Stmt} {i j : Nat} {fs : List Fault}
      (h : ReadsLong .statement w i s j fs) : ReadsLong .declared w i s j fs
  | functionBare {name opening closing brace : Token} {w : List Token} {body : List Stmt}
      {i j : Nat} {fs : List Fault} (hn : name.kind = .identifier)
      (ho : opening.kind = .leftParen) (hc : closing.kind = .rightParen)
      (hb : brace.kind = .leftBrace) (h : ReadsLong .block w i body j fs) :
      ReadsLong .function (name :: opening :: closing :: brace :: w) i (.function name [] body) j
        fs
  | functionParams {name opening closing brace : Token} {u v params : List Token}
      {body : List Stmt} {i j k : Nat} {fs gs : List Fault} (hn : name.kind = .identifier)
      (ho : opening.kind = .leftParen) (hp : ReadsLong (.paramsFrom 0) u i params j fs)
      (hc : closing.kind = .rightParen) (hb : brace.kind = .leftBrace)
      (h : ReadsLong .block v j body k gs) :
      ReadsLong .function (name :: opening :: (u ++ closing :: brace :: v)) i
        (.function name params body) k (fs ++ gs)
  | statementPlain {w : List Token} {s : Stmt} {i j : Nat} {fs : List Fault}
      (h : ReadsLong .expressionStatement w i s j fs) : ReadsLong .statement w i s j fs
  | statementFor {t : Token} {w : List Token} {s : Stmt} {i j : Nat} {fs : List Fault}
      (ht : t.kind = .kwFor) (h : ReadsLong .forStatement w i s j fs) :
      ReadsLong .statement (t :: w) i s j fs
  | statementIf {t : Token} {w : List Token} {s : Stmt} {i j : Nat} {fs : List Fault}
      (ht : t.kind = .kwIf) (h : ReadsLong .ifStatement w i s j fs) :
      ReadsLong .statement (t :: w) i s j fs
  | statementPrint {t : Token} {w : List Token} {s : Stmt} {i j : Nat} {fs : List Fault}
      (ht : t.kind = .kwPrint) (h : ReadsLong .printStatement w i s j fs) :
      ReadsLong .statement (t :: w) i s j fs
  | statementReturn {t : Token} {w : List Token} {s : Stmt} {i j : Nat} {fs : List Fault}
      (ht : t.kind = .kwReturn) (h : ReadsLong (.returnStatement t) w i s j fs) :
      ReadsLong .statement (t :: w) i s j fs
  | statementWhile {t : Token} {w : List Token} {s : Stmt} {i j : Nat} {fs : List Fault}
      (ht : t.kind = .kwWhile) (h : ReadsLong .whileStatement w i s j fs) :
      ReadsLong .statement (t :: w) i s j fs
  | statementBlock {t : Token} {w : List Token} {body : List Stmt} {i j : Nat} {fs : List Fault}
      (ht : t.kind = .leftBrace) (h : ReadsLong .block w i body j fs) :
      ReadsLong .statement (t :: w) i (.block body) j fs
  | forStatement {opening semicolon closing : Token} {u v w x : List Token}
      {initializer : Option Stmt} {condition increment : Option Expr} {body : Stmt}
      {i j k l m : Nat} {fs gs hs xs : List Fault} (ho : opening.kind = .leftParen)
      (hi : ReadsLong .forInitializer u i initializer j fs)
      (hd : ReadsLong (.expressionUnless .semicolon) v j condition k gs)
      (hsemicolon : semicolon.kind = .semicolon)
      (hn : ReadsLong (.expressionUnless .rightParen) w k increment l hs)
      (hc : closing.kind = .rightParen) (hb : ReadsLong .statement x l body m xs) :
      ReadsLong .forStatement (opening :: (u ++ (v ++ semicolon :: (w ++ closing :: x)))) i
        (.forLoop initializer condition increment body) m (fs ++ (gs ++ (hs ++ xs)))
  | ifBare {opening closing : Token} {u v : List Token} {condition : Expr} {thenBranch : Stmt}
      {i j k : Nat} {fs gs : List Fault} (ho : opening.kind = .leftParen)
      (hd : ReadsLong .expression u i condition j fs) (hc : closing.kind = .rightParen)
      (ht : ReadsLong .statement v j thenBranch k gs) :
      ReadsLong .ifStatement (opening :: (u ++ closing :: v)) i
        (.ifThen condition thenBranch none) k (fs ++ gs)
  | ifElse {opening closing keyword : Token} {u v w : List Token} {condition : Expr}
      {thenBranch elseBranch : Stmt} {i j k l : Nat} {fs gs hs : List Fault}
      (ho : opening.kind = .leftParen) (hd : ReadsLong .expression u i condition j fs)
      (hc : closing.kind = .rightParen) (ht : ReadsLong .statement v j thenBranch k gs)
      (hn : thenBranch.dangling = false) (hk : keyword.kind = .kwElse)
      (he : ReadsLong .statement w k elseBranch l hs) :
      ReadsLong .ifStatement (opening :: (u ++ closing :: (v ++ keyword :: w))) i
        (.ifThen condition thenBranch (some elseBranch)) l (fs ++ (gs ++ hs))
  | whileStatement {opening closing : Token} {u v : List Token} {condition : Expr} {body : Stmt}
      {i j k : Nat} {fs gs : List Fault} (ho : opening.kind = .leftParen)
      (hd : ReadsLong .expression u i condition j fs) (hc : closing.kind = .rightParen)
      (hb : ReadsLong .statement v j body k gs) :
      ReadsLong .whileStatement (opening :: (u ++ closing :: v)) i (.whileLoop condition body) k
        (fs ++ gs)
  | block {brace : Token} {w : List Token} {body : List Stmt} {i j : Nat} {fs : List Fault}
      (h : ReadsLong (.declarations true) w i body j fs) (hb : brace.kind = .rightBrace) :
      ReadsLong .block (w ++ [brace]) i body j fs
  | declarationsEnd {inBlock : Bool} {i : Nat} :
      ReadsLong (.declarations inBlock) [] i [] i []
  | declarationsMore {inBlock : Bool} {u v : List Token} {s : Stmt} {rest : List Stmt}
      {i j k : Nat} {fs gs : List Fault} (hs : ReadsLong .declaration u i (some s) j fs)
      (hr : ReadsLong (.declarations inBlock) v j rest k gs) :
      ReadsLong (.declarations inBlock) (u ++ v) i (s :: rest) k (fs ++ gs)

/-- What can be read without a fault can be read, and nothing is reported. -/
theorem Reads.long {p : Phrase} {w : List Token} {i j : Nat} {a : p.Tree}
    (h : Reads p w i a j) : ReadsLong p w i a j [] := by
  induction h with
  | value _ ih => exact .value ih
  | assign ht heq _ ih => exact .assign ht heq ih
  | level _ _ ihe ihr => exact .level ihe ihr
  | levelEnd => exact .levelEnd
  | levelMore ho _ _ ihe ihr => exact .levelMore ho ihe ihr
  | tighter hl _ ih => exact .tighter hl ih
  | tightest hl _ ih => exact .tightest hl ih
  | operator ht _ ih => exact .operator ht ih
  | call _ _ ihe ihc => exact .call ihe ihc
  | callEnd => exact .callEnd
  | callMore ht _ hp _ iha ihc => exact .callMore ht iha hp ihc
  | noArguments => exact .noArguments
  | someArguments _ ih => exact .someArguments ih
  | @lastArgument count _ _ _ _ hn _ ih =>
      have h : ReadsLong (.argumentsFrom count) _ _ _ _ _ := .lastArgument ih
      rwa [overrun_of_lt hn] at h
  | moreArguments hn _ hc _ ihe ihes =>
      have h := ReadsLong.moreArguments ihe hc ihes
      rwa [overrun_of_lt hn] at h
  | constant ht => exact .constant ht
  | name ht => exact .name ht
  | group ht _ hp ih => exact .group ht ih hp
  | @lastParam count t i hn ht =>
      have h : ReadsLong (.paramsFrom count) [t] i [t] i _ := .lastParam ht
      rwa [overrun_of_lt hn] at h
  | moreParams hn ht hc _ ih =>
      have h := ReadsLong.moreParams ht hc ih
      rwa [overrun_of_lt hn] at h
  | noExpression => exact .noExpression
  | someExpression _ ih => exact .someExpression ih
  | varBare ht hs => exact .varBare ht hs
  | varValue ht heq _ hs ih => exact .varValue ht heq ih hs
  | expressionStatement _ hs ih => exact .expressionStatement ih hs
  | printStatement _ hs ih => exact .printStatement ih hs
  | returnStatement _ hs ih => exact .returnStatement ih hs
  | noInitializer hs => exact .noInitializer hs
  | varInitializer ht _ ih => exact .varInitializer ht ih
  | valueInitializer _ ih => exact .valueInitializer ih
  | declaration _ ih => exact .declaration ih
  | functionDeclared ht _ ih => exact .functionDeclared ht ih
  | varDeclared ht _ ih => exact .varDeclared ht ih
  | statementDeclared _ ih => exact .statementDeclared ih
  | functionBare hn ho hc hb _ ih => exact .functionBare hn ho hc hb ih
  | functionParams hn ho _ hc hb _ ihp ih => exact .functionParams hn ho ihp hc hb ih
  | statementPlain _ ih => exact .statementPlain ih
  | statementFor ht _ ih => exact .statementFor ht ih
  | statementIf ht _ ih => exact .statementIf ht ih
  | statementPrint ht _ ih => exact .statementPrint ht ih
  | statementReturn ht _ ih => exact .statementReturn ht ih
  | statementWhile ht _ ih => exact .statementWhile ht ih
  | statementBlock ht _ ih => exact .statementBlock ht ih
  | forStatement ho _ _ hs _ hc _ ihi ihd ihn ihb => exact .forStatement ho ihi ihd hs ihn hc ihb
  | ifBare ho _ hc _ ihd iht => exact .ifBare ho ihd hc iht
  | ifElse ho _ hc _ hn hk _ ihd iht ihe => exact .ifElse ho ihd hc iht hn hk ihe
  | whileStatement ho _ hc _ ihd ihb => exact .whileStatement ho ihd hc ihb
  | block _ hb ih => exact .block ih hb
  | declarationsEnd => exact .declarationsEnd
  | declarationsMore _ _ ihs ihr => exact .declarationsMore ihs ihr

/-- Nothing but reports of entries that are too many. -/
def Overruns (faults : List Fault) : Prop := ∀ f ∈ faults, f.cause.isOverrun = true

theorem Overruns.nil : Overruns [] := fun _ h => nomatch h

theorem Overruns.append {fs gs : List Fault} (h : Overruns fs) (h' : Overruns gs) :
    Overruns (fs ++ gs) :=
  List.forall_mem_append.2 ⟨h, h'⟩

theorem overruns_overrun {cause : Cause} (h : cause.isOverrun = true) (count : Nat)
    (w : List Token) : Overruns (overrun cause count w) := by
  intro f hf
  rw [overrun] at hf
  split at hf
  next =>
    obtain ⟨t, -, rfl⟩ := List.mem_map.1 hf
    exact h
  next => cases hf

theorem ReadsLong.overruns {p : Phrase} {w : List Token} {i j : Nat} {a : p.Tree}
    {faults : List Fault} (h : ReadsLong p w i a j faults) : Overruns faults := by
  induction h with
  | levelEnd | callEnd | noArguments | constant | name | noExpression | varBare | noInitializer
  | declarationsEnd => exact .nil
  | value _ ih | assign _ _ _ ih | tighter _ _ ih | tightest _ _ ih | operator _ _ ih
  | someArguments _ ih | group _ _ _ ih | someExpression _ ih | varValue _ _ _ _ ih
  | expressionStatement _ _ ih | printStatement _ _ ih | returnStatement _ _ ih
  | varInitializer _ _ ih | valueInitializer _ ih | declaration _ ih | functionDeclared _ _ ih
  | varDeclared _ _ ih | statementDeclared _ ih | functionBare _ _ _ _ _ ih | statementPlain _ ih
  | statementFor _ _ ih | statementIf _ _ ih | statementPrint _ _ ih | statementReturn _ _ ih
  | statementWhile _ _ ih | statementBlock _ _ ih | block _ _ ih => exact ih
  | level _ _ ih ih' | levelMore _ _ _ ih ih' | call _ _ ih ih' | callMore _ _ _ _ ih ih'
  | functionParams _ _ _ _ _ _ ih ih' | ifBare _ _ _ _ ih ih' | whileStatement _ _ _ _ ih ih'
  | declarationsMore _ _ ih ih' => exact ih.append ih'
  | ifElse _ _ _ _ _ _ _ ih ih' ih'' => exact ih.append (ih'.append ih'')
  | forStatement _ _ _ _ _ _ _ ih₁ ih₂ ih₃ ih₄ => exact ih₁.append (ih₂.append (ih₃.append ih₄))
  | lastArgument _ ih => exact (overruns_overrun rfl _ _).append ih
  | moreArguments _ _ _ ih ih' => exact ((overruns_overrun rfl _ _).append ih).append ih'
  | lastParam => exact overruns_overrun rfl _ _
  | moreParams _ _ _ ih => exact (overruns_overrun rfl _ _).append ih

end Lox.Parse
