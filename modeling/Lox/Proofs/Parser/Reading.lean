import Lox.Tree.Parse.Stmt

/-!
# What a parser reads when nothing is wrong

`Reads p w i a j` says that the tokens `w` stand for the tree `a` of the phrase
`p`, if node numbers are given out from `i` on, and that `j` is the first number
left. There is a rule for each way through the parser that reports no fault, so
the relation is the parser without its state: neither the fuel nor the tokens
that follow show up in it.

Where the grammar leaves a choice, the relation makes it as the parser does. The
one such choice is the `else` of nested conditionals, which goes to the nearest
of them: no conditional with an `else` has a first branch that could take it.

The operators of a level and the argument lists of a call are read as lists,
and the tree is built from the list afterwards. That leaves each rule without
the part of the tree that was read before it.
-/

namespace Lox

/-- Could an `else` that follows be taken by a conditional at the end of the
statement? -/
def Stmt.dangling : Stmt → Bool
  | .ifThen _ _ none => true
  | .ifThen _ _ (some elseBranch) => elseBranch.dangling
  | .whileLoop _ body => body.dangling
  | .forLoop _ _ _ body => body.dangling
  | _ => false

namespace Parse

/-- Operators of a level with their right operands, put onto what stands to the
left of them. -/
def Level.build (l : Level) (left : Expr) (rest : List (Token × Expr)) : Expr :=
  rest.foldl (fun left r => l.node left r.1 r.2) left

/-- Argument lists with their closing parentheses, put onto what is called. -/
def buildCalls (callee : Expr) (calls : List (List Expr × Token)) : Expr :=
  calls.foldl (fun callee c => .call callee c.2 c.1) callee

/-- What the functions of the parser read. -/
inductive Phrase
  | expression
  | level (l : Level)
  | levelRest (l : Level)
  | operand (l : Level)
  | unary
  | callRest
  | arguments
  | argumentsFrom (count : Nat)
  | primary
  | paramsFrom (count : Nat)
  | expressionUnless (kind : Token.Kind)
  | varDeclaration
  | expressionStatement
  | printStatement
  | returnStatement (keyword : Token)
  | forInitializer
  | declaration
  | declared
  | function
  | statement
  | forStatement
  | ifStatement
  | whileStatement
  | block
  | declarations (inBlock : Bool)

namespace Phrase

/-- The trees that a phrase stands for. -/
abbrev Tree : Phrase → Type
  | expression | level _ | operand _ | unary | primary => Expr
  | levelRest _ => List (Token × Expr)
  | callRest => List (List Expr × Token)
  | arguments | argumentsFrom _ => List Expr
  | paramsFrom _ => List Token
  | expressionUnless _ => Option Expr
  | forInitializer | declaration => Option Stmt
  | block | declarations _ => List Stmt
  | varDeclaration | expressionStatement | printStatement | returnStatement _ | declared
  | function | statement | forStatement | ifStatement | whileStatement => Stmt

end Phrase

/-- Could an `else` that follows be taken by a conditional at the end of the
phrase? -/
def Phrase.dangling : (p : Phrase) → p.Tree → Bool
  | .varDeclaration, s | .expressionStatement, s | .printStatement, s | .returnStatement _, s
  | .declared, s | .function, s | .statement, s | .forStatement, s | .ifStatement, s
  | .whileStatement, s => Stmt.dangling s
  | .declaration, s => Option.any Stmt.dangling s
  | _, _ => false

/-- Tokens, the tree they stand for, and the node numbers before and after it. -/
inductive Reads : (p : Phrase) → List Token → Nat → p.Tree → Nat → Prop
  | value {w : List Token} {e : Expr} {i j : Nat} (h : Reads (.level .disjunction) w i e j) :
      Reads .expression w i e j
  /-- The number of the name is given out before the value is read, and is lost. -/
  | assign {t equals : Token} {w : List Token} {e : Expr} {i j : Nat}
      (ht : t.kind = .identifier) (heq : equals.kind = .equal)
      (h : Reads .expression w (i + 1) e j) :
      Reads .expression (t :: equals :: w) i (.assign j t e) (j + 1)
  | level {l : Level} {u v : List Token} {e : Expr} {rest : List (Token × Expr)} {i j k : Nat}
      (he : Reads (.operand l) u i e j) (hr : Reads (.levelRest l) v j rest k) :
      Reads (.level l) (u ++ v) i (l.build e rest) k
  | levelEnd {l : Level} {i : Nat} : Reads (.levelRest l) [] i [] i
  | levelMore {l : Level} {operator : Token} {u v : List Token} {e : Expr}
      {rest : List (Token × Expr)} {i j k : Nat} (ho : l.has operator.kind = true)
      (he : Reads (.operand l) u i e j) (hr : Reads (.levelRest l) v j rest k) :
      Reads (.levelRest l) (operator :: (u ++ v)) i ((operator, e) :: rest) k
  | tighter {l m : Level} {w : List Token} {e : Expr} {i j : Nat} (hl : l.tighter? = some m)
      (h : Reads (.level m) w i e j) : Reads (.operand l) w i e j
  | tightest {l : Level} {w : List Token} {e : Expr} {i j : Nat} (hl : l.tighter? = none)
      (h : Reads .unary w i e j) : Reads (.operand l) w i e j
  | operator {t : Token} {w : List Token} {e : Expr} {i j : Nat} (ht : isUnary t.kind = true)
      (h : Reads .unary w i e j) : Reads .unary (t :: w) i (.unary t e) j
  | call {u v : List Token} {e : Expr} {calls : List (List Expr × Token)} {i j k : Nat}
      (he : Reads .primary u i e j) (hc : Reads .callRest v j calls k) :
      Reads .unary (u ++ v) i (buildCalls e calls) k
  | callEnd {i : Nat} : Reads .callRest [] i [] i
  | callMore {t paren : Token} {u v : List Token} {args : List Expr}
      {calls : List (List Expr × Token)} {i j k : Nat} (ht : t.kind = .leftParen)
      (ha : Reads .arguments u i args j) (hp : paren.kind = .rightParen)
      (hc : Reads .callRest v j calls k) :
      Reads .callRest (t :: (u ++ paren :: v)) i ((args, paren) :: calls) k
  | noArguments {i : Nat} : Reads .arguments [] i [] i
  | someArguments {w : List Token} {args : List Expr} {i j : Nat}
      (h : Reads (.argumentsFrom 0) w i args j) : Reads .arguments w i args j
  | lastArgument {count : Nat} {w : List Token} {e : Expr} {i j : Nat} (hn : count < maxArity)
      (h : Reads .expression w i e j) : Reads (.argumentsFrom count) w i [e] j
  | moreArguments {count : Nat} {comma : Token} {u v : List Token} {e : Expr} {es : List Expr}
      {i j k : Nat} (hn : count < maxArity) (he : Reads .expression u i e j)
      (hc : comma.kind = .comma) (hes : Reads (.argumentsFrom (count + 1)) v j es k) :
      Reads (.argumentsFrom count) (u ++ comma :: v) i (e :: es) k
  | constant {t : Token} {value : Literal} {i : Nat} (ht : t.constant? = some value) :
      Reads .primary [t] i (.literal value) i
  | name {t : Token} {i : Nat} (ht : t.kind = .identifier) :
      Reads .primary [t] i (.variable i t) (i + 1)
  | group {t paren : Token} {w : List Token} {e : Expr} {i j : Nat} (ht : t.kind = .leftParen)
      (h : Reads .expression w i e j) (hp : paren.kind = .rightParen) :
      Reads .primary (t :: (w ++ [paren])) i (.group e) j
  | lastParam {count : Nat} {t : Token} {i : Nat} (hn : count < maxArity)
      (ht : t.kind = .identifier) : Reads (.paramsFrom count) [t] i [t] i
  | moreParams {count : Nat} {t comma : Token} {w ts : List Token} {i j : Nat}
      (hn : count < maxArity) (ht : t.kind = .identifier) (hc : comma.kind = .comma)
      (h : Reads (.paramsFrom (count + 1)) w i ts j) :
      Reads (.paramsFrom count) (t :: comma :: w) i (t :: ts) j
  | noExpression {kind : Token.Kind} {i : Nat} : Reads (.expressionUnless kind) [] i none i
  | someExpression {kind : Token.Kind} {w : List Token} {e : Expr} {i j : Nat}
      (h : Reads .expression w i e j) : Reads (.expressionUnless kind) w i (some e) j
  | varBare {t semicolon : Token} {i : Nat} (ht : t.kind = .identifier)
      (hs : semicolon.kind = .semicolon) :
      Reads .varDeclaration [t, semicolon] i (.var t none) i
  | varValue {t equals semicolon : Token} {w : List Token} {e : Expr} {i j : Nat}
      (ht : t.kind = .identifier) (heq : equals.kind = .equal) (h : Reads .expression w i e j)
      (hs : semicolon.kind = .semicolon) :
      Reads .varDeclaration (t :: equals :: (w ++ [semicolon])) i (.var t (some e)) j
  | expressionStatement {semicolon : Token} {w : List Token} {e : Expr} {i j : Nat}
      (h : Reads .expression w i e j) (hs : semicolon.kind = .semicolon) :
      Reads .expressionStatement (w ++ [semicolon]) i (.expression e) j
  | printStatement {semicolon : Token} {w : List Token} {e : Expr} {i j : Nat}
      (h : Reads .expression w i e j) (hs : semicolon.kind = .semicolon) :
      Reads .printStatement (w ++ [semicolon]) i (.print e) j
  | returnStatement {keyword semicolon : Token} {w : List Token} {e : Option Expr} {i j : Nat}
      (h : Reads (.expressionUnless .semicolon) w i e j) (hs : semicolon.kind = .semicolon) :
      Reads (.returnStatement keyword) (w ++ [semicolon]) i (.ret keyword e) j
  | noInitializer {semicolon : Token} {i : Nat} (hs : semicolon.kind = .semicolon) :
      Reads .forInitializer [semicolon] i none i
  | varInitializer {t : Token} {w : List Token} {s : Stmt} {i j : Nat} (ht : t.kind = .kwVar)
      (h : Reads .varDeclaration w i s j) : Reads .forInitializer (t :: w) i (some s) j
  | valueInitializer {w : List Token} {s : Stmt} {i j : Nat}
      (h : Reads .expressionStatement w i s j) : Reads .forInitializer w i (some s) j
  | declaration {w : List Token} {s : Stmt} {i j : Nat} (h : Reads .declared w i s j) :
      Reads .declaration w i (some s) j
  | functionDeclared {t : Token} {w : List Token} {s : Stmt} {i j : Nat} (ht : t.kind = .kwFun)
      (h : Reads .function w i s j) : Reads .declared (t :: w) i s j
  | varDeclared {t : Token} {w : List Token} {s : Stmt} {i j : Nat} (ht : t.kind = .kwVar)
      (h : Reads .varDeclaration w i s j) : Reads .declared (t :: w) i s j
  | statementDeclared {w : List Token} {s : Stmt} {i j : Nat} (h : Reads .statement w i s j) :
      Reads .declared w i s j
  | functionBare {name opening closing brace : Token} {w : List Token} {body : List Stmt}
      {i j : Nat} (hn : name.kind = .identifier) (ho : opening.kind = .leftParen)
      (hc : closing.kind = .rightParen) (hb : brace.kind = .leftBrace)
      (h : Reads .block w i body j) :
      Reads .function (name :: opening :: closing :: brace :: w) i (.function name [] body) j
  | functionParams {name opening closing brace : Token} {u v params : List Token}
      {body : List Stmt} {i j k : Nat} (hn : name.kind = .identifier)
      (ho : opening.kind = .leftParen) (hp : Reads (.paramsFrom 0) u i params j)
      (hc : closing.kind = .rightParen) (hb : brace.kind = .leftBrace)
      (h : Reads .block v j body k) :
      Reads .function (name :: opening :: (u ++ closing :: brace :: v)) i
        (.function name params body) k
  | statementPlain {w : List Token} {s : Stmt} {i j : Nat}
      (h : Reads .expressionStatement w i s j) :
      Reads .statement w i s j
  | statementFor {t : Token} {w : List Token} {s : Stmt} {i j : Nat} (ht : t.kind = .kwFor)
      (h : Reads .forStatement w i s j) : Reads .statement (t :: w) i s j
  | statementIf {t : Token} {w : List Token} {s : Stmt} {i j : Nat} (ht : t.kind = .kwIf)
      (h : Reads .ifStatement w i s j) : Reads .statement (t :: w) i s j
  | statementPrint {t : Token} {w : List Token} {s : Stmt} {i j : Nat} (ht : t.kind = .kwPrint)
      (h : Reads .printStatement w i s j) : Reads .statement (t :: w) i s j
  | statementReturn {t : Token} {w : List Token} {s : Stmt} {i j : Nat} (ht : t.kind = .kwReturn)
      (h : Reads (.returnStatement t) w i s j) : Reads .statement (t :: w) i s j
  | statementWhile {t : Token} {w : List Token} {s : Stmt} {i j : Nat} (ht : t.kind = .kwWhile)
      (h : Reads .whileStatement w i s j) : Reads .statement (t :: w) i s j
  | statementBlock {t : Token} {w : List Token} {body : List Stmt} {i j : Nat}
      (ht : t.kind = .leftBrace) (h : Reads .block w i body j) :
      Reads .statement (t :: w) i (.block body) j
  | forStatement {opening semicolon closing : Token} {u v w x : List Token}
      {initializer : Option Stmt} {condition increment : Option Expr} {body : Stmt}
      {i j k l m : Nat} (ho : opening.kind = .leftParen)
      (hi : Reads .forInitializer u i initializer j)
      (hd : Reads (.expressionUnless .semicolon) v j condition k)
      (hs : semicolon.kind = .semicolon)
      (hn : Reads (.expressionUnless .rightParen) w k increment l)
      (hc : closing.kind = .rightParen) (hb : Reads .statement x l body m) :
      Reads .forStatement (opening :: (u ++ (v ++ semicolon :: (w ++ closing :: x)))) i
        (.forLoop initializer condition increment body) m
  | ifBare {opening closing : Token} {u v : List Token} {condition : Expr} {thenBranch : Stmt}
      {i j k : Nat} (ho : opening.kind = .leftParen) (hd : Reads .expression u i condition j)
      (hc : closing.kind = .rightParen) (ht : Reads .statement v j thenBranch k) :
      Reads .ifStatement (opening :: (u ++ closing :: v)) i (.ifThen condition thenBranch none) k
  | ifElse {opening closing keyword : Token} {u v w : List Token} {condition : Expr}
      {thenBranch elseBranch : Stmt} {i j k l : Nat} (ho : opening.kind = .leftParen)
      (hd : Reads .expression u i condition j) (hc : closing.kind = .rightParen)
      (ht : Reads .statement v j thenBranch k) (hn : thenBranch.dangling = false)
      (hk : keyword.kind = .kwElse) (he : Reads .statement w k elseBranch l) :
      Reads .ifStatement (opening :: (u ++ closing :: (v ++ keyword :: w))) i
        (.ifThen condition thenBranch (some elseBranch)) l
  | whileStatement {opening closing : Token} {u v : List Token} {condition : Expr} {body : Stmt}
      {i j k : Nat} (ho : opening.kind = .leftParen) (hd : Reads .expression u i condition j)
      (hc : closing.kind = .rightParen) (hb : Reads .statement v j body k) :
      Reads .whileStatement (opening :: (u ++ closing :: v)) i (.whileLoop condition body) k
  | block {brace : Token} {w : List Token} {body : List Stmt} {i j : Nat}
      (h : Reads (.declarations true) w i body j) (hb : brace.kind = .rightBrace) :
      Reads .block (w ++ [brace]) i body j
  | declarationsEnd {inBlock : Bool} {i : Nat} : Reads (.declarations inBlock) [] i [] i
  | declarationsMore {inBlock : Bool} {u v : List Token} {s : Stmt} {rest : List Stmt}
      {i j k : Nat} (hs : Reads .declaration u i (some s) j)
      (hr : Reads (.declarations inBlock) v j rest k) :
      Reads (.declarations inBlock) (u ++ v) i (s :: rest) k

end Parse

end Lox
