import Lox.Token

/-!
# The grammar of programs

The grammar as it is documented, one right-hand side for each of its names. A
list of tokens is a sentence if, with the mark of the end put behind it, it can
be derived from `program`. The grammar knows nothing of the parser: it says
neither how a sentence is found nor which tree belongs to it.

The one thing the documented grammar leaves to the text around it is the length
of argument lists and parameter lists. Here it stands in the two rules, as a
repetition that may be used only so often.
-/

namespace Lox.Grammar

/-- The names of the rules. -/
inductive Name
  | program | declaration | funDecl | varDecl
  | statement | exprStmt | forStmt | ifStmt | printStmt | returnStmt | whileStmt | block
  | parameters | expression | assignment
  | logicOr | logicAnd | equality | comparison | term | factor
  | unary | call | arguments | primary

/-- The right-hand sides of rules. -/
inductive Pattern
  | token (wanted : Token.Kind → Bool)
  | name (n : Name)
  | seq (p q : Pattern)
  | alt (p q : Pattern)
  | optional (p : Pattern)
  | many (p : Pattern)
  /-- A repetition, at most so often. -/
  | upTo (limit : Nat) (p : Pattern)

namespace Pattern

instance : Append Pattern := ⟨seq⟩

instance : OrOp Pattern := ⟨alt⟩

theorem append_eq (p q : Pattern) : p ++ q = seq p q := rfl

theorem or_eq (p q : Pattern) : p ||| q = alt p q := rfl

/-- One token of the given kind. -/
def one (kind : Token.Kind) : Pattern := token (· = kind)

/-- A number, whatever its value. -/
def anyNumber : Pattern := token fun
  | .number _ => true
  | _ => false

/-- A string, whatever its text. -/
def anyString : Pattern := token fun
  | .string _ => true
  | _ => false

end Pattern

open Pattern Token.Kind

/-- The most entries of an argument list or a parameter list. -/
def maxEntries : Nat := 255

/-- The rules. -/
@[simp] def rule : Name → Pattern
  | .program => many (name .declaration) ++ one eof
  | .declaration => name .funDecl ||| name .varDecl ||| name .statement
  | .funDecl =>
    one kwFun ++ one identifier ++ one leftParen ++ optional (name .parameters) ++
      one rightParen ++ name .block
  | .varDecl =>
    one kwVar ++ one identifier ++ optional (one equal ++ name .expression) ++ one semicolon
  | .statement =>
    name .exprStmt ||| name .forStmt ||| name .ifStmt ||| name .printStmt |||
      name .returnStmt ||| name .whileStmt ||| name .block
  | .exprStmt => name .expression ++ one semicolon
  | .forStmt =>
    one kwFor ++ one leftParen ++ (name .varDecl ||| name .exprStmt ||| one semicolon) ++
      optional (name .expression) ++ one semicolon ++ optional (name .expression) ++
      one rightParen ++ name .statement
  | .ifStmt =>
    one kwIf ++ one leftParen ++ name .expression ++ one rightParen ++ name .statement ++
      optional (one kwElse ++ name .statement)
  | .printStmt => one kwPrint ++ name .expression ++ one semicolon
  | .returnStmt => one kwReturn ++ optional (name .expression) ++ one semicolon
  | .whileStmt =>
    one kwWhile ++ one leftParen ++ name .expression ++ one rightParen ++ name .statement
  | .block => one leftBrace ++ many (name .declaration) ++ one rightBrace
  | .parameters => one identifier ++ upTo (maxEntries - 1) (one comma ++ one identifier)
  | .expression => name .assignment
  | .assignment => one identifier ++ one equal ++ name .assignment ||| name .logicOr
  | .logicOr => name .logicAnd ++ many (one kwOr ++ name .logicAnd)
  | .logicAnd => name .equality ++ many (one kwAnd ++ name .equality)
  | .equality => name .comparison ++ many ((one bangEqual ||| one equalEqual) ++ name .comparison)
  | .comparison =>
    name .term ++
      many ((one greater ||| one greaterEqual ||| one less ||| one lessEqual) ++ name .term)
  | .term => name .factor ++ many ((one minus ||| one plus) ++ name .factor)
  | .factor => name .unary ++ many ((one slash ||| one star) ++ name .unary)
  | .unary => (one bang ||| one minus) ++ name .unary ||| name .call
  | .call => name .primary ++ many (one leftParen ++ optional (name .arguments) ++ one rightParen)
  | .arguments => name .expression ++ upTo (maxEntries - 1) (one comma ++ name .expression)
  | .primary =>
    anyNumber ||| anyString ||| one kwTrue ||| one kwFalse ||| one kwNil ||| one identifier |||
      one leftParen ++ name .expression ++ one rightParen

/-- What can be derived from a right-hand side. -/
inductive Derives : Pattern → List Token → Prop
  | token {wanted : Token.Kind → Bool} {t : Token} (h : wanted t.kind = true) :
      Derives (.token wanted) [t]
  | name {n : Name} {w : List Token} (h : Derives (rule n) w) : Derives (.name n) w
  | seq {p q : Pattern} {u v : List Token} (hp : Derives p u) (hq : Derives q v) :
      Derives (.seq p q) (u ++ v)
  | left {p q : Pattern} {w : List Token} (h : Derives p w) : Derives (.alt p q) w
  | right {p q : Pattern} {w : List Token} (h : Derives q w) : Derives (.alt p q) w
  | absent {p : Pattern} : Derives (.optional p) []
  | present {p : Pattern} {w : List Token} (h : Derives p w) : Derives (.optional p) w
  | manyNil {p : Pattern} : Derives (.many p) []
  | manyCons {p : Pattern} {u v : List Token} (hp : Derives p u) (hq : Derives (.many p) v) :
      Derives (.many p) (u ++ v)
  | upToNil {limit : Nat} {p : Pattern} : Derives (.upTo limit p) []
  | upToCons {limit : Nat} {p : Pattern} {u v : List Token} (hp : Derives p u)
      (hq : Derives (.upTo limit p) v) : Derives (.upTo (limit + 1) p) (u ++ v)

/-- A sentence of the grammar, without the mark of the end. -/
def Sentence (tokens : List Token) : Prop :=
  ∃ last : Token, last.kind = .eof ∧ Derives (.name .program) (tokens ++ [last])

end Lox.Grammar
