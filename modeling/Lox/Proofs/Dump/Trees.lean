import Lox.Proofs.Dump.Bracketed
import Lox.Proofs.Parser.WellFormed
import Lox.Proofs.Parser.Writing
import Lox.Tree.Dump

/-!
# The dump as words in parentheses

The dump of a tree is the text of a tree of words: one for the name of each construct, one for
each token that the tree keeps and shows, and one for each constant. What the words do not tell
is where the tokens stood and how the nodes are numbered, and whether a value was left out or was
written as `nil`. Without these two things a tree is its essence.
-/

namespace Lox

open Parse

/-! ## Words -/

/-- The token, but for the line it is on. -/
def Token.placeless (t : Token) : Token := { t with line := 0 }

/-- The constructs that the dump names. -/
inductive Construct
  | group | assign | call
  | expression | print | var | block | ifThen | whileLoop | function | ret
deriving DecidableEq

namespace Construct

def name : Construct → String
  | group => "group"
  | assign => "assign"
  | call => "call"
  | expression => "expr"
  | print => "print"
  | var => "vardecl"
  | block => "block"
  | ifThen => "if"
  | whileLoop => "while"
  | function => "fun"
  | ret => "return"

/-- The name as a word. Some of the names are reserved words of the language. -/
def token (c : Construct) : Token := ⟨.ofWord c.name, c.name, 0⟩

end Construct

/-- A constant as a word. -/
def Literal.token (value : Literal) : Token := ⟨value.kind, value.dump, 0⟩

/-! ## Trees of words -/

open Bracketed (word list)

mutual

def Expr.bracketed : Expr → Bracketed
  | .literal value => word value.token
  | .group inner => list [word Construct.group.token, inner.bracketed]
  | .unary operator operand => list [word operator.placeless, operand.bracketed]
  | .binary left operator right | .logical left operator right =>
    list [word operator.placeless, left.bracketed, right.bracketed]
  | .variable _ name => word name.placeless
  | .assign _ name value =>
    list [word Construct.assign.token, word name.placeless, value.bracketed]
  | .call callee _ arguments =>
    list (word Construct.call.token :: callee.bracketed :: Expr.bracketedAll arguments)

def Expr.bracketedAll : List Expr → List Bracketed
  | [] => []
  | e :: rest => e.bracketed :: Expr.bracketedAll rest

end

/-- An absent part is the constant. -/
def Expr.bracketedOptional : Option Expr → Bracketed
  | none => word Literal.nil.token
  | some e => e.bracketed

mutual

def Stmt.bracketed : Stmt → Bracketed
  | .expression value => list [word Construct.expression.token, value.bracketed]
  | .print value => list [word Construct.print.token, value.bracketed]
  | .var name initializer =>
    list [word Construct.var.token, word name.placeless, Expr.bracketedOptional initializer]
  | .block body => list (word Construct.block.token :: Stmt.bracketedAll body)
  | .ifThen condition thenBranch elseBranch =>
    list [word Construct.ifThen.token, condition.bracketed, thenBranch.bracketed,
      Stmt.bracketedOptional elseBranch]
  | .whileLoop condition body =>
    list [word Construct.whileLoop.token, condition.bracketed, body.bracketed]
  | .forLoop initializer condition increment body =>
    let round := match increment with
      | none => body.bracketed
      | some increment => list [word Construct.block.token, body.bracketed,
          list [word Construct.expression.token, increment.bracketed]]
    let condition := match condition with
      | none => word (Literal.bool true).token
      | some condition => condition.bracketed
    let loop := list [word Construct.whileLoop.token, condition, round]
    match initializer with
    | none => loop
    | some initializer => list [word Construct.block.token, initializer.bracketed, loop]
  | .function name params body =>
    list (word Construct.function.token :: word name.placeless ::
      list (params.map fun t => word t.placeless) :: Stmt.bracketedAll body)
  | .ret _ value => list [word Construct.ret.token, Expr.bracketedOptional value]

def Stmt.bracketedAll : List Stmt → List Bracketed
  | [] => []
  | s :: rest => s.bracketed :: Stmt.bracketedAll rest

def Stmt.bracketedOptional : Option Stmt → Bracketed
  | none => word Literal.nil.token
  | some s => s.bracketed

end

/-! ## Their texts -/

namespace Bracketed

theorem restText_eq (x : Bracketed) (rest : List Bracketed) :
    x.text ++ restText rest = [' '].intercalate ((x :: rest).map text) ++ [')'] := by
  induction rest generalizing x with
  | nil => simp [restText]
  | cons y rest ih =>
      rw [restText, ih y]
      simp [List.intercalate_cons_cons]

@[simp] theorem text_list (parts : List Bracketed) :
    (list parts).text = '(' :: ([' '].intercalate (parts.map text) ++ [')']) := by
  cases parts with
  | nil => rfl
  | cons x rest => rw [text, restText_eq]

@[simp] theorem text_word (t : Token) : (word t).text = t.lexeme.toList := by rw [text]

end Bracketed

@[simp] theorem toList_parenthesized (head : String) (parts : List String) :
    (parenthesized head parts).toList =
      '(' :: ([' '].intercalate (head.toList :: parts.map String.toList) ++ [')']) := by
  rw [parenthesized, String.toList_append, String.toList_append, String.toList_intercalate]
  rfl

@[simp] theorem Token.lexeme_placeless (t : Token) : t.placeless.lexeme = t.lexeme := rfl

@[simp] theorem Construct.lexeme_token (c : Construct) : c.token.lexeme = c.name := rfl

@[simp] theorem Literal.lexeme_token (value : Literal) : value.token.lexeme = value.dump := rfl

mutual

/-- The dump of a tree is the text of its words. -/
theorem Expr.toList_dump (e : Expr) : e.dump.toList = e.bracketed.text := by
  match e with
  | .literal _ | .variable _ _ => simp [dump, bracketed]
  | .group inner => simp [dump, bracketed, Construct.name, toList_dump inner]
  | .unary _ operand => simp [dump, bracketed, toList_dump operand]
  | .binary left _ right | .logical left _ right =>
      simp [dump, bracketed, toList_dump left, toList_dump right]
  | .assign _ _ value => simp [dump, bracketed, Construct.name, toList_dump value]
  | .call callee _ arguments =>
      simp [dump, bracketed, Construct.name, toList_dump callee, map_toList_dumpAll arguments]

theorem Expr.map_toList_dumpAll (es : List Expr) :
    (dumpAll es).map String.toList = (bracketedAll es).map Bracketed.text := by
  match es with
  | [] => rfl
  | e :: rest => simp [dumpAll, bracketedAll, toList_dump e, map_toList_dumpAll rest]

end

theorem Expr.toList_dumpOptional (o : Option Expr) :
    (dumpOptional o).toList = (bracketedOptional o).text := by
  cases o with
  | none => rfl
  | some e => exact e.toList_dump

mutual

theorem Stmt.toList_dump (s : Stmt) : s.dump.toList = s.bracketed.text := by
  match s with
  | .expression _ | .print _ => simp [dump, bracketed, Construct.name, Expr.toList_dump]
  | .var _ _ | .ret _ _ => simp [dump, bracketed, Construct.name, Expr.toList_dumpOptional]
  | .block body => simp [dump, bracketed, Construct.name, map_toList_dumpAll body]
  | .ifThen _ thenBranch elseBranch =>
      simp [dump, bracketed, Construct.name, Expr.toList_dump, toList_dump thenBranch,
        toList_dumpOptional elseBranch]
  | .whileLoop _ body =>
      simp [dump, bracketed, Construct.name, Expr.toList_dump, toList_dump body]
  | .forLoop initializer condition increment body =>
      match initializer, condition, increment with
      | none, none, none | none, none, some _ | none, some _, none | none, some _, some _ =>
          simp [dump, bracketed, Construct.name, Literal.dump, Expr.toList_dump, toList_dump body]
      | some first, none, none | some first, none, some _ | some first, some _, none
      | some first, some _, some _ =>
          simp [dump, bracketed, Construct.name, Literal.dump, Expr.toList_dump, toList_dump body,
            toList_dump first]
  | .function _ _ body =>
      simp [dump, bracketed, Construct.name, map_toList_dumpAll body, Function.comp_def]

theorem Stmt.map_toList_dumpAll (body : List Stmt) :
    (dumpAll body).map String.toList = (bracketedAll body).map Bracketed.text := by
  match body with
  | [] => rfl
  | s :: rest => simp [dumpAll, bracketedAll, toList_dump s, map_toList_dumpAll rest]

theorem Stmt.toList_dumpOptional (o : Option Stmt) :
    (dumpOptional o).toList = (bracketedOptional o).text := by
  match o with
  | none => rfl
  | some s => exact toList_dump s

end

end Lox
