/-!
# Tokens

A token is a kind, the text it was cut from and the line on which that text ends. Strings and
numbers carry the value they stand for in their kind; a token made by hand may carry any value,
whatever its text.
-/

namespace Lox

/-- The kinds of tokens. -/
inductive Token.Kind
  | leftParen | rightParen | leftBrace | rightBrace
  | comma | dot | minus | plus | semicolon | slash | star
  | bang | bangEqual | equal | equalEqual | greater | greaterEqual | less | lessEqual
  | identifier
  | string (text : String)
  | number (value : Float)
  | kwAnd | kwClass | kwElse | kwFalse | kwFun | kwFor | kwIf | kwNil
  | kwOr | kwPrint | kwReturn | kwSuper | kwThis | kwTrue | kwVar | kwWhile
  | eof
deriving DecidableEq, Inhabited

structure Token where
  kind : Token.Kind
  lexeme : String
  line : Nat
deriving DecidableEq, Inhabited

namespace Token

namespace Kind

/-- The reserved words. -/
def keywords : List (String × Kind) := [
  ("and", kwAnd), ("class", kwClass), ("else", kwElse), ("false", kwFalse),
  ("fun", kwFun), ("for", kwFor), ("if", kwIf), ("nil", kwNil),
  ("or", kwOr), ("print", kwPrint), ("return", kwReturn), ("super", kwSuper),
  ("this", kwThis), ("true", kwTrue), ("var", kwVar), ("while", kwWhile)]

/-- The kind of a word: a reserved word has its own, every other word is an identifier. -/
def ofWord (word : String) : Kind := (keywords.lookup word).getD identifier

/-- The name of a kind, without the value it carries. -/
def name : Kind → String
  | leftParen => "LEFT_PAREN"
  | rightParen => "RIGHT_PAREN"
  | leftBrace => "LEFT_BRACE"
  | rightBrace => "RIGHT_BRACE"
  | comma => "COMMA"
  | dot => "DOT"
  | minus => "MINUS"
  | plus => "PLUS"
  | semicolon => "SEMICOLON"
  | slash => "SLASH"
  | star => "STAR"
  | bang => "BANG"
  | bangEqual => "BANG_EQUAL"
  | equal => "EQUAL"
  | equalEqual => "EQUAL_EQUAL"
  | greater => "GREATER"
  | greaterEqual => "GREATER_EQUAL"
  | less => "LESS"
  | lessEqual => "LESS_EQUAL"
  | identifier => "IDENTIFIER"
  | string _ => "STRING"
  | number _ => "NUMBER"
  | kwAnd => "AND"
  | kwClass => "CLASS"
  | kwElse => "ELSE"
  | kwFalse => "FALSE"
  | kwFun => "FUN"
  | kwFor => "FOR"
  | kwIf => "IF"
  | kwNil => "NIL"
  | kwOr => "OR"
  | kwPrint => "PRINT"
  | kwReturn => "RETURN"
  | kwSuper => "SUPER"
  | kwThis => "THIS"
  | kwTrue => "TRUE"
  | kwVar => "VAR"
  | kwWhile => "WHILE"
  | eof => "EOF"

/-- Are two kinds the same, apart from the values they carry? -/
def same (a b : Kind) : Bool := a.ctorIdx == b.ctorIdx

/-- The words that begin a statement. After a fault the parser goes on at one of them. -/
def beginsStatement : Kind → Bool
  | kwClass | kwFun | kwVar | kwFor | kwIf | kwWhile | kwPrint | kwReturn => true
  | _ => false

end Kind

/-- Tokens agree in the name of their kind, their text and their line; values are not looked at. -/
def agrees (a b : Token) : Bool := a.kind.same b.kind && a.lexeme == b.lexeme && a.line == b.line

/-- The place of a token in a message: the end of the source has no text to quote. -/
def place (t : Token) : String :=
  if t.kind = .eof then " at end" else s!" at '{t.lexeme}'"

end Token

end Lox
