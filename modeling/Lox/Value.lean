import Lox.Number.Text
import Lox.Tree

/-!
# Values

Functions are compared by where they come from, so each carries a number given out when it was
made. What a value shows of itself, its text among it, needs nothing but the value.
-/

namespace Lox

/-- A scope at run time. -/
abbrev ScopeId := Nat

/-- What a function declaration says. -/
structure Declaration where
  name : Token
  params : List Token
  body : List Stmt

inductive Value
  | nil
  | bool (value : Bool)
  | number (value : Float)
  | string (text : String)
  /-- A declared function and the scope in which its declaration was run. -/
  | function (serial : Nat) (declaration : Declaration) (closure : ScopeId)
  /-- A function that is not written in the language, by the number of its registration. -/
  | native (serial : Nat) (name : String) (arity : Nat)
deriving Inhabited

def Literal.value : Literal → Value
  | .nil => .nil
  | .bool value => .bool value
  | .number value => .number value
  | .string text => .string text

namespace Value

/-- Only `nil` and `false` count as false. -/
def truthy : Value → Bool
  | nil | bool false => false
  | _ => true

/-- Equality without conversions. Numbers compare as numbers do, so that NaN differs from itself and
the two zeros agree; functions are equal only to themselves. -/
def equals : Value → Value → Bool
  | nil, nil => true
  | bool a, bool b => a == b
  | number a, number b => a == b
  | string a, string b => a == b
  | function a _ _, function b _ _ => a == b
  | native a _ _, native b _ _ => a == b
  | _, _ => false

/-- The text that is printed for a value. -/
def text : Value → String
  | nil => "nil"
  | bool true => "true"
  | bool false => "false"
  | number value => Number.valueText value
  | string text => text
  | function _ declaration _ => s!"<fn {declaration.name.lexeme}>"
  | native _ _ _ => "<native fn>"

/-- The name of the type of a value. -/
def typeName : Value → String
  | nil => "nil"
  | bool _ => "boolean"
  | number _ => "number"
  | string _ => "string"
  | function _ _ _ | native _ _ _ => "callable"

/-- The name and the number of parameters of a value that can be called. -/
def signature? : Value → Option (String × Nat)
  | function _ declaration _ => some (declaration.name.lexeme, declaration.params.length)
  | native _ name arity => some (name, arity)
  | _ => none

end Value

end Lox
