import Lox.Native
import Lox.Text.Quoted

/-!
# A library of native functions

Functions that look at values from outside the language, and some that fail on purpose.
-/

namespace Lox.Native

/-- Twice a number. -/
def double : Native where
  name := "double"
  arity := 1
  apply
    | [.number value] => .ok (.number (value * 2))
    | _ => .error "Argument must be a number."

/-- Always fails. -/
def boom : Native where
  name := "boom"
  arity := 0
  apply := fun _ => .error "Boom."

/-- Fails on a true argument, and gives a false one back. -/
def failIf : Native where
  name := "fail_if"
  arity := 1
  apply
    | [value] => if value.truthy then .error s!"Failed: {value.text}" else .ok value
    | _ => .ok .nil

/-- The name of the type of a value. -/
def typeOf : Native where
  name := "type_of"
  arity := 1
  apply
    | [value] => .ok (.string value.typeName)
    | _ => .ok .nil

/-- The text of a value. -/
def str : Native where
  name := "str"
  arity := 1
  apply
    | [value] => .ok (.string value.text)
    | _ => .ok .nil

/-- Equality as a function. -/
def same : Native where
  name := "same"
  arity := 2
  apply
    | [a, b] => .ok (.bool (a.equals b))
    | _ => .ok .nil

/-- The texts of three values with bars between them. -/
def join3 : Native where
  name := "join3"
  arity := 3
  apply := fun values => .ok (.string (String.intercalate "|" (values.map Value.text)))

/-- The name of a function. -/
def nameOf : Native where
  name := "name_of"
  arity := 1
  apply
    | [value] =>
      match value.signature? with
      | some (name, _) => .ok (.string name)
      | none => .error "Not callable."
    | _ => .ok .nil

/-- The number of parameters of a function. -/
def arityOf : Native where
  name := "arity_of"
  arity := 1
  apply
    | [value] =>
      match value.signature? with
      | some (_, arity) => .ok (.number (Float.ofNat arity))
      | none => .error "Not callable."
    | _ => .ok .nil

/-- A description of a declared function. -/
def debugOf : Native where
  name := "debug_of"
  arity := 1
  apply
    | [.function _ declaration _] =>
      let name := Text.quotedName declaration.name.lexeme
      let arity := toString declaration.params.length
      .ok (.string ("LoxFunction \x7b name: " ++ name ++ ", arity: " ++ arity ++ " \x7d"))
    | _ => .error "Not a declared function."

/-- The function under a key. The key is its name, except for a clock that stands still. -/
def ofKey? (clock : Native) : String → Option Native
  | "double" => some double
  | "boom" => some boom
  | "fail_if" => some failIf
  | "type_of" => some typeOf
  | "str" => some str
  | "same" => some same
  | "join3" => some join3
  | "name_of" => some nameOf
  | "arity_of" => some arityOf
  | "debug_of" => some debugOf
  | "fixed_clock" => some (Native.clock 1234.5)
  | "clock" => some clock
  | _ => none

end Lox.Native
