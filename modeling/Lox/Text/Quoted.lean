import Lox.Text.Shapeless

/-!
# Quoted text

Two ways of putting text between double quotes. JSON escapes the quote, the backslash and the
control characters below U+0020, and leaves all else as it is. A name in a message is quoted for
reading: there every character without a shape of its own is written by its code point.
-/

namespace Lox.Text

/-- The digits of a number to the base sixteen, in lower case. -/
def hexadecimal (n : Nat) : List Char := Nat.toDigits 16 n

/-- A character within a JSON string. -/
def jsonChar (c : Char) : List Char :=
  if c = '"' then ['\\', '"']
  else if c = '\\' then ['\\', '\\']
  else if c = '\n' then ['\\', 'n']
  else if c = '\r' then ['\\', 'r']
  else if c = '\t' then ['\\', 't']
  else if c = '\x08' then ['\\', 'b']
  else if c = '\x0c' then ['\\', 'f']
  else if c.toNat < 0x20 then
    ['\\', 'u', '0', '0'] ++ (if c.toNat < 0x10 then ['0'] else []) ++ hexadecimal c.toNat
  else [c]

/-- A JSON string. -/
def jsonString (text : String) : String :=
  String.ofList ('"' :: text.toList.flatMap jsonChar ++ ['"'])

/-- A character within a quoted name. -/
def nameChar (c : Char) : List Char :=
  if c = '"' then ['\\', '"']
  else if c = '\\' then ['\\', '\\']
  else if c = '\n' then ['\\', 'n']
  else if c = '\r' then ['\\', 'r']
  else if c = '\t' then ['\\', 't']
  else if c.toNat = 0 then ['\\', '0']
  else if isShapeless c then
    ['\\', 'u', '\x7b'] ++ hexadecimal c.toNat ++ ['\x7d']
  else [c]

/-- A name between quotes. -/
def quotedName (name : String) : String :=
  String.ofList ('"' :: name.toList.flatMap nameChar ++ ['"'])

end Lox.Text
