import Lox.Number.Text
import Lox.Text.Quoted
import Lox.Token

/-!
# Tokens in writing

A token has a line in a listing, which shows its kind, its text and its value, and a JSON object,
in a compact and in an indented form.
-/

namespace Lox.Token

/-- The value of a token in a listing. -/
def Kind.valueText : Kind → String
  | .string text => text
  | .number value => Number.listingText value
  | _ => "null"

/-- A token as a line of a listing. -/
def text (t : Token) : String := s!"{t.kind.name} {t.lexeme} {t.kind.valueText}"

/-- The kind of a token in JSON: its name, or an object that gives the value under the name. The
marks around that one member depend on the form. -/
def Kind.json (opening colon closing : String) (kind : Kind) : String :=
  let tagged (value : String) := opening ++ Text.jsonString kind.name ++ colon ++ value ++ closing
  match kind with
  | .string text => tagged (Text.jsonString text)
  | .number value => tagged (Number.jsonText value)
  | _ => Text.jsonString kind.name

/-- A token as a JSON object without blanks. -/
def compactJson (t : Token) : String :=
  "\x7b\"token_type\":" ++ t.kind.json "\x7b" ":" "\x7d" ++
    ",\"lexeme\":" ++ Text.jsonString t.lexeme ++ ",\"line\":" ++ toString t.line ++ "\x7d"

/-- A token as an element of an indented JSON array. -/
def indentedJson (t : Token) : String :=
  "  \x7b\n    \"token_type\": " ++ t.kind.json "\x7b\n      " ": " "\n    \x7d" ++
    ",\n    \"lexeme\": " ++ Text.jsonString t.lexeme ++
    ",\n    \"line\": " ++ toString t.line ++ "\n  \x7d"

/-- A list of tokens as an indented JSON array. -/
def indentedJsonArray : List Token → String
  | [] => "[]"
  | tokens => "[\n" ++ String.intercalate ",\n" (tokens.map indentedJson) ++ "\n]"

end Lox.Token
