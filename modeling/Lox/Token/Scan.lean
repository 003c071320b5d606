import Lox.Number.Nearest
import Lox.Text.Letters
import Lox.Token

/-!
# Cutting a source into tokens

The source is cut into slices, each the longest piece of its class that begins where the last one
ended: a blank, a comment, a token, or something that is none of these. Nothing is left out, so
the slices put together are the source, and the line of a token is one more than the number of
line ends up to the end of its slice.

A character that begins nothing is a fault by itself. A quote without a partner is a fault that
takes the rest of the source with it.
-/

namespace Lox.Token

/-- What can be wrong with a slice. -/
inductive LexicalCause
  | unexpectedCharacter
  | unterminatedString
deriving DecidableEq, Repr

def LexicalCause.message : LexicalCause → String
  | unexpectedCharacter => "Unexpected character."
  | unterminatedString => "Unterminated string."

/-- A fault in the text, and the line on which its slice ends. -/
structure LexicalFault where
  cause : LexicalCause
  line : Nat
deriving DecidableEq, Repr

/-- What a slice stands for. -/
inductive Role
  | blank
  | token (kind : Kind)
  | fault (cause : LexicalCause)
deriving DecidableEq

/-- A piece of the source. -/
structure Slice where
  text : List Char
  role : Role
deriving DecidableEq

/-- The characters that separate tokens. -/
def isBlank (c : Char) : Bool := c == ' ' || c == '\r' || c == '\t' || c == '\n'

/-- A word begins with a letter or an underscore. -/
def beginsWord (c : Char) : Bool := Text.isLetter c || c == '_'

/-- A word goes on with letters, digits and underscores. -/
def continuesWord (c : Char) : Bool := Text.isLetter c || Text.isNumeric c || c == '_'

/-- The tokens of one character. -/
def single? : Char → Option Kind
  | '(' => some .leftParen
  | ')' => some .rightParen
  | '{' => some .leftBrace
  | '}' => some .rightBrace
  | ',' => some .comma
  | '.' => some .dot
  | '-' => some .minus
  | '+' => some .plus
  | ';' => some .semicolon
  | '*' => some .star
  | '/' => some .slash
  | '!' => some .bang
  | '=' => some .equal
  | '>' => some .greater
  | '<' => some .less
  | _ => none

/-- The tokens of a character and an equals sign after it. -/
def withEqual? : Char → Option Kind
  | '!' => some .bangEqual
  | '=' => some .equalEqual
  | '>' => some .greaterEqual
  | '<' => some .lessEqual
  | _ => none

/-- A slice and what follows it. -/
abbrev Cut := Slice × List Char

/-- Cuts a comment, which ends before the end of the line. -/
def cutComment (rest : List Char) : Cut :=
  (⟨'/' :: '/' :: rest.takeWhile (· != '\n'), .blank⟩, rest.dropWhile (· != '\n'))

/-- Cuts a string after its opening quote. -/
def cutString (rest : List Char) : Cut :=
  let body := rest.takeWhile (· != '"')
  match rest.dropWhile (· != '"') with
  | quote :: after => (⟨'"' :: body ++ [quote], .token (.string (String.ofList body))⟩, after)
  | [] => (⟨'"' :: body, .fault .unterminatedString⟩, [])

/-- Cuts a numeral. A point belongs to it only if a digit follows. -/
def cutNumeral (first : Char) (rest : List Char) : Cut :=
  let whole := first :: rest.takeWhile Char.isDigit
  match rest.dropWhile Char.isDigit with
  | '.' :: digit :: after =>
    if digit.isDigit then
      let fraction := digit :: after.takeWhile Char.isDigit
      (⟨whole ++ '.' :: fraction, .token (.number (Number.ofNumeral whole fraction))⟩,
        after.dropWhile Char.isDigit)
    else (⟨whole, .token (.number (Number.ofNumeral whole []))⟩, '.' :: digit :: after)
  | after => (⟨whole, .token (.number (Number.ofNumeral whole []))⟩, after)

/-- Cuts a word. -/
def cutWord (first : Char) (rest : List Char) : Cut :=
  let word := first :: rest.takeWhile continuesWord
  (⟨word, .token (.ofWord (String.ofList word))⟩, rest.dropWhile continuesWord)

/-- Cuts an operator or a bracket, with the equals sign after it if the two belong together. -/
def cutSymbol (first : Char) (rest : List Char) : Cut :=
  match withEqual? first, rest with
  | some kind, '=' :: after => (⟨[first, '='], .token kind⟩, after)
  | _, _ =>
    match single? first with
    | some kind => (⟨[first], .token kind⟩, rest)
    | none => (⟨[first], .fault .unexpectedCharacter⟩, rest)

/-- Cuts the first slice off a source that begins with `first`. -/
def cut (first : Char) (rest : List Char) : Cut :=
  if isBlank first then (⟨[first], .blank⟩, rest)
  else if first = '/' ∧ rest.head? = some '/' then cutComment rest.tail
  else if first = '"' then cutString rest
  else if first.isDigit then cutNumeral first rest
  else if beginsWord first then cutWord first rest
  else cutSymbol first rest

/-- A cut takes the source apart without loss. -/
theorem cut_append (first : Char) (rest : List Char) :
    (cut first rest).1.text ++ (cut first rest).2 = first :: rest := by
  unfold cut
  split
  · rfl
  split
  · next h =>
    obtain ⟨rfl, h⟩ := h
    cases rest with
    | nil => simp at h
    | cons c rest =>
      simp only [List.head?_cons, Option.some.injEq] at h
      simp [cutComment, h, List.takeWhile_append_dropWhile]
  split
  · next h =>
    have whole := List.takeWhile_append_dropWhile (p := (· != '"')) (l := rest)
    unfold cutString
    dsimp only
    split
    · next heq => rw [heq] at whole; simpa [h] using whole
    · next heq => rw [heq] at whole; simpa [h] using whole
  split
  · have whole := List.takeWhile_append_dropWhile (p := Char.isDigit) (l := rest)
    unfold cutNumeral
    dsimp only
    split
    · next heq =>
      rw [heq] at whole
      split
      · simpa [List.takeWhile_append_dropWhile] using whole
      · simpa using whole
    · simp [whole]
  split
  · simp [cutWord, List.takeWhile_append_dropWhile]
  · unfold cutSymbol
    split
    · rfl
    · split <;> rfl

/-- A slice takes at least its first character. -/
theorem length_cut_lt (first : Char) (rest : List Char) :
    (cut first rest).2.length < (first :: rest).length := by
  have whole := congrArg List.length (cut_append first rest)
  have nonempty : (cut first rest).1.text ≠ [] := by
    unfold cut cutComment cutString cutNumeral cutWord cutSymbol
    grind
  have := List.length_pos_iff.2 nonempty
  simp only [List.length_append] at whole
  omega

/-- All slices of a source. -/
def slices : List Char → List Slice
  | [] => []
  | first :: rest => (cut first rest).1 :: slices (cut first rest).2
termination_by source => source.length
decreasing_by exact length_cut_lt first rest

/-- What scanning finds, in order: tokens, and faults in place of tokens. -/
abbrev Scanned := Except LexicalFault Token

/-- Numbers the lines of slices, leaves out the blank ones and puts the end of the source after
the last. -/
def ofSlices (line : Nat) : List Slice → List Scanned
  | [] => [.ok ⟨.eof, "", line⟩]
  | slice :: rest =>
    let line := line + slice.text.count '\n'
    match slice.role with
    | .blank => ofSlices line rest
    | .token kind => .ok ⟨kind, String.ofList slice.text, line⟩ :: ofSlices line rest
    | .fault cause => .error ⟨cause, line⟩ :: ofSlices line rest

/-- Scans a source. -/
def scan (source : String) : List Scanned := ofSlices 1 (slices source.toList)

/-- The tokens among what scanning found. -/
def tokens (found : List Scanned) : List Token := found.filterMap Except.toOption

/-- The faults among what scanning found. -/
def faults (found : List Scanned) : List LexicalFault :=
  found.filterMap fun
    | .error fault => some fault
    | .ok _ => none

end Lox.Token
