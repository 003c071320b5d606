import Lox.Session
import Lox.Token.Text
import Lox.Tree.Dump

/-!
# The command line

What a command does with the content of its file, or with the lines of its input, is a function: it
gives the exit code and what is to be written to the two outputs. Reading and writing are left to
the program.
-/

namespace Lox

/-- What a command comes to. -/
structure Outcome where
  exitCode : Nat
  output : String
  errors : String

/-- What comes of reading a file. -/
inductive Content
  | bytes (bytes : List UInt8)
  | missing
  | directory
  /-- The path goes on behind a file, as if that file were a directory. -/
  | behindFile
  | nameTooLong

inductive Command
  | run (file : String)
  | tokenize (file : String) (json : Bool)
  | parse (file : String)
  | prompt
  | version

namespace Command

/-- A word that is a switch wherever switches may stand. A lone dash is the name of a file. -/
def isSwitch (word : String) : Bool := word.startsWith "-" && word != "-"

/-- The switches among words, and the other words. Two dashes alone are neither: no word after them
is a switch. -/
def splitWords : List String → List String × List String
  | [] => ([], [])
  | word :: words =>
    if word = "--" then ([], words)
    else
      let (switches, others) := splitWords words
      if isSwitch word then (word :: switches, others) else (switches, word :: others)

/-- Reads the words after the name of a command. The switch that asks for a log goes with every
command, and no file has an empty name. -/
def ofWords? (name : String) (words : List String) : Option Command :=
  let (switches, others) := splitWords words
  match name, switches.erase "--log", others with
  | _, _, [""] => none
  | "repl", [], [] => some .prompt
  | "run", [], [file] => some (.run file)
  | "parse", [], [file] => some (.parse file)
  | "tokenize", [], [file] => some (.tokenize file false)
  | "tokenize", ["--json"], [file] => some (.tokenize file true)
  | _, _, _ => none

/-- Does a word ask for the version? Switches of one letter may stand together behind one dash and
are read from left to right; once the letter for the version has been read, no other counts. -/
def asksVersion (word : String) : Bool := word == "--version" || word.startsWith "-V"

/-- Reads the arguments. The switch that asks for a log may stand before the command too. -/
def ofArguments? (arguments : List String) : Option Command :=
  match if arguments.head? = some "--log" then arguments.tail else arguments with
  | [] | ["--"] => some .prompt
  | word :: words => if asksVersion word then some .version else ofWords? word words

/-- The file that a command reads. -/
def file? : Command → Option String
  | run file | tokenize file _ | parse file => some file
  | prompt | version => none

end Command

/-- Text as lines, each with its end. -/
def linesOf : List Char → List (List Char)
  | [] => []
  | c :: rest =>
    if c = '\n' then [c] :: linesOf rest
    else match linesOf rest with
      | [] => [[c]]
      | line :: lines => (c :: line) :: lines

/-- Diagnostics, each on a line of its own. -/
def reportText (diagnostics : List Diagnostic) : String :=
  String.join (diagnostics.map fun d => d.text ++ "\n")

namespace Session

/-- Runs one line of input, and gives what it printed and what is to be reported. Nothing of what is
reported is held for the next line. -/
def promptLine (fuel : Nat) (s : Session) (line : String) : Option (String × String × Session) := do
  let (_, s) ← s.run fuel line
  let (output, s) := s.takeOutput
  let (diagnostics, s) := s.takeDiagnostics
  return (output, reportText diagnostics, s)

/-- Runs lines of input one after the other, with a prompt before each and one at the end. -/
def promptLines (fuel : Nat) (s : Session) : List String → Option Outcome
  | [] => some ⟨0, "> \n", ""⟩
  | line :: lines => do
    let (output, errors, s) ← s.promptLine fuel line
    let rest ← s.promptLines fuel lines
    return { rest with output := "> " ++ output ++ rest.output, errors := errors ++ rest.errors }

/-- Runs a source. -/
def runSource (fuel : Nat) (s : Session) (source : String) : Option Outcome := do
  let (status, s) ← s.run fuel source
  return ⟨status.exitCode, s.takeOutput.1, reportText s.takeDiagnostics.1⟩

/-- Lists the tokens of a source. -/
def listTokens (s : Session) (source : String) (json : Bool) : Outcome :=
  let (tokens, s) := s.tokenize source
  let listing :=
    if json then Token.indentedJsonArray tokens ++ "\n"
    else String.join (tokens.map fun t => t.text ++ "\n")
  let status := if s.log.hadError then Status.compileError else Status.ok
  ⟨status.exitCode, listing, reportText s.takeDiagnostics.1⟩

/-- Dumps the tree of a source, if there is nothing to report. -/
def dumpTree (s : Session) (source : String) : Outcome :=
  let (program, s) := s.parse source
  if s.log.hadError then
    ⟨Status.compileError.exitCode, "", reportText s.takeDiagnostics.1⟩
  else
    ⟨Status.ok.exitCode, String.join ((Stmt.dumpAll program).map (· ++ "\n")), ""⟩

end Session

/-- The outcome if the arguments make no command. -/
def refusal : Outcome := ⟨2, "", "error: unexpected arguments\n"⟩

/-- The outcome if a file cannot be had. -/
def fileOutcome (action file reason : String) : Outcome where
  exitCode := 1
  output := ""
  errors :=
    s!"Error: Failed to {action} file " ++ Text.quotedName file ++
      "\n\nCaused by:\n    " ++ reason ++ "\n"

namespace Command

/-- What a command comes to, given the content of its file, if it reads one, and its input. A
directory can be opened but not read. -/
def outcome (fuel : Nat) (clock : Native) (command : Command) (content : Content)
    (input : String) : Option Outcome :=
  let session := Session.new clock
  let withSource (file : String) (act : String → Option Outcome) : Option Outcome :=
    match content with
    | .missing => some (fileOutcome "open" file "No such file or directory (os error 2)")
    | .behindFile => some (fileOutcome "open" file "Not a directory (os error 20)")
    | .nameTooLong => some (fileOutcome "open" file "File name too long (os error 36)")
    | .directory => some (fileOutcome "read" file "Is a directory (os error 21)")
    | .bytes bytes =>
      match Text.decodeUtf8 bytes with
      | .error _ => some (fileOutcome "read" file "stream did not contain valid UTF-8")
      | .ok source => act source
  match command with
  | run file => withSource file (session.runSource fuel)
  | tokenize file json => withSource file fun source => some (session.listTokens source json)
  | parse file => withSource file fun source => some (session.dumpTree source)
  | prompt => session.promptLines fuel ((linesOf input.toList).map String.ofList)
  | version => some ⟨0, "rox 0.1.0\n", ""⟩

end Command

end Lox
