import Lox.CommandLine
import Std.Time.DateTime.Timestamp

/-!
# The program

Reads files and input and writes what the commands come to.
-/

namespace Lox

/-- A clock that shows the present time. -/
def presentClock : IO Native := do
  let now ← Std.Time.Timestamp.now
  let micros := now.toNanosecondsSinceUnixEpoch.val / 1000
  return Native.clock (Float.ofInt micros / 1000000)

/-- Reads a file. A fault in opening it gives its name, a fault in reading it does not. -/
def readFile (file : String) : IO Content := do
  try return .bytes (← IO.FS.readBinFile file).toList
  catch
    | .inappropriateType none .. => return .directory
    | .inappropriateType (some _) .. => return .behindFile
    | .invalidArgument .. => return .nameTooLong
    | _ => return .missing

/-- Runs lines of input as they come. -/
partial def prompt (s : Session) : IO UInt32 := do
  let stdout ← IO.getStdout
  stdout.putStr "> "
  stdout.flush
  let line ← (← IO.getStdin).getLine
  if line.isEmpty then
    stdout.putStr "\n"
    return 0
  else
    match s.promptLine Session.ampleFuel line with
    | none => return 70
    | some (output, errors, s) =>
      stdout.putStr output
      IO.eprint errors
      prompt s

def perform (arguments : List String) : IO UInt32 := do
  match Command.ofArguments? arguments with
  | none =>
    IO.eprint refusal.errors
    return UInt32.ofNat refusal.exitCode
  | some .prompt => prompt (.new (← presentClock))
  | some command =>
    let content ← match command.file? with
      | some file => readFile file
      | none => pure .missing
    match command.outcome Session.ampleFuel (← presentClock) content "" with
    | none => return 70
    | some outcome =>
      IO.print outcome.output
      IO.eprint outcome.errors
      return UInt32.ofNat outcome.exitCode

end Lox

def main (arguments : List String) : IO UInt32 := Lox.perform arguments
