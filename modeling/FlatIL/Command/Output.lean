import FlatIL.Command.Log
import FlatIL.Parser.Cursor

/-!
# What a command puts out

A command writes to two channels and ends with an exit code. It may also end with an
error that it does not handle; what it has put out until then stays.
-/

namespace FlatIL.Command

/-- What has been put out, and how the command ends. -/
structure Output where
  stdout : String := ""
  stderr : String := ""
  exit : Nat := 0
  /-- What the command did not expect and what ended it. -/
  crash : Option Cursor.Mishap := none

namespace Output

/-- Puts out a text. -/
def print (out : Output) (text : String) : Output :=
  { out with stdout := out.stdout ++ text }

/-- Puts out a line of errors. -/
def complain (out : Output) (message : String) : Output :=
  { out with stderr := out.stderr ++ "Error: " ++ message ++ "\n" }

/-- Puts out the records of events. -/
def log (out : Output) (threshold : Level) (events : List Event) : Output :=
  { out with stderr := out.stderr ++ logText threshold events }

/-- Ends with an exit code. -/
def leave (out : Output) (code : Nat) : Output :=
  { out with exit := code }

/-- Ends with something that was not expected. -/
def abort (out : Output) (mishap : Cursor.Mishap) : Output :=
  { out with exit := 1, crash := some mishap }

end Output

/-- An ordinary mistake in a source text, which every command reports. Too long a run of digits is
not one, nor is anything that is no refusal. -/
def ordinary? : Cursor.Mishap → Option ParseError
  | .refused error => if error.location?.isSome then some error else none
  | _ => none

/-- A text with every kind of line end as a line feed. -/
def unifyLines : List Char → List Char
  | '\r' :: '\n' :: cs => '\n' :: unifyLines cs
  | '\r' :: cs => '\n' :: unifyLines cs
  | c :: cs => c :: unifyLines cs
  | [] => []

/-- A text as it is read from a file or from the standard input. -/
def readText (text : String) : String :=
  String.ofList (unifyLines text.toList)

end FlatIL.Command
