import FlatIL.Command.Execute

/-!
# The command line program

Reads the source file and the standard input, carries out the command, and puts out
what it gives. An interactive session is worked on line by line as lines come in.
-/

namespace FlatIL.Command

/-- The text of a file, if it can be read. -/
def readFile (name : String) : IO (Except OpenError String) := do
  try
    return .ok (← IO.FS.readFile name)
  catch _ => return .error .absent

/-- Everything that is left on the standard input. -/
partial def readAll (stream : IO.FS.Stream) (done : String) : IO String := do
  let line ← stream.getLine
  if line.isEmpty then return done else readAll stream (done ++ line)

/-- Puts out what a command gives, and gives its exit code. -/
def emit (out : Output) : IO UInt32 := do
  let stdout ← IO.getStdout
  let stderr ← IO.getStderr
  stdout.putStr out.stdout
  stdout.flush
  stderr.putStr out.stderr
  match out.crash with
  | some mishap => stderr.putStr (mishap.message ++ "\n")
  | none => pure ()
  stderr.flush
  return out.exit.toUInt32

/-- The number of calls that a parser may have under way. -/
def callDepth : Nat := 1000

/-- Works on lines as they come in. -/
partial def interact (level : Level) (budget : Nat) (shared : Shared) : IO UInt32 := do
  let line ← (← IO.getStdin).getLine
  if line.isEmpty then emit (Output.print {} "\n")
  else
    let (shared, out) := Repl.feed callDepth level budget shared {} (readText line)
    if out.crash.isSome then emit out
    else
      let _ ← emit (out.print Repl.prompt)
      interact level budget shared

/-- Carries out a command with more and more patience. -/
partial def persist (request : Request) (settings : Settings) (patience : Nat) : IO UInt32 := do
  match carryOut request settings "" callDepth patience with
  | some out => emit out
  | none => persist request settings (4 * patience)

/-- Carries out the command line. -/
def carryOutLine (arguments : List String) : IO UInt32 := do
  let name :=
    match readRequest arguments with
    | .ok request => request.given.positional.head?.getD ""
    | .error _ => ""
  let stdin ← if name == "-" then readAll (← IO.getStdin) "" else pure ""
  let text ← if name.isEmpty || name == "-" then pure (.error .absent) else readFile name
  match prepare arguments stdin fun asked => if asked == name then text else .error .absent with
  | .error dismissal => emit dismissal.output
  | .ok (request, settings) =>
    match request.sub with
    | .repl =>
      match startRepl settings with
      | .error out => emit out
      | .ok shared =>
        let _ ← emit (Output.print {} Repl.prompt)
        let budget := settings.maxSteps.getD Repl.defaultBudget
        interact (threshold request.verbose) budget shared
    | _ => persist request settings 1000000

end FlatIL.Command

/-- The command line program. -/
def main (arguments : List String) : IO UInt32 :=
  FlatIL.Command.carryOutLine arguments
