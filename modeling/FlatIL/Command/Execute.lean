import FlatIL.Command.Arguments
import FlatIL.Command.Repl
import FlatIL.Render

/-!
# Carrying out a command

`run` runs a program and shows its last state, `fmt` writes a program in its
canonical form, and `repl` runs lines as they come. A run without a step budget need
not end: a command that needs more steps than are looked ahead gives nothing, and is
to be carried out again with more patience.
-/

namespace FlatIL.Command

/-- Below this level nothing is logged. -/
def threshold (verbose : Bool) : Level :=
  if verbose then .debug else .warning

/-- The last state of a run, line by line. -/
def stateLines (s : State) : String :=
  let ending :=
    match s.fault with
    | some fault => Repl.faultLine s fault
    | none => ""
  "status: " ++ s.status.name ++ "\n" ++ ending ++ "pc: " ++ Decimal.ofInt s.pc ++ "\nsteps: "
    ++ Decimal.ofNat s.steps ++ "\n"
    ++ String.join (s.sortedEnv.map fun (name, value) => "  " ++ Repl.bindingLine name value)
    ++ String.join (s.sortedMemory.map fun (address, value) =>
      "  " ++ Repl.cellLine address value)

/-- The exit code that tells how a run ended. -/
def exitCode (s : State) : Nat :=
  match s.status with
  | .succeeded => 0
  | .failed => 1
  | .running => 2

/-- The seeds that the input options give. -/
def seedsOf (settings : Settings) : Seeds :=
  { inputs := settings.inputs.map fun (name, values) => (name, values.map Json.int) }

/-- Runs a program on its inputs and shows the last state. -/
def runProgram (level : Level) (settings : Settings) (source : SourceFile)
    (depth patience : Nat) : Option Output :=
  match Program.parseWithin depth (readText source.text) with
  | .error (.refused error) => some ((Output.complain {} error.message).leave 1)
  | .error mishap => some (Output.abort {} mishap)
  | .ok p =>
    let out : Output := Output.log {} level [.parsed p.size]
    match (seedsOf settings).start with
    | .error error => some ((out.complain error.message).leave 1)
    | .ok start =>
      (p.run (settings.maxSteps.map Int.ofNat) patience start).map fun
        | .error error => (out.complain error.message).leave 1
        | .ok s =>
          let events := runEvents level p settings.maxSteps patience start
          let out := out.log level (.loaded p.size source.name :: events)
          let shown := if settings.json then s.snapshot.indented 0 ++ "\n" else stateLines s
          (out.print shown).leave (exitCode s)

/-- Writes a program in its canonical form. -/
def formatProgram (level : Level) (source : SourceFile) (depth : Nat) : Output :=
  match Program.parseWithin depth (readText source.text) with
  | .error mishap =>
    match ordinary? mishap with
    | some error => (Output.complain {} error.message).leave 1
    | none => Output.abort {} mishap
  | .ok p =>
    let out : Output := Output.log {} level [.parsed p.size]
    match p.render with
    | .ok text => out.print text
    | .error error => (out.complain error.message).leave 1

/-- What a session shares at its start, or the refusal of its inputs. -/
def startRepl (settings : Settings) : Except Output Shared :=
  match (seedsOf settings).start with
  | .error error => .error ((Output.complain {} error.message).leave 1)
  | .ok start => .ok (.ofState start)

/-- Carries out a subcommand; a parser may have `depth` calls under way. -/
def carryOut (request : Request) (settings : Settings) (stdin : String) (depth patience : Nat) :
    Option Output :=
  let level := threshold request.verbose
  let source := settings.source.getD { name := "", text := "" }
  match request.sub with
  | .run => runProgram level settings source depth patience
  | .fmt => some (formatProgram level source depth)
  | .repl =>
    match startRepl settings with
    | .error out => some out
    | .ok shared =>
      let budget := settings.maxSteps.getD Repl.defaultBudget
      some (Repl.session depth level budget shared (readText stdin))

/-- What is put out instead of work. -/
def Dismissal.output : Dismissal → Output
  | help scope => { stdout := usageLine scope }
  | refused scope error => { stderr := usageReport scope error, exit := 2 }

/-- Checks a command line, or says why it asks for no work. -/
def prepare (arguments : List String) (stdin : String) (files : Files) :
    Except Dismissal (Request × Settings) := do
  let request ← readRequest arguments
  match check request.sub stdin files request.given with
  | .error error => .error (.refused (some request.sub) error)
  | .ok settings => return (request, settings)

/-- Carries out a command line, if the steps looked ahead are enough. -/
def execute (arguments : List String) (stdin : String) (files : Files) (depth patience : Nat) :
    Option Output :=
  match prepare arguments stdin files with
  | .error dismissal => some dismissal.output
  | .ok (request, settings) => carryOut request settings stdin depth patience

end FlatIL.Command
