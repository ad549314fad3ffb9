import FlatIL.Command.Output
import FlatIL.Snapshot
import FlatIL.Text.Blank

/-!
# Interactive sessions

Every line is a program of its own. Variables, memory and input sources carry over
from line to line; what a line changed in them is reported, sorted by name and by
address. A line that does not parse is reported and changes nothing.
-/

namespace FlatIL.Command

/-- What carries over from line to line. -/
structure Shared where
  env : Env := .empty
  memory : Memory := .empty
  inputs : Inputs := .empty

namespace Shared

/-- The state in which a line starts. -/
def start (shared : Shared) : State :=
  { env := shared.env, memory := shared.memory, inputs := shared.inputs }

/-- What a state leaves to the next line. -/
def ofState (s : State) : Shared :=
  { env := s.env, memory := s.memory, inputs := s.inputs }

end Shared

namespace Repl

/-- What is shown in front of every line. -/
def prompt : String := "> "

/-- The step budget of a line if none is given. -/
def defaultBudget : Nat := 100000

/-- The variables whose value differs from before, by name. -/
def changedEnv (before : Env) (s : State) : List (String × Word) :=
  s.sortedEnv.filter fun (name, value) => before.get? name != some value

/-- The memory cells whose contents differ from before, by address. -/
def changedMemory (before : Memory) (s : State) : List (Word × Word) :=
  s.sortedMemory.filter fun (address, value) => before.get? address != some value

/-- The report of a variable. -/
def bindingLine (name : String) (value : Word) : String :=
  name ++ " = " ++ Decimal.ofNat value.toNat ++ "\n"

/-- The report of a memory cell. -/
def cellLine (address value : Word) : String :=
  "[" ++ Decimal.ofNat address.toNat ++ "] = " ++ Decimal.ofNat value.toNat ++ "\n"

/-- The report of a fault that ended a run, with the text that is kept beside it. -/
def faultLine (s : State) (fault : Fault) : String :=
  "fault: " ++ fault.kind ++ " (" ++ s.faultMessage.getD "None" ++ ")\n"

/-- The report of how a line ended, if it did not succeed. -/
def endingLine (s : State) : String :=
  match s.status, s.fault with
  | .failed, some fault => faultLine s fault
  | .running, _ => "step budget exhausted after " ++ Decimal.ofNat s.steps ++ " steps\n"
  | _, _ => ""

/-- The report of what a line did. -/
def report (before : Shared) (s : State) : String :=
  String.join ((changedEnv before.env s).map fun (name, value) => bindingLine name value)
    ++ String.join ((changedMemory before.memory s).map fun (address, value) =>
      cellLine address value)
    ++ endingLine s

/-- What one line does to what is shared: it does not parse, or it runs to some state. -/
inductive Outcome where
  | stopped (mishap : Cursor.Mishap)
  | ran (p : Program) (s : State)

/-- Runs a line; its parser may have `depth` calls under way. -/
def runLine (depth budget : Nat) (shared : Shared) (line : String) : Outcome :=
  match Program.parseWithin depth line with
  | .error mishap => .stopped mishap
  | .ok p =>
    match p.runFor budget shared.start with
    | .ok s => .ran p s
    | .error _ => .ran p shared.start

/-- What a line leaves to the next one. -/
def Outcome.shared (before : Shared) : Outcome → Shared
  | stopped _ => before
  | ran _ s => .ofState s

/-- Whether a line holds nothing. -/
def isBlankLine (line : String) : Bool :=
  line.toList.all Text.isBlank

/-- Works on one line and puts out its report. -/
def feed (depth : Nat) (threshold : Level) (budget : Nat) (shared : Shared) (out : Output)
    (line : String) : Shared × Output :=
  if isBlankLine line then (shared, out)
  else
    let outcome := runLine depth budget shared line
    match outcome with
    | .stopped mishap =>
      match ordinary? mishap with
      | some error => (shared, out.complain error.message)
      | none => (shared, out.abort mishap)
    | .ran p s =>
      let events := runEvents threshold p (some budget) 0 shared.start
      let out := out.log threshold (.parsed p.size :: events)
      (outcome.shared shared, out.print (report shared s))

/-- Works on line after line, with a prompt after each, until one ends the session. -/
def feedAll (depth : Nat) (threshold : Level) (budget : Nat) (shared : Shared) (out : Output) :
    List String → Shared × Output
  | [] => (shared, out)
  | line :: lines =>
    let (shared, out) := feed depth threshold budget shared out line
    if out.crash.isSome then (shared, out)
    else feedAll depth threshold budget shared (out.print prompt) lines

/-- The lines of a text, each with its line feed; `done` holds the start of the first line,
last character first. -/
def splitLines (done : List Char) : List Char → List String
  | [] => if done.isEmpty then [] else [String.ofList done.reverse]
  | c :: cs =>
    if c == '\n' then String.ofList (c :: done).reverse :: splitLines [] cs
    else splitLines (c :: done) cs

/-- Works on all lines of a text and ends the session. -/
def session (depth : Nat) (threshold : Level) (budget : Nat) (shared : Shared) (text : String) :
    Output :=
  let (_, out) :=
    feedAll depth threshold budget shared { stdout := prompt } (splitLines [] text.toList)
  if out.crash.isSome then out else out.print "\n"

end Repl

end FlatIL.Command
