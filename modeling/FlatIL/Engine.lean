import FlatIL.Draft.Run
import FlatIL.Model.Read
import FlatIL.Parser.Cursor

/-!
# Engines

An engine runs one program, checked or not, on any number of states.
-/

namespace FlatIL

/-- What an engine runs. -/
inductive Engine where
  | program (p : Program)
  | drafts (drafts : List Draft)

/-- What can be evaluated in a state. -/
inductive Formula where
  | expr (e : Expr)
  | draft (draft : Draft)

namespace Engine

/-- Executes one statement. The state is told also when the execution stops for good. -/
def step (engine : Engine) (s : State) : State × Option EngineError :=
  match engine with
  | program p =>
    match p.step s with
    | .ok t => (t, none)
    | .error error => (s, some (.counter error))
  | drafts ds => Draft.step ds s

/-- Executes a number of statements, or fewer if the execution stops for good. -/
def steps (engine : Engine) : Nat → State → State × Option EngineError
  | 0, s => (s, none)
  | n + 1, s =>
    match engine.step s with
    | (t, none) => engine.steps n t
    | stopped => stopped

/-- The errors of a run as errors of an engine. -/
def ofRunError : RunError → EngineError
  | .negativeBudget budget => .negativeBudget budget
  | .counter error => .counter error

/-- Runs with a budget or, without one, until the run ends within the steps looked ahead. -/
def run (engine : Engine) (budget : Option Int) (patience : Nat) (s : State) :
    Option (State × Option EngineError) :=
  match engine with
  | program p =>
    (p.run budget patience s).map fun
      | .ok t => (t, none)
      | .error error => (s, some (ofRunError error))
  | drafts ds =>
    match budget with
    | none =>
      match Draft.runWithin ds patience s with
      | (_, none) => none
      | (t, some error) => some (t, error)
    | some n =>
      if n < 0 then some (s, some (.negativeBudget n))
      else
        let (t, error) := Draft.runWithin ds n.toNat s
        some (t, error.getD none)

/-- The states after each of the next steps, up to the end of the run and at most `limit`. -/
def trace (engine : Engine) : (limit : Nat) → State → Except EngineError (List State)
  | 0, _ => .ok []
  | limit + 1, s =>
    if s.isRunning then
      match engine.step s with
      | (_, some error) => .error error
      | (t, none) => do
        let later ← engine.trace limit t
        return t :: later
    else .ok []

end Engine

/-- Evaluates a formula in a state, which keeps the cursors that moved. -/
def State.evaluateFormula (s : State) : Formula → Except Trap Word × State
  | .expr e =>
    let (result, t) := s.evaluate e
    (result.mapError Trap.fault, t)
  | .draft draft =>
    let (result, inputs) := (draft.eval s.env s.memory).run s.inputs
    (result, { s with inputs })

/-- Why a value does not give a program to run. -/
inductive TargetError where
  | parse (mishap : Cursor.Mishap)
  | model (issues : List Model.Issue)
  /-- The value is neither a text nor an array. -/
  | wrongType (typeName : String)

/-- The text of an error; issues with a model have none. -/
def TargetError.message : TargetError → String
  | parse mishap => mishap.message
  | model _ => ""
  | wrongType typeName =>
    "simulate() expects a Program, a list of statements or source text, got " ++ typeName

/-- The program that a value stands for: a text is source text, parsed with as many calls under way
as `depth`, and an array holds statements. -/
def Program.ofValue (library : Model.Library) (depth : Nat) : Json → Except TargetError Program
  | .str text => (Program.parseWithin depth text).mapError .parse
  | .arr items => (Model.programOfItems library items).mapError .model
  | other => .error (.wrongType other.typeName)

end FlatIL
