import FlatIL.Inputs

/-!
# The state of a run

A run starts at statement zero with the variables, memory cells and input sources
it is seeded with. It is running until it either falls off the end of the program
or meets a fault.
-/

namespace FlatIL

/-- Whether a run goes on. -/
inductive Status where
  | running
  | succeeded
  | failed
  deriving DecidableEq, Repr

namespace Status

/-- The name of a status in listings. -/
def name : Status → String
  | running => "running"
  | succeeded => "halted_success"
  | failed => "halted_error"

/-- The status with a given name. -/
def ofName? (text : String) : Option Status :=
  [running, succeeded, failed].find? (·.name = text)

end Status

/-- Variables and their values. -/
abbrev Env := Table String Word

/-- Memory cells and their contents, by address. -/
abbrev Memory := Table Word Word

/-- The state of a run. -/
structure State where
  /-- The number of the statement that comes next. -/
  pc : Int := 0
  env : Env := .empty
  memory : Memory := .empty
  inputs : Inputs := .empty
  status : Status := .running
  /-- The fault that ended the run. -/
  fault : Option Fault := none
  /-- The text of that fault, kept beside it. -/
  faultMessage : Option String := none
  /-- How many statements have been executed. -/
  steps : Nat := 0
  deriving DecidableEq

namespace State

instance : Inhabited State := ⟨{}⟩

/-- Whether the run goes on. -/
def isRunning (s : State) : Bool :=
  s.status == .running

/-- Whether the run has ended. -/
def isHalted (s : State) : Bool :=
  s.status != .running

end State

/-- What a run is seeded with. -/
structure Seeds where
  inputs : List (String × List Json) := []
  memory : List (Json × Json) := []
  env : List (String × Json) := []

namespace Seeds

/-- Admits memory cells one after the other, each address before its contents. -/
def admitMemory (memory : Memory) : List (Json × Json) → Except SeedError Memory
  | [] => .ok memory
  | (address, value) :: cells => do
    let address ← Word.accept .address address
    let value ← Word.accept (.cell address) value
    admitMemory (memory.insert address value) cells

/-- Admits variables one after the other. -/
def admitEnv (env : Env) : List (String × Json) → Except SeedError Env
  | [] => .ok env
  | (name, value) :: bindings =>
    if name.isEmpty then .error .emptyVariable
    else do
      let value ← Word.accept (.binding name) value
      admitEnv (env.insert name value) bindings

/-- The fresh state over given sources, with the memory and the variables of the seeds. -/
def startOn (seeds : Seeds) (inputs : Inputs) : Except SeedError State := do
  let memory ← admitMemory .empty seeds.memory
  let env ← admitEnv .empty seeds.env
  return { env, memory, inputs }

/-- The fresh state of a run: sources are admitted first, then memory, then variables. -/
def start (seeds : Seeds) : Except SeedError State := do
  let inputs ← Inputs.registerAll .empty seeds.inputs
  seeds.startOn inputs

end Seeds

end FlatIL
