import FlatIL.Engine
import FlatIL.Snapshot

/-!
# Sessions

In a session several runs live side by side in named slots. The variables, the
memory and the input sources of a run are cells of a store, and runs may share
them: what one of them changes the others see. A fork gets cells of its own.
-/

namespace FlatIL

/-- The cells that the runs of a session are made of. -/
structure Store where
  envs : List Env := []
  memories : List Memory := []
  inputs : List Inputs := []

/-- A run whose variables, memory and input sources are cells of a store. -/
structure Handle where
  pc : Int := 0
  status : Status := .running
  fault : Option Fault := none
  faultMessage : Option String := none
  steps : Nat := 0
  env : Nat
  memory : Nat
  inputs : Nat
  deriving DecidableEq

namespace Store

/-- The state of a run. -/
def load (store : Store) (handle : Handle) : State where
  pc := handle.pc
  status := handle.status
  fault := handle.fault
  faultMessage := handle.faultMessage
  steps := handle.steps
  env := (store.envs[handle.env]?).getD .empty
  memory := (store.memories[handle.memory]?).getD .empty
  inputs := (store.inputs[handle.inputs]?).getD .empty

/-- Writes the state of a run back to its cells. -/
def save (store : Store) (handle : Handle) (s : State) : Store × Handle :=
  ({ envs := store.envs.set handle.env s.env
     memories := store.memories.set handle.memory s.memory
     inputs := store.inputs.set handle.inputs s.inputs },
    { handle with
      pc := s.pc, status := s.status, fault := s.fault, faultMessage := s.faultMessage
      steps := s.steps })

/-- Gives a state cells of its own. -/
def allocate (store : Store) (s : State) : Store × Handle :=
  ({ envs := store.envs ++ [s.env]
     memories := store.memories ++ [s.memory]
     inputs := store.inputs ++ [s.inputs] },
    { pc := s.pc, status := s.status, fault := s.fault, faultMessage := s.faultMessage
      steps := s.steps
      env := store.envs.length, memory := store.memories.length, inputs := store.inputs.length })

/-- Gives a state variables and memory of its own over input sources that exist already. -/
def allocateOn (store : Store) (inputs : Nat) (s : State) : Store × Handle :=
  ({ store with
      envs := store.envs ++ [s.env]
      memories := store.memories ++ [s.memory] },
    { pc := s.pc, status := s.status, fault := s.fault, faultMessage := s.faultMessage
      steps := s.steps
      env := store.envs.length, memory := store.memories.length, inputs })

end Store

/-- Runs in named slots over one store. -/
structure Session where
  store : Store := {}
  slots : Table String Handle := .empty

/-- Why something cannot be done in a session. -/
inductive SessionError where
  /-- There is no slot of that name. -/
  | noSlot (name : String)
  | seed (error : SeedError)
  | engine (error : EngineError)
  | trap (trap : Trap)
  | fault (fault : Fault)

instance : Inhabited SessionError := ⟨.noSlot ""⟩

instance : Inhabited Session := ⟨{}⟩

namespace Session

/-- The state in a slot. -/
def state? (session : Session) (slot : String) : Option State :=
  (session.slots.get? slot).map session.store.load

/-- Puts a run into a slot. -/
def put (session : Session) (slot : String) (placed : Store × Handle) : Session :=
  { store := placed.1, slots := session.slots.insert slot placed.2 }

/-- Does something to the state in a slot and writes back what becomes of it. -/
def onState {α : Type} (session : Session) (slot : String)
    (act : State → Except SessionError α × State) : Except SessionError α × Session :=
  match session.slots.get? slot with
  | none => (.error (.noSlot slot), session)
  | some handle =>
    let (result, s) := act (session.store.load handle)
    (result, session.put slot (session.store.save handle s))

/-- Starts a run in a slot, on the input sources of another slot if one is named. -/
def start (session : Session) (slot : String) (seeds : Seeds) (sharing : Option String) :
    Except SessionError Unit × Session :=
  match sharing with
  | none =>
    match seeds.start with
    | .error error => (.error (.seed error), session)
    | .ok s => (.ok (), session.put slot (session.store.allocate s))
  | some other =>
    match session.slots.get? other with
    | none => (.error (.noSlot other), session)
    | some handle =>
      match seeds.startOn (session.store.load handle).inputs with
      | .error error => (.error (.seed error), session)
      | .ok s => (.ok (), session.put slot (session.store.allocateOn handle.inputs s))

/-- Starts a run in a slot that shares all cells of another. -/
def attach (session : Session) (slot other : String) : Except SessionError Unit × Session :=
  match session.slots.get? other with
  | none => (.error (.noSlot other), session)
  | some handle =>
    let fresh : Handle :=
      { env := handle.env, memory := handle.memory, inputs := handle.inputs }
    (.ok (), session.put slot (session.store, fresh))

/-- Copies a run, with all its cells, into a slot. -/
def fork (session : Session) (slot copy : String) : Except SessionError Unit × Session :=
  match session.slots.get? slot with
  | none => (.error (.noSlot slot), session)
  | some handle =>
    (.ok (), session.put copy (session.store.allocate (session.store.load handle)))

/-- The result of a run that may have stopped for good. -/
def outcome (result : State × Option EngineError) : Except SessionError Unit × State :=
  match result with
  | (s, none) => (.ok (), s)
  | (s, some error) => (.error (.engine error), s)

/-- Executes a number of statements. -/
def steps (session : Session) (slot : String) (engine : Engine) (count : Nat) :
    Except SessionError Unit × Session :=
  session.onState slot fun s => outcome (engine.steps count s)

/-- Runs with a budget or, without one, until the run ends within the steps looked ahead. -/
def run (session : Session) (slot : String) (engine : Engine) (budget : Option Int)
    (patience : Nat) : Option (Except SessionError Unit × Session) :=
  match session.state? slot with
  | none => some (.error (.noSlot slot), session)
  | some s =>
    (engine.run budget patience s).map fun result =>
      session.onState slot fun _ => outcome result

/-- Evaluates a formula. -/
def evaluate (session : Session) (slot : String) (formula : Formula) :
    Except SessionError Word × Session :=
  session.onState slot fun s =>
    let (result, t) := s.evaluateFormula formula
    (result.mapError .trap, t)

/-- Registers an input source. -/
def register (session : Session) (slot : String) (name : String) (values : List Json) :
    Except SessionError Unit × Session :=
  session.onState slot fun s =>
    match s.inputs.register name values with
    | .ok inputs => (.ok (), { s with inputs })
    | .error error => (.error (.seed error), s)

/-- Reads the next value of an input source. -/
def read (session : Session) (slot : String) (name : String) : Except SessionError Word × Session :=
  session.onState slot fun s =>
    let (result, inputs) := s.inputs.read name
    (result.mapError .fault, { s with inputs })

/-- Changes the state in a slot. -/
def set (session : Session) (slot : String) (change : State → State) :
    Except SessionError Unit × Session :=
  session.onState slot fun s => (.ok (), change s)

/-- Looks at the state in a slot. -/
def inspect {α : Type} (session : Session) (slot : String) (look : State → α) :
    Except SessionError α × Session :=
  session.onState slot fun s => (.ok (look s), s)

end Session

end FlatIL
