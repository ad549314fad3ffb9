import FlatIL.Proofs.Table
import FlatIL.Session

/-!
# Acts in a session

Everything that is done to a run of a session reads the cells of the run, does something to the
state they make up, and writes them back. What is done to the state is an act, which can also be
done to a state that is in no session. A store keeps what it is told: a run finds in its cells what
was written there last, and writing to cells leaves all others as they are. -/

namespace FlatIL

/-! ## Acts -/

/-- What can be done to input sources from outside. -/
inductive Request where
  | register (name : String) (values : List Json)
  | read (name : String)

/-- What comes back from something done in a session: a value, or nothing, or why it failed. -/
abbrev Reply := Except SessionError (Option Word)

/-- What input sources reply to a request, and what becomes of them. -/
def Inputs.answer (inputs : Inputs) : Request → Reply × Inputs
  | .register name values =>
    match inputs.register name values with
    | .ok inputs => (.ok none, inputs)
    | .error error => (.error (.seed error), inputs)
  | .read name =>
    let (result, inputs) := inputs.read name
    ((result.mapError .fault).map some, inputs)

/-- What can be done to a run. -/
inductive Act where
  | steps (engine : Engine) (count : Nat)
  | run (engine : Engine) (budget : Option Int) (patience : Nat)
  | evaluate (formula : Formula)
  | request (asked : Request)

/-- A result that is no value. -/
def Reply.ofUnit (result : Except SessionError Unit) : Reply :=
  result.map fun _ => none

/-- What comes of an act on a state, if a run without a budget ends within its patience. -/
def Act.on (act : Act) (s : State) : Option (Reply × State) :=
  match act with
  | steps engine count => some ((Session.outcome (engine.steps count s)).map .ofUnit id)
  | run engine budget patience =>
    (engine.run budget patience s).map fun result => (Session.outcome result).map .ofUnit id
  | evaluate formula =>
    let (result, t) := s.evaluateFormula formula
    some ((result.mapError .trap).map some, t)
  | request asked =>
    let (reply, inputs) := s.inputs.answer asked
    some (reply, { s with inputs })

/-- Does something to the run in a slot. -/
def Session.act (session : Session) (slot : String) : Act → Option (Reply × Session)
  | .steps engine count => some ((session.steps slot engine count).map .ofUnit id)
  | .run engine budget patience =>
    (session.run slot engine budget patience).map (Prod.map .ofUnit id)
  | .evaluate formula => some ((session.evaluate slot formula).map (Except.map some) id)
  | .request (.register name values) =>
    some ((session.register slot name values).map .ofUnit id)
  | .request (.read name) => some ((session.read slot name).map (Except.map some) id)

/-- An act in a slot is the act on the state there, which is then written back. -/
theorem Session.act_eq {session : Session} {slot : String} {handle : Handle}
    (found : session.slots.get? slot = some handle) (act : Act) :
    session.act slot act =
      (act.on (session.store.load handle)).map fun done =>
        (done.1, session.put slot (session.store.save handle done.2)) := by
  have acts {α : Type} (f : State → Except SessionError α × State) :
      session.onState slot f =
        ((f (session.store.load handle)).1,
          session.put slot (session.store.save handle (f (session.store.load handle)).2)) := by
    rw [onState, found]
  cases act with
  | steps engine count =>
    rw [Session.act, steps, acts]
    rfl
  | run engine budget patience =>
    rw [Session.act, run, state?, found]
    simp only [Option.map_some, Option.map_map, Act.on, acts]
    rfl
  | evaluate formula =>
    rw [Session.act, evaluate, acts, Act.on]
    rcases (session.store.load handle).evaluateFormula formula with ⟨result, t⟩
    rfl
  | request asked =>
    cases asked with
    | register name values =>
      rw [Session.act, register, acts, Act.on, Inputs.answer]
      rcases (session.store.load handle).inputs.register name values with error | inputs <;> rfl
    | read name =>
      rw [Session.act, read, acts, Act.on, Inputs.answer]
      rcases (session.store.load handle).inputs.read name with ⟨result, inputs⟩
      rfl

/-- Nothing is done in a slot without a run. -/
theorem Session.act_of_missing {session : Session} {slot : String}
    (missing : session.slots.get? slot = none) (act : Act) :
    session.act slot act = some (.error (.noSlot slot), session) := by
  have fails {α : Type} (f : State → Except SessionError α × State) :
      session.onState slot f = (.error (.noSlot slot), session) := by
    rw [onState, missing]
  cases act with
  | steps engine count =>
    rw [Session.act, steps, fails]
    rfl
  | run engine budget patience =>
    rw [Session.act, run, state?, missing]
    rfl
  | evaluate formula =>
    rw [Session.act, evaluate, fails]
    rfl
  | request asked =>
    cases asked with
    | register name values =>
      rw [Session.act, register, fails]
      rfl
    | read name =>
      rw [Session.act, read, fails]
      rfl

/-- A slot holds the run that was put there last. -/
theorem Session.get?_put (session : Session) (slot other : String) (placed : Store × Handle) :
    (session.put slot placed).slots.get? other =
      if other = slot then some placed.2 else session.slots.get? other :=
  Table.get?_insert _ _ _ _

/-! ## Cells -/

namespace Store

variable {store : Store} {handle other : Handle}

/-- The cells of a run are in the store. -/
structure Holds (store : Store) (handle : Handle) : Prop where
  env : handle.env < store.envs.length
  memory : handle.memory < store.memories.length
  inputs : handle.inputs < store.inputs.length

/-- A run finds in its cells what was written there. -/
theorem load_save (held : store.Holds handle) (s : State) :
    (store.save handle s).1.load (store.save handle s).2 = s := by
  simp [load, save, held.env, held.memory, held.inputs]

/-- Writing cells takes none away. -/
theorem Holds.save (held : store.Holds other) (handle : Handle) (s : State) :
    (store.save handle s).1.Holds other :=
  ⟨by simpa [Store.save] using held.env, by simpa [Store.save] using held.memory,
    by simpa [Store.save] using held.inputs⟩

/-- A run keeps its cells when they are written. -/
theorem Holds.saved (held : store.Holds handle) (s : State) :
    (store.save handle s).1.Holds (store.save handle s).2 :=
  ⟨(held.save handle s).env, (held.save handle s).memory, (held.save handle s).inputs⟩

/-- A run finds in its new cells what they were made of. -/
theorem load_allocate (store : Store) (s : State) :
    (store.allocate s).1.load (store.allocate s).2 = s := by
  simp [load, allocate]

/-- New cells are in the store. -/
theorem holds_allocate (store : Store) (s : State) :
    (store.allocate s).1.Holds (store.allocate s).2 :=
  ⟨by simp [allocate], by simp [allocate], by simp [allocate]⟩

/-- New cells leave the others where they are. -/
theorem Holds.allocate (held : store.Holds other) (s : State) :
    (store.allocate s).1.Holds other := by
  obtain ⟨env, memory, inputs⟩ := held
  refine ⟨?_, ?_, ?_⟩ <;> simp only [Store.allocate, List.length_append] <;> omega

/-- New cells over input sources that are in the store are in the store. -/
theorem holds_allocateOn {inputs : Nat} (held : inputs < store.inputs.length) (s : State) :
    (store.allocateOn inputs s).1.Holds (store.allocateOn inputs s).2 :=
  ⟨by simp [allocateOn], by simp [allocateOn], held⟩

/-- New cells over input sources leave the others where they are. -/
theorem Holds.allocateOn (held : store.Holds other) (inputs : Nat) (s : State) :
    (store.allocateOn inputs s).1.Holds other := by
  obtain ⟨env, memory, sources⟩ := held
  refine ⟨?_, ?_, sources⟩ <;> simp only [Store.allocateOn, List.length_append] <;> omega

/-- New cells leave what is in the others. -/
theorem load_allocate_of_holds (held : store.Holds other) (s : State) :
    (store.allocate s).1.load other = store.load other := by
  simp [load, allocate, List.getElem?_append_left, held.env, held.memory, held.inputs]

end Store

/-- Two runs have no cell in common. -/
structure Handle.Apart (first second : Handle) : Prop where
  env : first.env ≠ second.env
  memory : first.memory ≠ second.memory
  inputs : first.inputs ≠ second.inputs

namespace Store

variable {store : Store} {handle other : Handle}

/-- Writing the cells of a run leaves what is in cells apart from them. -/
theorem load_save_of_apart (apart : handle.Apart other) (s : State) :
    (store.save handle s).1.load other = store.load other := by
  simp [load, save, List.getElem?_set_ne, apart.env, apart.memory, apart.inputs]

/-- New cells are apart from all there were. -/
theorem Holds.apart_allocate (held : store.Holds other) (s : State) :
    other.Apart (store.allocate s).2 :=
  ⟨Nat.ne_of_lt held.env, Nat.ne_of_lt held.memory, Nat.ne_of_lt held.inputs⟩

end Store

end FlatIL
