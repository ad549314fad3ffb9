import FlatIL.Json.Write
import FlatIL.State

/-!
# Snapshots

A snapshot is the state of a run as it is shown: variables and cursors in the order
in which they came up, memory cells by ascending address.
-/

namespace FlatIL.State

/-- The memory cells by ascending address. -/
def sortedMemory (s : State) : List (Word × Word) :=
  s.memory.entries.mergeSort fun a b => decide (a.1 ≤ b.1)

/-- The variables by ascending name. -/
def sortedEnv (s : State) : List (String × Word) :=
  s.env.entries.mergeSort fun a b => decide (a.1 ≤ b.1)

/-- A text that may be absent. -/
def optionalText : Option String → Json
  | none => .null
  | some text => .str text

/-- The snapshot of a state. -/
def snapshot (s : State) : Json :=
  .obj
    [("pc", .int s.pc),
      ("status", .str s.status.name),
      ("fault", optionalText (s.fault.map Fault.kind)),
      ("fault_message", optionalText s.faultMessage),
      ("steps", .int s.steps),
      ("env", .obj (s.env.entries.map fun (name, value) => (name, .int value.toNat))),
      ("memory", .obj (s.sortedMemory.map fun (address, value) =>
        (Decimal.ofNat address.toNat, .int value.toNat))),
      ("input_cursors", .obj (s.inputs.cursors.map fun (name, cursor) => (name, .int cursor)))]

end FlatIL.State
