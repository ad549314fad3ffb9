import FlatIL.Fault
import FlatIL.Seed
import FlatIL.Table

/-!
# Input sources

An input source is a named sequence of words, registered once and as a whole, that
is read from front to back. Reading moves the cursor of that source and nothing
else; a failed operation changes nothing.
-/

namespace FlatIL

/-- The values of a source and how many of them have been read. -/
structure InputStream where
  values : List Word
  cursor : Nat := 0
  deriving DecidableEq, Repr

/-- Named sources in the order of their registration. -/
abbrev Inputs := Table String InputStream

namespace Inputs

/-- Admits the values of a source, counting positions from `index`. -/
def admitFrom (source : String) (index : Nat) : List Json → Except SeedError (List Word)
  | [] => .ok []
  | value :: values => do
    let first ← Word.accept (.inputItem source index) value
    let others ← admitFrom source (index + 1) values
    return first :: others

/-- Registers a source under a new name. -/
def register (inputs : Inputs) (name : String) (values : List Json) : Except SeedError Inputs :=
  if name.isEmpty then .error .emptySource
  else if inputs.contains name then .error (.duplicateSource name)
  else do
    let values ← admitFrom name 0 values
    return inputs.insert name { values }

/-- Registers sources one after the other. -/
def registerAll (inputs : Inputs) : List (String × List Json) → Except SeedError Inputs
  | [] => .ok inputs
  | (name, values) :: streams => do
    let inputs ← inputs.register name values
    inputs.registerAll streams

/-- The names of all sources in order of registration. -/
def names (inputs : Inputs) : List String :=
  inputs.keys

/-- How many values have been read of each source. -/
def cursors (inputs : Inputs) : List (String × Nat) :=
  inputs.entries.map fun (name, stream) => (name, stream.cursor)

/-- Names in ascending order of code points. -/
def sortNames (names : List String) : List String :=
  names.mergeSort fun a b => decide (a ≤ b)

/-- Reads the next value of a source. -/
def read (inputs : Inputs) (name : String) : Except Fault Word × Inputs :=
  match inputs.get? name with
  | none => (.error (.unknownSource name (sortNames inputs.names)), inputs)
  | some stream =>
    match stream.values[stream.cursor]? with
    | none => (.error (.inputExhausted name stream.values.length), inputs)
    | some value =>
      (.ok value, inputs.insert name { stream with cursor := stream.cursor + 1 })

/-- How many values of a source have been read. -/
def position? (inputs : Inputs) (name : String) : Option Nat :=
  (inputs.get? name).map (·.cursor)

/-- How many values of a source are left. -/
def remaining? (inputs : Inputs) (name : String) : Option Nat :=
  (inputs.get? name).map fun stream => stream.values.length - stream.cursor

/-- How far each source has been read, in order of registration. -/
def describe (inputs : Inputs) : String :=
  let parts := inputs.entries.map fun (name, stream) =>
    name ++ "=" ++ Decimal.ofNat stream.cursor ++ "/" ++ Decimal.ofNat stream.values.length
  "InputSource(" ++ ", ".intercalate parts ++ ")"

end Inputs

end FlatIL
