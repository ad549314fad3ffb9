import FlatIL.Proofs.Evaluation
import FlatIL.Proofs.Seeding
import FlatIL.Step

/-!
# Input sources as two dictionaries

A table of streams keeps the values of a source and its cursor side by side. Here they are in two
dictionaries, one of values and one of cursors, that nothing but the operations keeps in step: a
name that is in the one may be missing in the other, and looking it up there is a mishap. Read in
this way, every operation on a table of streams is the same operation on the two dictionaries, and
so the mishap never happens. -/

namespace FlatIL

namespace Unguarded

/-- What stops a computation. -/
inductive Mishap where
  /-- A fault of the program that is run. -/
  | fault (fault : Fault)
  /-- The position is outside of the program. -/
  | outside (error : CounterError)
  /-- The budget of a run is below zero. -/
  | negativeBudget (budget : Int)
  /-- Nothing is listed under the tag of a node. -/
  | unsupported (tag : String)
  /-- A node with this tag lacks a part that is asked for. -/
  | noPart (tag : String)
  /-- There are more or fewer operands than a node takes. -/
  | operandCount (count : Nat)
  /-- A value is taken off an empty stack. -/
  | emptyStack
  /-- A dictionary lacks a key that is looked up. -/
  | noKey
  /-- A sequence has nothing at a position. -/
  | noItem (position : Int)
  deriving DecidableEq, Repr

/-- The value under a key that must be there. -/
def demand {κ α : Type} [DecidableEq κ] (table : Table κ α) (key : κ) : Except Mishap α :=
  match table.get? key with
  | some value => .ok value
  | none => .error .noKey

/-- Input sources as two dictionaries. -/
structure Sources where
  /-- All values of each source, in the order in which they are read. -/
  values : Table String (List Word) := .empty
  /-- How many values of each source have been read. -/
  cursors : Table String Nat := .empty
  deriving DecidableEq

namespace Sources

/-- Registers a source under a new name: first its values, then its cursor. -/
def register (sources : Sources) (name : String) (values : List Json) :
    Except SeedError Unit × Sources :=
  if name.isEmpty then (.error .emptySource, sources)
  else if sources.values.contains name then (.error (.duplicateSource name), sources)
  else
    match Inputs.admitFrom name 0 values with
    | .error error => (.error error, sources)
    | .ok words =>
      let valued := { sources with values := sources.values.insert name words }
      (.ok (), { valued with cursors := valued.cursors.insert name 0 })

/-- Reads the next value of a source, which is known if it is in the dictionary of values. -/
def read (sources : Sources) (name : String) : Except Mishap Word × Sources :=
  if sources.values.contains name then
    match demand sources.cursors name with
    | .error mishap => (.error mishap, sources)
    | .ok cursor =>
      match demand sources.values name with
      | .error mishap => (.error mishap, sources)
      | .ok values =>
        if values.length ≤ cursor then
          (.error (.fault (.inputExhausted name values.length)), sources)
        else
          let moved := { sources with cursors := sources.cursors.insert name (cursor + 1) }
          match values[cursor]? with
          | some value => (.ok value, moved)
          | none => (.error (.noItem cursor), moved)
  else (.error (.fault (.unknownSource name (Inputs.sortNames sources.values.keys))), sources)

end Sources

end Unguarded

open Unguarded (Sources Mishap)

/-- A table of streams as two dictionaries. -/
def Inputs.sources (inputs : Inputs) : Sources where
  values := inputs.mapValues (·.values)
  cursors := inputs.mapValues (·.cursor)

namespace Unguarded.Sources

/-- The two dictionaries of a table have its names for keys. -/
theorem keys_sources (inputs : Inputs) :
    inputs.sources.values.keys = inputs.names ∧ inputs.sources.cursors.keys = inputs.names :=
  ⟨Table.keys_mapValues _ _, Table.keys_mapValues _ _⟩

/-- What is looked up under the name of a stream is there. -/
theorem demand_mapValues {α : Type} (g : InputStream → α) {inputs : Inputs} {name : String}
    {stream : InputStream} (registered : inputs.get? name = some stream) :
    demand (inputs.mapValues g) name = .ok (g stream) := by
  rw [demand, Table.get?_mapValues, registered]
  rfl

/-- A name is known to the dictionary of values exactly if it is a name of the table. -/
theorem contains_sources (inputs : Inputs) (name : String) :
    inputs.sources.values.contains name = inputs.contains name := by
  rw [Table.contains, Inputs.sources, Table.get?_mapValues, Option.isSome_map]
  rfl

/-- Registering a source in a table registers it in the two dictionaries. -/
theorem register_sources (inputs : Inputs) (name : String) (values : List Json) :
    inputs.sources.register name values =
      match inputs.register name values with
      | .ok after => (.ok (), after.sources)
      | .error error => (.error error, inputs.sources) := by
  rw [register, Inputs.register, contains_sources]
  by_cases empty : name.isEmpty = true
  · rw [if_pos empty, if_pos empty]
  · rw [if_neg empty, if_neg empty]
    by_cases known : inputs.contains name = true
    · rw [if_pos known, if_pos known]
    · rw [if_neg known, if_neg known]
      cases admitted : Inputs.admitFrom name 0 values with
      | error error => rfl
      | ok words =>
        have both : Inputs.sources (inputs.insert name { values := words }) =
            { values := inputs.sources.values.insert name words
              cursors := inputs.sources.cursors.insert name 0 } := by
          simp only [Inputs.sources, Table.mapValues_insert]
        exact congrArg (Prod.mk _) both.symm

/-- Moving a cursor in a table moves it in the dictionary of cursors. -/
theorem moved_sources {inputs : Inputs} {name : String} {stream : InputStream}
    (registered : inputs.get? name = some stream) (cursor : Nat) :
    Inputs.sources (inputs.insert name { stream with cursor }) =
      { inputs.sources with cursors := inputs.sources.cursors.insert name cursor } := by
  have kept : (inputs.mapValues (·.values)).insert name stream.values =
      inputs.mapValues (·.values) := by
    refine Table.insert_of_get? ?_
    rw [Table.get?_mapValues, registered]
    rfl
  simp only [Inputs.sources, Table.mapValues_insert, kept]

/-- Reading a source of a table reads it in the two dictionaries, and nothing is missing there. -/
theorem read_sources (inputs : Inputs) (name : String) :
    inputs.sources.read name =
      ((inputs.read name).1.mapError Mishap.fault, (inputs.read name).2.sources) := by
  obtain ⟨missing, unknown⟩ | ⟨stream, registered, outcome⟩ := inputs.read_cases name
  · have absent : inputs.sources.values.contains name = false := by
      rw [contains_sources, Table.contains, missing]
      rfl
    rw [read, absent, unknown, (keys_sources inputs).1]
    rfl
  · have present : inputs.sources.values.contains name = true := by
      rw [contains_sources, Table.contains, registered]
      rfl
    have cursor : demand inputs.sources.cursors name = .ok stream.cursor :=
      demand_mapValues _ registered
    have values : demand inputs.sources.values name = .ok stream.values :=
      demand_mapValues _ registered
    rw [read, if_pos present, cursor]
    simp only [values]
    obtain ⟨spent, exhausted⟩ | ⟨value, held, found⟩ := outcome
    · rw [if_pos (List.getElem?_eq_none_iff.mp spent), exhausted]
      rfl
    · obtain ⟨within, -⟩ := List.getElem?_eq_some_iff.mp held
      rw [if_neg (by omega), found, held, moved_sources registered]
      rfl

-- Out of step the two dictionaries do not hold what a read looks up.
example :
    let sources : Sources := { values := Table.empty.insert "a" [7] }
    sources.read "a" = (.error .noKey, sources) :=
  rfl

end Unguarded.Sources

end FlatIL
