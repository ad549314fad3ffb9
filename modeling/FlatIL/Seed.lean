import FlatIL.Json
import FlatIL.Word

/-!
# Values from outside

What a caller seeds a run with is admitted only if it is an integer from zero up to
the largest word. Truth values are not integers here, and nothing is wrapped.
-/

namespace FlatIL

/-- What a value from outside is meant for. -/
inductive SeedSubject where
  /-- Something the caller names. -/
  | labelled (label : String)
  /-- A value of an input source, by its position. -/
  | inputItem (source : String) (index : Nat)
  /-- An address of a memory cell. -/
  | address
  /-- The contents of a memory cell. -/
  | cell (address : Word)
  /-- The value of a variable. -/
  | binding (name : String)
  deriving DecidableEq, Repr

/-- How a value from outside is spoken of. -/
def SeedSubject.text : SeedSubject → String
  | labelled label => label
  | inputItem source index => "input '" ++ source ++ "'[" ++ Decimal.ofNat index ++ "]"
  | address => "memory address"
  | cell place => "memory[" ++ Decimal.ofNat place.toNat ++ "]"
  | binding name => "variable '" ++ name ++ "'"

/-- Why a seed is refused. -/
inductive SeedError where
  /-- A value is not an integer but of the type named. -/
  | notInteger (subject : SeedSubject) (typeName : String)
  /-- An integer is no word. -/
  | outOfRange (subject : SeedSubject) (value : Int)
  /-- An input source has an empty name. -/
  | emptySource
  /-- An input source has the name of another. -/
  | duplicateSource (name : String)
  /-- A variable has an empty name. -/
  | emptyVariable
  deriving DecidableEq, Repr

/-- The text of an error. -/
def SeedError.message : SeedError → String
  | notInteger subject typeName => subject.text ++ " must be an int, got " ++ typeName
  | outOfRange subject value =>
    subject.text ++ " " ++ Decimal.ofInt value ++ " is outside the 32-bit unsigned range"
  | emptySource => "Input source name must be non-empty"
  | duplicateSource name => "Input source '" ++ name ++ "' is already registered"
  | emptyVariable => "Variable name must be non-empty"

/-- Admits a value from outside as a word. -/
def Word.accept (subject : SeedSubject) (value : Json) : Except SeedError Word :=
  match value with
  | .int n =>
    match Word.ofInt? n with
    | some w => .ok w
    | none => .error (.outOfRange subject n)
  | other => .error (.notInteger subject other.typeName)

end FlatIL
