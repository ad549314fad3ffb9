import FlatIL.Json
import FlatIL.Model.Issue

/-!
# The library that models are stored with

Models are read and written with a library that is not part of the language. What is used of it is
gathered here as a record of functions: how a value stands for an integer, how deep nodes may be
nested, and how values and texts become one another. The record carries no laws; what is relied on
is a predicate of it.
-/

namespace FlatIL.Model

/-- Why a value cannot be written. -/
inductive DumpError where
  /-- It is nested deeper than values are written. -/
  | tooDeep
  deriving DecidableEq, Repr

/-- The text of an error. -/
def DumpError.message : DumpError → String
  | tooDeep => "Error serializing to JSON: ValueError: Maximum serialization depth exceeded"

/-- What reads and writes stored models. -/
structure Library where
  /-- The integer that a value stands for, in any of the spellings that are admitted. -/
  integer : Json → Except Problem Int
  /-- The most nodes on one way down that an expression is read with. -/
  room : Nat
  /-- The value that a text holds. -/
  read : String → Option Json
  /-- The text of a value. -/
  write : Json → Except DumpError String

end FlatIL.Model
