import FlatIL.Json.Read
import FlatIL.Json.Write
import FlatIL.Model.Library
import FlatIL.Model.Literal

/-!
# A library to store models with

The library that tests run with: it admits the spellings of `integerOf`, reads and writes texts in
the compact form, and bounds the nesting of what it reads and of what it writes.
-/

namespace FlatIL.Model

/-- The most nodes on one way down that a model is read and written with. -/
def nodeLimit : Nat := 254

/-- The deepest nesting of containers in a value that is written: two stand around each statement of
a program. -/
def writeLimit : Nat :=
  nodeLimit + 2

/-- The compact form of a value that is not nested too deep. -/
def writeText (value : Json) : Except DumpError String :=
  if value.nesting ≤ writeLimit then .ok value.compact else .error .tooDeep

/-- The library that tests run with. -/
def Library.standard : Library where
  integer := integerOf
  room := nodeLimit
  read := Json.read? Json.nestingLimit
  write := writeText

end FlatIL.Model
