/-!
# Issues with a stored model

Reading a stored model collects every issue it finds, each with the path from the
root of the model to the place it concerns.
-/

namespace FlatIL.Model

/-- What can be wrong at one place of a stored model. -/
inductive Problem where
  /-- The text is not JSON. -/
  | notJson
  /-- The program is not an object. -/
  | programNotObject
  /-- The statements are not an array. -/
  | statementsNotArray
  /-- A node given as a value is not an object. -/
  | valueNotObject
  /-- A node given in a text is not an object. -/
  | textNotObject
  /-- A node has no tag. -/
  | tagMissing
  /-- A node has a tag that names no kind of node. -/
  | tagInvalid
  /-- A node is nested deeper than models are read. -/
  | tooDeep
  /-- A required field is absent. -/
  | fieldMissing
  /-- A name is not a text. -/
  | nameNotText
  /-- A name does not have the shape of a name. -/
  | nameShape
  /-- A name is a reserved word. -/
  | nameReserved
  /-- An operator is none of the known ones. -/
  | unknownOperator
  /-- A literal is of a type that holds no number. -/
  | literalType
  /-- A literal is a text that is no integer. -/
  | literalText
  /-- A literal is an integer too long to read. -/
  | literalTooLong
  /-- A literal has a fraction. -/
  | literalFraction
  /-- A literal is not finite. -/
  | literalNotFinite
  /-- A literal is below zero. -/
  | literalBelowZero
  /-- A literal is above the largest word. -/
  | literalAboveWord
  deriving DecidableEq, Repr

/-- The name under which a problem is reported. -/
def Problem.code : Problem → String
  | notJson => "json_invalid"
  | programNotObject => "model_type"
  | statementsNotArray => "tuple_type"
  | valueNotObject => "model_attributes_type"
  | textNotObject => "dict_type"
  | tagMissing => "union_tag_not_found"
  | tagInvalid => "union_tag_invalid"
  | tooDeep => "recursion_depth_exceeded"
  | fieldMissing => "missing"
  | nameNotText => "string_type"
  | nameShape => "string_pattern_mismatch"
  | nameReserved => "value_error"
  | unknownOperator => "enum"
  | literalType => "int_type"
  | literalText => "int_parsing"
  | literalTooLong => "int_parsing_size"
  | literalFraction => "int_from_float"
  | literalNotFinite => "finite_number"
  | literalBelowZero => "greater_than_equal"
  | literalAboveWord => "less_than_equal"

/-- One step of a path: into a field (or into the chosen kind of node) or into an item. -/
inductive PathStep where
  | field (name : String)
  | item (index : Nat)
  deriving DecidableEq, Repr

/-- A problem and the path to it. -/
structure Issue where
  problem : Problem
  path : List PathStep := []
  deriving DecidableEq, Repr

/-- The same issue seen from one step further out. -/
def Issue.under (step : PathStep) (issue : Issue) : Issue :=
  { issue with path := step :: issue.path }

/-- The outcome of reading a part of a stored model: a result, or every issue found. -/
abbrev Checked (α : Type) := Except (List Issue) α

namespace Checked

/-- Reports the issues of a part from one step further out. -/
def under {α : Type} (step : PathStep) : Checked α → Checked α
  | .ok value => .ok value
  | .error issues => .error (issues.map (Issue.under step))

/-- Combines two parts; if either has issues, those of the first come first. -/
def both {α β γ : Type} (f : α → β → γ) : Checked α → Checked β → Checked γ
  | .ok a, .ok b => .ok (f a b)
  | .ok _, .error issues => .error issues
  | .error issues, .ok _ => .error issues
  | .error first, .error second => .error (first ++ second)

/-- Applies a function to the result of a part. -/
def apply {α β : Type} (f : α → β) : Checked α → Checked β
  | .ok a => .ok (f a)
  | .error issues => .error issues

/-- A single problem at the place itself. -/
def fail {α : Type} (problem : Problem) : Checked α :=
  .error [{ problem }]

end Checked

end FlatIL.Model
