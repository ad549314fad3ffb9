import FlatIL.Json
import FlatIL.Model.Issue
import FlatIL.Name
import FlatIL.Operator

/-!
# Names and operators of a stored model

A name is a text with the shape of a name that is not reserved; the shape is looked at
first. An operator is given by its exact name.
-/

namespace FlatIL.Model

/-- A text that must be a name of the language. -/
def nameOfText (text : String) : Except Problem String :=
  if !Name.hasShape text.toList then .error .nameShape
  else if Name.isReserved text then .error .nameReserved
  else .ok text

/-- A value that must be a name of the language. -/
def name : Json → Except Problem String
  | .str text => nameOfText text
  | _ => .error .nameNotText

/-- A value that must be the name of a binary operator. -/
def binaryOp : Json → Except Problem BinaryOp
  | .str text =>
    match BinaryOp.ofName? text with
    | some op => .ok op
    | none => .error .unknownOperator
  | _ => .error .unknownOperator

/-- A value that must be the name of a unary operator. -/
def unaryOp : Json → Except Problem UnaryOp
  | .str text =>
    match UnaryOp.ofName? text with
    | some op => .ok op
    | none => .error .unknownOperator
  | _ => .error .unknownOperator

end FlatIL.Model
