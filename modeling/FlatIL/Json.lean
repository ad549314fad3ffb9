import FlatIL.Text.Decimal

/-!
# JSON values

Stored models, snapshots and values handed in from outside are JSON. Integers are
unbounded and kept apart from numbers written with a fraction or an exponent.
Objects keep their fields in order; of two fields with one name the later counts.
-/

namespace FlatIL

/-- A number that is not written as an integer. -/
inductive Real where
  /-- `mantissa * 10 ^ exponent`. -/
  | decimal (mantissa exponent : Int)
  | nan
  | infinity (negative : Bool)
  deriving DecidableEq, Repr

/-- A JSON value. -/
inductive Json where
  | null
  | bool (flag : Bool)
  | int (value : Int)
  | real (value : Real)
  | str (text : String)
  | arr (items : List Json)
  | obj (fields : List (String × Json))
  deriving Repr

namespace Json

/-- The value of the last field with a given name. -/
def lookup (name : String) : List (String × Json) → Option Json
  | [] => none
  | (key, value) :: fields =>
    match lookup name fields with
    | some later => some later
    | none => if key = name then some value else none

/-- A field of an object; nothing else has fields. -/
def field? (name : String) : Json → Option Json
  | obj fields => lookup name fields
  | _ => none

/-- The word for the type of a value in messages. -/
def typeName : Json → String
  | null => "NoneType"
  | bool _ => "bool"
  | int _ => "int"
  | real _ => "float"
  | str _ => "str"
  | arr _ => "list"
  | obj _ => "dict"

end Json

end FlatIL
