import FlatIL.Json
import FlatIL.Text.Quoted

/-!
# Writing JSON

The compact form has no spaces. The indented form puts every field and item on a
line of its own, two spaces deeper than what encloses it, and writes empty
containers without a break.
-/

namespace FlatIL.Json

/-- How one character is written inside a JSON string. -/
def escape (c : Char) : List Char :=
  if c == '\x22' || c == '\\' then ['\\', c]
  else if c == '\n' then ['\\', 'n']
  else if c == '\r' then ['\\', 'r']
  else if c == '\t' then ['\\', 't']
  else if c == '\x08' then ['\\', 'b']
  else if c == '\x0c' then ['\\', 'f']
  else if c.toNat < 0x20 then '\\' :: 'u' :: Text.hex 4 c.toNat
  else [c]

/-- A text as a JSON string. -/
def writeString (text : String) : String :=
  String.ofList ('\x22' :: text.toList.flatMap escape ++ ['\x22'])

/-- A number that is not an integer, with a fraction or an exponent. -/
def writeReal : Real → String
  | .decimal mantissa exponent => Decimal.ofInt mantissa ++ "e" ++ Decimal.ofInt exponent
  | .nan => "NaN"
  | .infinity negative => if negative then "-Infinity" else "Infinity"

mutual

/-- The compact form of a value. -/
def compact : Json → String
  | null => "null"
  | bool flag => if flag then "true" else "false"
  | int n => Decimal.ofInt n
  | real r => writeReal r
  | str text => writeString text
  | arr items => "[" ++ compactItems items ++ "]"
  | obj fields => "\x7b" ++ compactFields fields ++ "\x7d"

/-- The items of an array, with commas between them. -/
def compactItems : List Json → String
  | [] => ""
  | [item] => compact item
  | item :: items => compact item ++ "," ++ compactItems items

/-- The fields of an object, with commas between them. -/
def compactFields : List (String × Json) → String
  | [] => ""
  | [(name, value)] => writeString name ++ ":" ++ compact value
  | (name, value) :: fields =>
    writeString name ++ ":" ++ compact value ++ "," ++ compactFields fields

end

mutual

/-- How deep containers that hold something are nested. -/
def nesting : Json → Nat
  | null | bool _ | int _ | real _ | str _ => 0
  | arr items => itemsNesting items
  | obj fields => fieldsNesting fields

/-- The nesting of an array with some items. -/
def itemsNesting : List Json → Nat
  | [] => 0
  | item :: items => max (item.nesting + 1) (itemsNesting items)

/-- The nesting of an object with some fields. -/
def fieldsNesting : List (String × Json) → Nat
  | [] => 0
  | (_, value) :: fields => max (value.nesting + 1) (fieldsNesting fields)

end

/-- A line break followed by the indentation of a depth. -/
def lineBreak (depth : Nat) : String :=
  "\n" ++ String.ofList (List.replicate (2 * depth) ' ')

mutual

/-- The indented form of a value at a depth. -/
def indented (depth : Nat) : Json → String
  | null => "null"
  | bool flag => if flag then "true" else "false"
  | int n => Decimal.ofInt n
  | real r => writeReal r
  | str text => writeString text
  | arr [] => "[]"
  | arr items => "[" ++ indentedItems (depth + 1) items ++ lineBreak depth ++ "]"
  | obj [] => "\x7b\x7d"
  | obj fields => "\x7b" ++ indentedFields (depth + 1) fields ++ lineBreak depth ++ "\x7d"

/-- The items of an array, each on its own line. -/
def indentedItems (depth : Nat) : List Json → String
  | [] => ""
  | [item] => lineBreak depth ++ indented depth item
  | item :: items => lineBreak depth ++ indented depth item ++ "," ++ indentedItems depth items

/-- The fields of an object, each on its own line. -/
def indentedFields (depth : Nat) : List (String × Json) → String
  | [] => ""
  | [(name, value)] => lineBreak depth ++ writeString name ++ ": " ++ indented depth value
  | (name, value) :: fields =>
    lineBreak depth ++ writeString name ++ ": " ++ indented depth value ++ ","
      ++ indentedFields depth fields

end

end FlatIL.Json
