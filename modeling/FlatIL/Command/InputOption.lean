import FlatIL.Name
import FlatIL.Text.Integer
import FlatIL.Text.Quoted

/-!
# Input options

An input source is given on the command line as `NAME=V1,V2,...`. Items that are
blank are left out, so `NAME=` is a source without values; a name is given once.
-/

namespace FlatIL.Command

/-- Why an input option is refused. -/
inductive InputOptionError where
  /-- There is no equals sign, or nothing in front of it. -/
  | malformed (item : String)
  /-- What stands in front of the equals sign is no name. -/
  | badName (name : String)
  /-- The name was given before. -/
  | repeated (name : String)
  /-- One of the values is no integer. -/
  | notInteger (item : String)
  deriving DecidableEq, Repr

/-- The text of an error. -/
def InputOptionError.message : InputOptionError → String
  | malformed item => "expected NAME=V1,V2,..., got " ++ Text.quoted item
  | badName name => "input name " ++ Text.quoted name ++ " is not a simpIL identifier"
  | repeated name => "input '" ++ name ++ "' given more than once"
  | notInteger item => "non-integer value in " ++ Text.quoted item

/-- The parts of a text between its commas. -/
def splitCommas : List Char → List (List Char)
  | [] => [[]]
  | c :: cs =>
    if c == ',' then [] :: splitCommas cs
    else
      match splitCommas cs with
      | [] => [[c]]
      | first :: others => (c :: first) :: others

/-- The integers in a text, which are separated by commas. -/
def integers? (cs : List Char) : Option (List Int) :=
  ((splitCommas cs).filter fun part => !part.all Text.isBlank).mapM fun part =>
    Text.integer? (String.ofList part)

/-- Adds the source that an option gives to those given before it. -/
def readInput (before : List (String × List Int)) (item : String) :
    Except InputOptionError (List (String × List Int)) :=
  let cs := item.toList
  let name := cs.takeWhile (· != '=')
  if name.isEmpty || !cs.contains '=' then .error (.malformed item)
  else
    let text := String.ofList name
    if !Name.isName text then .error (.badName text)
    else if before.any fun (known, _) => known == text then .error (.repeated text)
    else
      match integers? ((cs.dropWhile (· != '=')).drop 1) with
      | none => .error (.notInteger item)
      | some values => .ok (before ++ [(text, values)])

/-- The sources that some options give, in order. -/
def readInputs (items : List String) : Except InputOptionError (List (String × List Int)) :=
  items.foldlM readInput []

end FlatIL.Command
