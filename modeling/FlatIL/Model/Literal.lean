import FlatIL.Json.Read
import FlatIL.Model.Double
import FlatIL.Model.Issue
import FlatIL.Text.Blank
import FlatIL.Word

/-!
# Literals of a stored model

The value of a literal is an integer from zero up to the largest word. Several
spellings are admitted: truth values count as one and zero, numbers with a zero
fraction as the integer, and texts as the integer they spell.

A text is first taken as it stands, as an integer of JSON. If it is none it is tidied
once and taken again: white space around it is dropped, and so are a plus sign, zeros
behind the sign and in front of another digit or of a minus sign, a fraction of zeros,
and single underscores.
-/

namespace FlatIL.Model

/-- What a text is as an integer of JSON. -/
inductive Numeral where
  | integer (n : Int)
  /-- The sign and the digits are more than are ever read. -/
  | tooLong
  | malformed
  deriving DecidableEq, Repr

/-- Takes a text as an integer of JSON. Too many digits are noticed before what follows them. -/
def numeral (cs : List Char) : Numeral :=
  let (negative, body) :=
    match cs with
    | '-' :: rest => (true, rest)
    | _ => (false, cs)
  match Json.readWhole? body with
  | none => .malformed
  | some (whole, rest) =>
    if Json.exceedsLimit negative whole then .tooLong
    else if !rest.isEmpty then .malformed
    else
      let n := Int.ofNat (Decimal.value whole)
      .integer (if negative then -n else n)

/-- Whether a text has a minus sign in front, and the text without its sign; a plus sign may
not be followed by a minus sign. -/
def splitSign : List Char → Option (Bool × List Char)
  | '+' :: '-' :: _ => none
  | '+' :: rest => some (false, rest)
  | '-' :: rest => some (true, rest)
  | cs => some (false, cs)

/-- Whether a numeral may go on with a character after zeros have been dropped. -/
def isLeading (c : Char) : Bool :=
  (c.isDigit && c != '0') || c == '-'

/-- Drops zeros and underscores up to another digit or a minus sign; the character in front
of them is `last`. A point keeps the character in front of it, and so does the end. -/
def dropZeros (last : Char) : List Char → Option (List Char)
  | [] => some [last]
  | c :: cs =>
    if c == '0' || c == '_' then dropZeros c cs
    else if isLeading c then some (c :: cs)
    else if c == '.' then some (last :: c :: cs)
    else none

/-- A numeral without the zeros that it starts with. -/
def withoutLeadingZeros : List Char → Option (List Char)
  | [] => none
  | c :: cs =>
    if c == '0' then dropZeros c cs
    else if isLeading c then some (c :: cs)
    else none

/-- A numeral without a fraction that consists of zeros, of which there is at least one. -/
def withoutZeroFraction (cs : List Char) : List Char :=
  match cs.dropWhile (· != '.') with
  | '.' :: '0' :: fraction =>
    if fraction.all (· == '0') then cs.takeWhile (· != '.') else cs
  | _ => cs

/-- Whether two underscores stand side by side. -/
def doublesUnderscore : List Char → Bool
  | a :: b :: cs => (a == '_' && b == '_') || doublesUnderscore (b :: cs)
  | _ => false

/-- A numeral without its underscores, none of which may be first, last or beside another. -/
def withoutUnderscores (cs : List Char) : List Char :=
  if cs.head? == some '_' || cs.getLast? == some '_' || doublesUnderscore cs then cs
  else cs.filter (· != '_')

/-- A text tidied up to be taken as an integer of JSON; a minus sign in front stays there. -/
def tidied (cs : List Char) : Option (List Char) := do
  let (negative, unsigned) ← splitSign (Text.trimSpace cs)
  let kept ← withoutLeadingZeros unsigned
  let plain := withoutUnderscores (withoutZeroFraction kept)
  return if negative then '-' :: plain else plain

/-- The integer a text spells. -/
def integerOfText (text : String) : Except Problem Int :=
  match numeral text.toList with
  | .integer n => .ok n
  | .tooLong => .error .literalTooLong
  | .malformed =>
    match (tidied text.toList).map numeral with
    | some (.integer n) => .ok n
    | _ => .error .literalText

/-- The integer a number with a fraction stands for, within 64 bits. -/
def integerOfReal : Real → Except Problem Int
  | .nan => .error .literalNotFinite
  | .infinity _ => .error .literalNotFinite
  | .decimal mantissa exponent =>
    match decimalDouble mantissa.natAbs exponent with
    | .infinite => .error .literalNotFinite
    | .fractional => .error .literalFraction
    | .whole magnitude =>
      if magnitude < 1 <<< 63 then
        .ok (if mantissa < 0 then -(Int.ofNat magnitude) else Int.ofNat magnitude)
      else .error .literalTooLong

/-- The integer a value stands for. -/
def integerOf : Json → Except Problem Int
  | .int n => .ok n
  | .bool flag => .ok (if flag then 1 else 0)
  | .real r => integerOfReal r
  | .str text => integerOfText text
  | .null | .arr _ | .obj _ => .error .literalType

/-- The word a value stands for, if `integer` tells what integer it stands for. -/
def literalBy (integer : Json → Except Problem Int) (json : Json) : Except Problem Word :=
  match integer json with
  | .error problem => .error problem
  | .ok n =>
    if n < 0 then .error .literalBelowZero
    else
      match Word.ofInt? n with
      | none => .error .literalAboveWord
      | some w => .ok w

/-- The word a value stands for. -/
def literal (json : Json) : Except Problem Word :=
  literalBy integerOf json

end FlatIL.Model
