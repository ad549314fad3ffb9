import FlatIL.Text.Blank
import FlatIL.Text.Decimal
import FlatIL.Text.Digit

/-!
# Integers in options

An integer given as an option may be surrounded by white space, carry a sign,
start with zeros, use the decimal digits of any script, and set single
underscores between digits.
-/

namespace FlatIL.Text

/-- The values of a run of digits, at least one, with single underscores allowed
between two digits. -/
def digitRun? : List Char → Option (List Nat)
  | [] => none
  | [c] => (digitValue? c).map ([·])
  | c :: '_' :: cs => do
    let first ← digitValue? c
    let others ← digitRun? cs
    some (first :: others)
  | c :: cs => do
    let first ← digitValue? c
    let others ← digitRun? cs
    some (first :: others)

/-- The number that a run of digits denotes, within the limit on digits. -/
def numeral? (cs : List Char) : Option Nat := do
  let values ← digitRun? cs
  if values.length ≤ Decimal.digitLimit then
    some (values.foldl (fun n d => 10 * n + d) 0)
  else none

/-- Reads an integer option. -/
def integer? (text : String) : Option Int :=
  match trimSpace text.toList with
  | '+' :: cs => (numeral? cs).map Int.ofNat
  | '-' :: cs => (numeral? cs).map fun n => -(Int.ofNat n)
  | cs => (numeral? cs).map Int.ofNat

end FlatIL.Text
