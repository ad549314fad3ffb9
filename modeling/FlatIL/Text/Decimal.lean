/-!
# Decimal numerals

Numbers are written in base ten without leading zeros, and runs of ASCII digits
are read back by their positional value. Runs longer than `digitLimit` are
refused wherever text is turned into a number.
-/

namespace FlatIL.Decimal

/-- The longest run of digits that is read as a number. -/
def digitLimit : Nat := 4300

/-- The ASCII digit with a value below ten. -/
def digit (n : Nat) : Char :=
  Char.ofNat (48 + n % 10)

/-- The decimal digits of a number, most significant first. -/
def digits (n : Nat) : List Char :=
  if n < 10 then [digit n] else digits (n / 10) ++ [digit (n % 10)]
termination_by n
decreasing_by omega

/-- The positional value of a run of digits. -/
def value (cs : List Char) : Nat :=
  cs.foldl (fun n c => 10 * n + (c.toNat - 48)) 0

/-- The numeral of a natural number. -/
def ofNat (n : Nat) : String :=
  String.ofList (digits n)

/-- The numeral of an integer, with a minus sign below zero. -/
def ofInt : Int → String
  | .ofNat n => ofNat n
  | .negSucc n => "-" ++ ofNat (n + 1)

/-- The refusal of a run of more than `digitLimit` digits. -/
def limitMessage (count : Nat) : String :=
  "Exceeds the limit (" ++ ofNat digitLimit
    ++ " digits) for integer string conversion: value has " ++ ofNat count
    ++ " digits; use sys.set_int_max_str_digits() to increase the limit"

end FlatIL.Decimal
