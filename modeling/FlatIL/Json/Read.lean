import FlatIL.Json

/-!
# Reading JSON

A text holds one value with white space around it. Values nested deeper than a
given depth are refused, and so are numbers with too many digits before the point,
control characters inside strings and surrogates that are not part of a pair. Besides the
numbers of the standard, `NaN` and the two infinities are read.
-/

namespace FlatIL.Json

/-- The white space between the tokens of a JSON text. -/
def isGap (c : Char) : Bool :=
  c == ' ' || c == '\t' || c == '\n' || c == '\r'

/-- A text without the white space at its front. -/
def skipGap (cs : List Char) : List Char :=
  cs.dropWhile isGap

/-- The value of a hexadecimal digit. -/
def hexDigit? (c : Char) : Option Nat :=
  if c.isDigit then some (c.toNat - 48)
  else if 'a' ≤ c ∧ c ≤ 'f' then some (c.toNat - 87)
  else if 'A' ≤ c ∧ c ≤ 'F' then some (c.toNat - 55)
  else none

/-- The number written with four hexadecimal digits. -/
def hexFour? (a b c d : Char) : Option Nat := do
  let a ← hexDigit? a
  let b ← hexDigit? b
  let c ← hexDigit? c
  let d ← hexDigit? d
  some (((a * 16 + b) * 16 + c) * 16 + d)

/-- Whether a code unit opens a surrogate pair. -/
def isHighSurrogate (unit : Nat) : Bool :=
  0xD800 ≤ unit && unit ≤ 0xDBFF

/-- Whether a code unit closes a surrogate pair. -/
def isLowSurrogate (unit : Nat) : Bool :=
  0xDC00 ≤ unit && unit ≤ 0xDFFF

/-- The character that a backslash and a letter stand for. -/
def escaped? : Char → Option Char
  | '\x22' => some '\x22'
  | '\\' => some '\\'
  | '/' => some '/'
  | 'b' => some '\x08'
  | 'f' => some '\x0c'
  | 'n' => some '\n'
  | 'r' => some '\r'
  | 't' => some '\t'
  | _ => none

/-- Reads a string up to its closing quote; `done` holds what was read, last first. -/
def readString (done : List Char) : List Char → Option (String × List Char)
  | '\x22' :: cs => some (String.ofList done.reverse, cs)
  | '\\' :: 'u' :: a :: b :: c :: d :: cs =>
    match hexFour? a b c d with
    | none => none
    | some unit =>
      if isHighSurrogate unit then
        match cs with
        | '\\' :: 'u' :: e :: f :: g :: h :: cs =>
          match hexFour? e f g h with
          | none => none
          | some other =>
            if isLowSurrogate other then
              readString
                (Char.ofNat (0x10000 + (unit - 0xD800) * 0x400 + (other - 0xDC00)) :: done) cs
            else none
        | _ => none
      else if isLowSurrogate unit then none
      else readString (Char.ofNat unit :: done) cs
  | '\\' :: c :: cs =>
    match escaped? c with
    | some plain => readString (plain :: done) cs
    | none => none
  | c :: cs => if c.toNat < 0x20 || c == '\\' then none else readString (c :: done) cs
  | [] => none

/-- Splits a text after its leading digits. -/
def spanDigits (cs : List Char) : List Char × List Char :=
  (cs.takeWhile Char.isDigit, cs.dropWhile Char.isDigit)

/-- Reads the digits before the point: a single zero, or a run that starts with none. -/
def readWhole? (cs : List Char) : Option (List Char × List Char) :=
  match cs with
  | '0' :: rest => some (['0'], rest)
  | _ =>
    match spanDigits cs with
    | ([], _) => none
    | found => some found

/-- Whether the sign and the digits before the point are more than are ever read. -/
def exceedsLimit (negative : Bool) (whole : List Char) : Bool :=
  Decimal.digitLimit < whole.length + (if negative then 1 else 0)

/-- Reads the fraction, which is empty when no point follows. -/
def readFraction? (cs : List Char) : Option (List Char × List Char) :=
  match cs with
  | '.' :: rest =>
    match spanDigits rest with
    | ([], _) => none
    | found => some found
  | _ => some ([], cs)

/-- Reads the digits of an exponent under a sign. -/
def readPower? (negative : Bool) (cs : List Char) : Option (Int × List Char) :=
  match spanDigits cs with
  | ([], _) => none
  | (run, rest) =>
    let n := Int.ofNat (Decimal.value run)
    some (if negative then -n else n, rest)

/-- Reads the exponent, if there is one. -/
def readExponent? (cs : List Char) : Option (Option Int × List Char) :=
  match cs with
  | c :: rest =>
    if c == 'e' || c == 'E' then
      match rest with
      | '+' :: rest => (readPower? false rest).map fun (n, rest) => (some n, rest)
      | '-' :: rest => (readPower? true rest).map fun (n, rest) => (some n, rest)
      | _ => (readPower? false rest).map fun (n, rest) => (some n, rest)
    else some (none, cs)
  | [] => some (none, [])

/-- Reads a number without its sign. -/
def readUnsigned? (negative : Bool) (cs : List Char) : Option (Json × List Char) := do
  let (whole, rest) ← readWhole? cs
  let (fraction, rest) ← readFraction? rest
  let (power, rest) ← readExponent? rest
  let magnitude := Int.ofNat (Decimal.value (whole ++ fraction))
  let mantissa := if negative then -magnitude else magnitude
  if exceedsLimit negative whole then none
  else if fraction.isEmpty && power.isNone then some (int mantissa, rest)
  else some (real (.decimal mantissa (power.getD 0 - fraction.length)), rest)

/-- Drops an expected word from the front of a text. -/
def word? (word : List Char) (cs : List Char) : Option (List Char) :=
  if word.isPrefixOf cs then some (cs.drop word.length) else none

/-- Reads a value that holds no other values. -/
def readScalar? (cs : List Char) : Option (Json × List Char) :=
  match cs with
  | '\x22' :: rest => (readString [] rest).map fun (text, rest) => (str text, rest)
  | 'n' :: _ => (word? "null".toList cs).map (null, ·)
  | 't' :: _ => (word? "true".toList cs).map (bool true, ·)
  | 'f' :: _ => (word? "false".toList cs).map (bool false, ·)
  | 'N' :: _ => (word? "NaN".toList cs).map (real .nan, ·)
  | 'I' :: _ => (word? "Infinity".toList cs).map (real (.infinity false), ·)
  | '-' :: 'I' :: _ => (word? "-Infinity".toList cs).map (real (.infinity true), ·)
  | '-' :: rest => readUnsigned? true rest
  | _ => readUnsigned? false cs

/-- Reads the items of an array after its bracket or a comma; the count bounds the items. -/
def readItems? (value : List Char → Option (Json × List Char)) :
    Nat → List Char → Option (List Json × List Char)
  | 0, _ => none
  | count + 1, cs => do
    let (item, rest) ← value (skipGap cs)
    match skipGap rest with
    | ',' :: rest =>
      let (items, rest) ← readItems? value count rest
      some (item :: items, rest)
    | ']' :: rest => some ([item], rest)
    | _ => none

/-- Reads the fields of an object after its brace or a comma; the count bounds the fields. -/
def readFields? (value : List Char → Option (Json × List Char)) :
    Nat → List Char → Option (List (String × Json) × List Char)
  | 0, _ => none
  | count + 1, cs =>
    match skipGap cs with
    | '\x22' :: rest => do
      let (name, rest) ← readString [] rest
      match skipGap rest with
      | ':' :: rest =>
        let (item, rest) ← value (skipGap rest)
        match skipGap rest with
        | ',' :: rest =>
          let (fields, rest) ← readFields? value count rest
          some ((name, item) :: fields, rest)
        | '\x7d' :: rest => some ([(name, item)], rest)
        | _ => none
      | _ => none
    | _ => none

/-- Reads a value that is empty or holds values read by `value`. -/
def readWith? (value : List Char → Option (Json × List Char)) (cs : List Char) :
    Option (Json × List Char) :=
  match cs with
  | '[' :: rest =>
    match skipGap rest with
    | ']' :: rest => some (arr [], rest)
    | rest => (readItems? value rest.length rest).map fun (items, rest) => (arr items, rest)
  | '\x7b' :: rest =>
    match skipGap rest with
    | '\x7d' :: rest => some (obj [], rest)
    | rest => (readFields? value rest.length rest).map fun (fields, rest) => (obj fields, rest)
  | _ => readScalar? cs

/-- Reads a value in which containers that hold something are nested at most `depth` deep. -/
def readValue? : (depth : Nat) → List Char → Option (Json × List Char)
  | 0 => readWith? fun _ => none
  | depth + 1 => readWith? (readValue? depth)

/-- The deepest nesting of containers that a stored model may have. -/
def nestingLimit : Nat := 200

/-- Reads a whole text as one value nested at most `depth` deep. -/
def read? (depth : Nat) (text : String) : Option Json := do
  let (value, rest) ← readValue? depth (skipGap text.toList)
  if (skipGap rest).isEmpty then some value else none

end FlatIL.Json
