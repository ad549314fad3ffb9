/-!
# Operators

The twelve binary and three unary operators: their names in stored models,
their symbols in source text, and the binding strength that both the parser
and the printer go by.
-/

namespace FlatIL

/-- A binary operator. -/
inductive BinaryOp where
  | add | sub | mul | div | mod
  | eq | ne | lt | le
  | and | or | xor
  deriving DecidableEq, Repr

/-- A unary operator: two's complement negation, bitwise complement, logical negation. -/
inductive UnaryOp where
  | neg | not | lnot
  deriving DecidableEq, Repr

namespace BinaryOp

/-- Every binary operator once. -/
def all : List BinaryOp :=
  [add, sub, mul, div, mod, eq, ne, lt, le, and, or, xor]

/-- The name of an operator in a stored model. -/
def name : BinaryOp → String
  | add => "ADD"
  | sub => "SUB"
  | mul => "MUL"
  | div => "DIV"
  | mod => "MOD"
  | eq => "EQ"
  | ne => "NE"
  | lt => "LT"
  | le => "LE"
  | and => "AND"
  | or => "OR"
  | xor => "XOR"

/-- The operator with a given name. -/
def ofName? (text : String) : Option BinaryOp :=
  all.find? (·.name = text)

/-- The symbol of an operator in source text. -/
def symbol : BinaryOp → String
  | add => "+"
  | sub => "-"
  | mul => "*"
  | div => "/"
  | mod => "%"
  | eq => "="
  | ne => "<>"
  | lt => "<"
  | le => "<="
  | and => "&"
  | or => "|"
  | xor => "^"

/-- Binding strength, from `1` for the loosest to `7` for the tightest operators. -/
def precedence : BinaryOp → Nat
  | or => 1
  | xor => 2
  | and => 3
  | eq | ne => 4
  | lt | le => 5
  | add | sub => 6
  | mul | div | mod => 7

end BinaryOp

namespace UnaryOp

/-- Every unary operator once. -/
def all : List UnaryOp :=
  [neg, not, lnot]

/-- The name of an operator in a stored model. -/
def name : UnaryOp → String
  | neg => "NEG"
  | not => "NOT"
  | lnot => "LNOT"

/-- The operator with a given name. -/
def ofName? (text : String) : Option UnaryOp :=
  all.find? (·.name = text)

/-- The symbol of an operator in source text. -/
def symbol : UnaryOp → String
  | neg => "-"
  | not => "~"
  | lnot => "!"

end UnaryOp

end FlatIL
