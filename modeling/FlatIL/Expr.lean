import FlatIL.Word
import FlatIL.Operator
import FlatIL.Name

/-!
# Expressions

Expressions are trees of literals, variables, memory reads, input reads and
operators. The type admits any text as a name; `Expr.WellFormed` singles out the
trees whose names are names of the language.
-/

namespace FlatIL

/-- An expression. -/
inductive Expr where
  /-- A constant. -/
  | lit (value : Word)
  /-- The value bound to a variable. -/
  | var (name : String)
  /-- The memory cell at an address. -/
  | load (address : Expr)
  /-- A binary operator applied to its operands, which are evaluated left to right. -/
  | binary (op : BinaryOp) (left right : Expr)
  /-- A unary operator applied to its operand. -/
  | unary (op : UnaryOp) (operand : Expr)
  /-- The next value of an input source. -/
  | input (source : String)
  deriving DecidableEq, Repr

namespace Expr

/-- The source that an input read without a name refers to. -/
def defaultSource : String := "stdin"

/-- The number of nodes of an expression. -/
def size : Expr → Nat
  | lit _ | var _ | input _ => 1
  | load e | unary _ e => e.size + 1
  | binary _ l r => l.size + r.size + 1

/-- The number of nodes on the longest way down an expression. -/
def depth : Expr → Nat
  | lit _ | var _ | input _ => 1
  | load e | unary _ e => e.depth + 1
  | binary _ l r => max l.depth r.depth + 1

/-- The tag of a node in a stored model. -/
def kind : Expr → String
  | lit _ => "literal"
  | var _ => "variable_ref"
  | load _ => "load"
  | binary .. => "binary"
  | unary .. => "unary"
  | input _ => "get_input"

/-- How tightly the outermost node binds when it is written down: operators by
their own strength, and everything that needs no grouping at all as `9`. -/
def precedence : Expr → Nat
  | binary op _ _ => op.precedence
  | unary _ _ => 8
  | lit _ | var _ | load _ | input _ => 9

/-- Every name in the tree is a name of the language. -/
def WellFormed : Expr → Prop
  | lit _ => True
  | var x => Name.isName x
  | load e | unary _ e => e.WellFormed
  | binary _ l r => l.WellFormed ∧ r.WellFormed
  | input s => Name.isName s

/-- Being well formed can be decided. -/
instance decidableWellFormed : (e : Expr) → Decidable e.WellFormed
  | lit _ => .isTrue trivial
  | var x => inferInstanceAs (Decidable (Name.isName x = true))
  | load e | unary _ e => decidableWellFormed e
  | binary _ l r =>
    have := decidableWellFormed l
    have := decidableWellFormed r
    inferInstanceAs (Decidable (l.WellFormed ∧ r.WellFormed))
  | input s => inferInstanceAs (Decidable (Name.isName s = true))

/-- The names in the tree, operands from left to right. -/
def names : Expr → List String
  | lit _ => []
  | var x => [x]
  | load e | unary _ e => e.names
  | binary _ l r => l.names ++ r.names
  | input s => [s]

/-- One line of the post-order listing of an expression. -/
inductive Node where
  | lit (value : Word)
  | var (name : String)
  | load
  | binary (op : BinaryOp)
  | unary (op : UnaryOp)
  | input (source : String)
  deriving DecidableEq, Repr

/-- The nodes of an expression in post-order, followed by `rest`. -/
def postorderOnto : Expr → List Node → List Node
  | lit v, rest => .lit v :: rest
  | var x, rest => .var x :: rest
  | load e, rest => e.postorderOnto (.load :: rest)
  | binary op l r, rest => l.postorderOnto (r.postorderOnto (.binary op :: rest))
  | unary op e, rest => e.postorderOnto (.unary op :: rest)
  | input s, rest => .input s :: rest

/-- The nodes of an expression in post-order: operands left to right, then the node. -/
def postorder (e : Expr) : List Node :=
  e.postorderOnto []

end Expr

end FlatIL
