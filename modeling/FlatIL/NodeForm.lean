/-!
# Forms of nodes

Stored models and drafts are trees of nodes. The form of a node says which fields it has,
and its tag names the form.
-/

namespace FlatIL

/-- The forms of nodes. -/
inductive NodeForm where
  | literal | variableRef | load | binary | unary | getInput
  | assignment | store | goto | assert | ifGoto
  deriving DecidableEq, Repr

namespace NodeForm

/-- Every form once. -/
def all : List NodeForm :=
  [literal, variableRef, load, binary, unary, getInput, assignment, store, goto, assert, ifGoto]

/-- The tag that a node of a form normally has. -/
def tag : NodeForm → String
  | literal => "literal"
  | variableRef => "variable_ref"
  | load => "load"
  | binary => "binary"
  | unary => "unary"
  | getInput => "get_input"
  | assignment => "assignment"
  | store => "store"
  | goto => "goto"
  | assert => "assert"
  | ifGoto => "if_goto"

/-- The form that normally has a tag. -/
def ofTag? (text : String) : Option NodeForm :=
  all.find? (·.tag = text)

/-- Whether nodes of a form are statements. -/
def isStatement : NodeForm → Bool
  | assignment | store | goto | assert | ifGoto => true
  | literal | variableRef | load | binary | unary | getInput => false

end NodeForm

end FlatIL
