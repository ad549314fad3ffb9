import FlatIL.Expr.Fold
import FlatIL.Program
import FlatIL.Text.Decimal
import FlatIL.Text.Quoted

/-!
# Writing programs down

Programs are written one statement a line, with parentheses only where the
binding of operators asks for them: around a left operand that binds more loosely
than its operator, around a right operand that does not bind more tightly, and
around a binary operand of a unary operator. A name that the language could not
read back is refused, and so no text is ever written that means something else.
-/

namespace FlatIL

/-- Why a tree cannot be written down. -/
inductive RenderError where
  /-- A name that is none of the language. -/
  | badName (text : String)
  deriving DecidableEq, Repr

/-- The text of an error. -/
def RenderError.message : RenderError → String
  | badName text => "Cannot render " ++ Text.quoted text ++ " as a simpIL identifier"

namespace Render

/-- A name as it is written down. -/
def name (text : String) : Except RenderError String :=
  if Name.isName text then .ok text else .error (.badName text)

/-- Parentheses around a text, if they are needed. -/
def group (needed : Bool) (text : String) : String :=
  if needed then "(" ++ text ++ ")" else text

/-- A memory read, given the text of its address. -/
def loadText (address : String) : String :=
  "load(" ++ address ++ ")"

/-- An input read, given the name of its source. -/
def inputText (source : String) : String :=
  "get_input(" ++ source ++ ")"

/-- A unary operator applied to an operand of some binding strength. -/
def unaryText (op : UnaryOp) (strength : Nat) (operand : String) : String :=
  op.symbol ++ group (strength < 8) operand

/-- A binary operator between operands of some binding strengths. -/
def binaryText (op : BinaryOp) (leftStrength rightStrength : Nat) (left right : String) : String :=
  group (leftStrength < op.precedence) left ++ " " ++ op.symbol ++ " "
    ++ group (rightStrength ≤ op.precedence) right

/-- How each kind of node is written down. -/
def algebra : Expr.Algebra (Except RenderError) String where
  lit value := .ok (Decimal.ofNat value.toNat)
  var text := name text
  input source := inputText <$> name source
  load _ address := .ok (loadText address)
  unary op e operand := .ok (unaryText op e.precedence operand)
  binary op l r left right := .ok (binaryText op l.precedence r.precedence left right)

end Render

/-- The text of an expression. -/
def Expr.render (e : Expr) : Except RenderError String :=
  e.traverse Render.algebra

/-- The text of a statement; an assignment checks its target before its value. -/
def Stmt.render : Stmt → Except RenderError String
  | .assign target value => do
    let target ← Render.name target
    let value ← value.render
    return target ++ " := " ++ value
  | .store address value => do
    let address ← address.render
    let value ← value.render
    return "store(" ++ address ++ ", " ++ value ++ ")"
  | .goto target => do return "goto " ++ (← target.render)
  | .assert condition => do return "assert " ++ (← condition.render)
  | .branch condition thenTarget elseTarget => do
    let condition ← condition.render
    let thenTarget ← thenTarget.render
    let elseTarget ← elseTarget.render
    return "if " ++ condition ++ " then goto " ++ thenTarget ++ " else goto " ++ elseTarget

/-- The text of statements, each followed by a line feed. -/
def Stmt.renderLines : List Stmt → Except RenderError String
  | [] => .ok ""
  | first :: others => do
    let line ← first.render
    let lines ← renderLines others
    return line ++ "\n" ++ lines

/-- The text of a program. -/
def Program.render (p : Program) : Except RenderError String :=
  Stmt.renderLines p.statements

end FlatIL
