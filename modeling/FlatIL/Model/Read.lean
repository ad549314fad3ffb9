import FlatIL.Model.Ident
import FlatIL.Model.Library
import FlatIL.Model.Literal
import FlatIL.NodeForm
import FlatIL.Program

/-!
# Reading a stored model

A node is an object whose `kind` tag says which fields it has. Fields are looked at
in a fixed order, whatever their order in the object; fields that a kind does not
have are ignored. What stands for an integer and how deep expressions are read is up to
the library. Every issue is collected, and a model without issues is well formed at every
depth.
-/

namespace FlatIL.Model

/-- How a model is handed in, which decides how a node that is no object is reported. -/
inductive Form where
  | value
  | text
  deriving DecidableEq, Repr

/-- The problem with a node that is no object. -/
def Form.notObject : Form → Problem
  | value => .valueNotObject
  | text => .textNotObject

/-- Whether a value has fields. -/
def isObject : Json → Bool
  | .obj _ => true
  | _ => false

/-- The result of a check at the place itself. -/
def here {α : Type} : Except Problem α → Checked α
  | .ok a => .ok a
  | .error problem => .fail problem

/-- Reads a field that must be there. -/
def required {α : Type} (json : Json) (name : String) (check : Json → Checked α) : Checked α :=
  match json.field? name with
  | none => Checked.under (.field name) (.fail .fieldMissing)
  | some value => Checked.under (.field name) (check value)

/-- Reads a field that has a default. -/
def optional {α : Type} (json : Json) (name : String) (default : α) (check : Json → Checked α) :
    Checked α :=
  match json.field? name with
  | none => .ok default
  | some value => Checked.under (.field name) (check value)

/-- Reads a node by the form that its tag names, which must be one that is admitted here;
what `fields` finds is reported under the tag. -/
def tagged {α : Type} (form : Form) (admits : NodeForm → Bool) (json : Json)
    (fields : NodeForm → Checked α) : Checked α :=
  if !isObject json then .fail form.notObject
  else
    match json.field? "kind" with
    | none => .fail .tagMissing
    | some (.str tag) =>
      match NodeForm.ofTag? tag with
      | some node => if admits node then .under (.field tag) (fields node) else .fail .tagInvalid
      | none => .fail .tagInvalid
    | some _ => .fail .tagInvalid

/-- Reads the fields of an expression, its operands by `nested`. -/
def exprFields (library : Library) (nested : Json → Checked Expr) (json : Json) :
    NodeForm → Checked Expr
  | .literal =>
    .apply Expr.lit (required json "value" fun value => here (literalBy library.integer value))
  | .variableRef => .apply Expr.var (required json "name" fun value => here (name value))
  | .load => .apply Expr.load (required json "address" nested)
  | .binary =>
    .both (fun op operands => Expr.binary op operands.1 operands.2)
      (required json "op" fun value => here (binaryOp value))
      (.both Prod.mk (required json "left" nested) (required json "right" nested))
  | .unary =>
    .both Expr.unary (required json "op" fun value => here (unaryOp value))
      (required json "operand" nested)
  | .getInput =>
    .apply Expr.input (optional json "source" Expr.defaultSource fun value => here (name value))
  | .assignment | .store | .goto | .assert | .ifGoto => .fail .tagInvalid

/-- Reads an expression of at most `room` nodes on every way down. -/
def exprWithin (library : Library) (form : Form) : (room : Nat) → Json → Checked Expr
  | 0, json => tagged form (!·.isStatement) json fun _ => .fail .tooDeep
  | room + 1, json =>
    tagged form (!·.isStatement) json (exprFields library (exprWithin library form room) json)

/-- Reads an expression. -/
def expr (library : Library) (form : Form) (json : Json) : Checked Expr :=
  exprWithin library form library.room json

/-- Reads the fields of a statement, its expressions by `nested`. -/
def stmtFields (nested : Json → Checked Expr) (json : Json) : NodeForm → Checked Stmt
  | .assignment =>
    .both Stmt.assign (required json "target" fun value => here (name value))
      (required json "value" nested)
  | .store => .both Stmt.store (required json "address" nested) (required json "value" nested)
  | .goto => .apply Stmt.goto (required json "target" nested)
  | .assert => .apply Stmt.assert (required json "condition" nested)
  | .ifGoto =>
    .both (fun condition targets => Stmt.branch condition targets.1 targets.2)
      (required json "condition" nested)
      (.both Prod.mk (required json "then_target" nested) (required json "else_target" nested))
  | .literal | .variableRef | .load | .binary | .unary | .getInput => .fail .tagInvalid

/-- Reads a statement. -/
def stmt (library : Library) (form : Form) (json : Json) : Checked Stmt :=
  tagged form (·.isStatement) json (stmtFields (expr library form) json)

/-- Reads statements, counting positions from `index`. -/
def stmtsFrom (library : Library) (form : Form) (index : Nat) : List Json → Checked (List Stmt)
  | [] => .ok []
  | json :: items =>
    .both List.cons (.under (.item index) (stmt library form json))
      (stmtsFrom library form (index + 1) items)

/-- Reads the statements of a program. -/
def stmts (library : Library) (form : Form) : Json → Checked (List Stmt)
  | .arr items => stmtsFrom library form 0 items
  | _ => .fail .statementsNotArray

/-- Reads a program; one without statements is empty. -/
def program (library : Library) (form : Form) (json : Json) : Checked Program :=
  if !isObject json then .fail .programNotObject
  else .apply Program.mk (optional json "statements" [] (stmts library form))

/-- Reads a program from an array of statements. -/
def programOfItems (library : Library) (items : List Json) : Checked Program :=
  .apply Program.mk (.under (.field "statements") (stmtsFrom library .value 0 items))

/-- Reads the text of a stored model. -/
def ofText {α : Type} (library : Library) (read : Form → Json → Checked α) (text : String) :
    Checked α :=
  match library.read text with
  | none => .fail .notJson
  | some json => read .text json

end FlatIL.Model
