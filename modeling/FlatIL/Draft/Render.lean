import FlatIL.Draft.Walk
import FlatIL.Render

/-!
# Writing drafts down

A draft is written down by the forms of its nodes, expressions with a work list. Only at the very
top is its tag looked at, to decide whether it is a statement or an expression.
-/

namespace FlatIL

/-- Why a draft cannot be written down. -/
inductive DraftError where
  /-- A name that is none of the language. -/
  | render (error : RenderError)
  /-- A node in the place of a statement is none; its tag is told. -/
  | notStatement (tag : String)
  /-- A node in the place of an expression is none; its tag is told. -/
  | notExpression (tag : String)
  /-- An operator that does not exist. -/
  | unknownOperator (name : String)
  /-- Something that is no node at all, of the type told. -/
  | notNode (typeName : String)
  /-- A node lacks a field that its form has. -/
  | noField (name : String)
  deriving DecidableEq, Repr

/-- The text of an error. -/
def DraftError.message : DraftError → String
  | render error => error.message
  | notStatement tag => "Unsupported statement kind: " ++ tag
  | notExpression tag => "Unsupported expression kind: " ++ tag
  | unknownOperator name => Text.quoted name
  | notNode typeName =>
    "to_text() expects Program, statement or expression, got " ++ typeName
  | noField name => name

namespace Draft

/-- How tightly a node binds when it is written down. -/
def precedence : Draft → Nat
  | node .binary tag fields =>
    ((BinaryOp.ofName? (textField "op" (node .binary tag fields))).map
      BinaryOp.precedence).getD 0
  | node .unary _ _ => 8
  | _ => 9

/-- A name as it is written down. -/
def renderName (name : String) : Except DraftError String :=
  (Render.name name).mapError .render

/-- A field that must be there. -/
def required (draft : Draft) (name : String) : Except DraftError Draft :=
  match draft.field? name with
  | none => .error (.noField name)
  | some value => .ok value

/-- The text of a field that must be there. -/
def requiredText (draft : Draft) (name : String) : Except DraftError String := do
  let _ ← draft.required name
  return draft.textField name

/-- The form of a draft, if it is a node. -/
def ownForm : Draft → Option NodeForm
  | node form _ _ => some form
  | plain _ => none

/-- The text of a draft in the place of an expression, from one text for each operand. -/
def renderNode (draft : Draft) (parts : List String)
    (fits : parts.length = (operandNames draft.ownForm).length) : Except DraftError String :=
  match draft, parts, fits with
  | plain _, _, _ => .error (.noField "kind")
  | node .literal tag fields, _, _ => (node .literal tag fields).requiredText "value"
  | node .variableRef tag fields, _, _ => do
    renderName (← (node .variableRef tag fields).requiredText "name")
  | node .getInput tag fields, _, _ => do
    let source ← (node .getInput tag fields).requiredText "source"
    return Render.inputText (← renderName source)
  | node .load _ _, [address], _ => .ok (Render.loadText address)
  | node .unary tag fields, [operand], _ => do
    let strength := (← (node .unary tag fields).required "operand").precedence
    let name ← (node .unary tag fields).requiredText "op"
    match UnaryOp.ofName? name with
    | none => .error (.unknownOperator name)
    | some op => .ok (Render.unaryText op strength operand)
  | node .binary tag fields, [left, right], _ => do
    let name ← (node .binary tag fields).requiredText "op"
    match BinaryOp.ofName? name with
    | none => .error (.unknownOperator name)
    | some op =>
      let leftStrength := (← (node .binary tag fields).required "left").precedence
      let rightStrength := (← (node .binary tag fields).required "right").precedence
      return Render.binaryText op leftStrength rightStrength left right
  | node .assignment tag _, _, _ | node .store tag _, _, _ | node .goto tag _, _, _
  | node .assert tag _, _, _ | node .ifGoto tag _, _, _ => .error (.notExpression tag)

/-- How each node of a draft is written down in the place of an expression. -/
def renderAlgebra : Algebra (Except DraftError) String where
  form := ownForm
  missing name := .error (.noField name)
  node := renderNode

/-- The text of a draft in the place of an expression. -/
def renderExpr (draft : Draft) : Except DraftError String :=
  draft.traverse renderAlgebra

/-- The text of a field that holds an expression. -/
def renderField (draft : Draft) (name : String) : Except DraftError String :=
  (draft.required name).bind renderExpr

/-- The text of a draft in the place of a statement. -/
def renderStmt (draft : Draft) : Except DraftError String :=
  match draft with
  | plain _ => .error (.noField "kind")
  | node form tag _ =>
    match form with
    | .assignment => do
      let target ← renderName (← draft.requiredText "target")
      let value ← draft.renderField "value"
      return target ++ " := " ++ value
    | .store => do
      let address ← draft.renderField "address"
      let value ← draft.renderField "value"
      return "store(" ++ address ++ ", " ++ value ++ ")"
    | .goto => do return "goto " ++ (← draft.renderField "target")
    | .assert => do return "assert " ++ (← draft.renderField "condition")
    | .ifGoto => do
      let condition ← draft.renderField "condition"
      let thenTarget ← draft.renderField "then_target"
      let elseTarget ← draft.renderField "else_target"
      return "if " ++ condition ++ " then goto " ++ thenTarget ++ " else goto " ++ elseTarget
    | _ => .error (.notStatement tag)

/-- The text of a draft by itself: its tag says whether it is a statement. -/
def render (draft : Draft) : Except DraftError String :=
  match draft with
  | plain value => .error (.notNode value.typeName)
  | node _ tag _ =>
    match NodeForm.ofTag? tag with
    | some form => if form.isStatement then draft.renderStmt else draft.renderExpr
    | none => draft.renderExpr

/-- The text of drafts as a program, each followed by a line feed. -/
def renderLines : List Draft → Except DraftError String
  | [] => .ok ""
  | first :: others => do
    let line ← first.renderStmt
    let lines ← renderLines others
    return line ++ "\n" ++ lines

end Draft

end FlatIL
