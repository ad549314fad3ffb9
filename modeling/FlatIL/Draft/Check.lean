import FlatIL.Draft

/-!
# Drafts that are programs

A draft whose tags agree with its forms, whose operators exist and whose literals are
words is an expression or a statement. Its names may be any text.
-/

namespace FlatIL.Draft

/-- A field that holds a text. -/
def nameField? (draft : Draft) (name : String) : Option String :=
  match draft.plainField? name with
  | some (.str text) => some text
  | _ => none

/-- Goes on with a field that must be there. -/
def withField? {α : Type} (draft : Draft) (name : String)
    (next : (value : Draft) → draft.field? name = some value → Option α) : Option α :=
  match found : draft.field? name with
  | none => none
  | some value => next value found

/-- The form of a node whose tag agrees with it. -/
def form? : Draft → Option NodeForm
  | plain _ => none
  | node form tag _ => if tag = form.tag then some form else none

/-- The expression that a draft is. -/
def expr? (draft : Draft) : Option Expr :=
  match draft.form? with
  | some .literal =>
    match draft.plainField? "value" with
    | some (.int n) => (Word.ofInt? n).map Expr.lit
    | _ => none
  | some .variableRef => (draft.nameField? "name").map Expr.var
  | some .getInput => (draft.nameField? "source").map Expr.input
  | some .load => draft.withField? "address" fun address _found => (expr? address).map Expr.load
  | some .unary => do
    let op ← (draft.nameField? "op").bind UnaryOp.ofName?
    draft.withField? "operand" fun operand _found => (expr? operand).map (Expr.unary op)
  | some .binary => do
    let op ← (draft.nameField? "op").bind BinaryOp.ofName?
    let left ← draft.withField? "left" fun left _found => expr? left
    let right ← draft.withField? "right" fun right _found => expr? right
    some (.binary op left right)
  | _ => none
termination_by sizeOf draft
decreasing_by all_goals exact sizeOf_field?_lt _found

/-- The expression that a field is. -/
def exprField? (draft : Draft) (name : String) : Option Expr :=
  (draft.field? name).bind expr?

/-- The statement that a draft is. -/
def stmt? (draft : Draft) : Option Stmt := do
  match draft.form? with
  | some .assignment =>
    return .assign (← draft.nameField? "target") (← draft.exprField? "value")
  | some .store => return .store (← draft.exprField? "address") (← draft.exprField? "value")
  | some .goto => return .goto (← draft.exprField? "target")
  | some .assert => return .assert (← draft.exprField? "condition")
  | some .ifGoto =>
    return .branch (← draft.exprField? "condition") (← draft.exprField? "then_target")
      (← draft.exprField? "else_target")
  | _ => none

/-- The program that some drafts are. -/
def program? (drafts : List Draft) : Option Program :=
  (drafts.mapM stmt?).map Program.mk

end FlatIL.Draft
