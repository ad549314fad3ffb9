import FlatIL.Render

/-!
# Rendered text by recursion

`Expr.text` writes an expression down by plain recursion and checks no names. On a
well-formed tree it is what `Expr.render` gives; statements and programs follow.
-/

namespace FlatIL

/-- The text of an expression, whatever its names are. -/
def Expr.text : Expr → String
  | lit value => Decimal.ofNat value.toNat
  | var name => name
  | input source => Render.inputText source
  | load address => Render.loadText address.text
  | unary op operand => Render.unaryText op operand.precedence operand.text
  | binary op left right =>
    Render.binaryText op left.precedence right.precedence left.text right.text

/-- The text of a statement, whatever its names are. -/
def Stmt.text : Stmt → String
  | assign target value => target ++ " := " ++ value.text
  | store address value => "store(" ++ address.text ++ ", " ++ value.text ++ ")"
  | goto target => "goto " ++ target.text
  | assert condition => "assert " ++ condition.text
  | branch condition thenTarget elseTarget =>
    "if " ++ condition.text ++ " then goto " ++ thenTarget.text ++ " else goto " ++ elseTarget.text

/-- The text of statements, each followed by a line feed. -/
def Stmt.textLines : List Stmt → String
  | [] => ""
  | first :: others => first.text ++ "\n" ++ textLines others

/-- A name of the language is written as it is. -/
theorem Render.name_of_isName {text : String} (named : Name.isName text = true) :
    Render.name text = .ok text :=
  if_pos named

/-- A well-formed expression is rendered as its text. -/
theorem Expr.render_eq_text {e : Expr} (wellFormed : e.WellFormed) : e.render = .ok e.text := by
  rw [render, traverse_eq_fold]
  induction e with
  | lit value => rfl
  | var name => exact Render.name_of_isName wellFormed
  | input source =>
    have named : Render.name source = .ok source := Render.name_of_isName wellFormed
    exact congrArg (Render.inputText <$> ·) named
  | load address ih => rw [fold, ih wellFormed]; rfl
  | unary op operand ih => rw [fold, ih wellFormed]; rfl
  | binary op left right ihLeft ihRight =>
    rw [fold, ihLeft wellFormed.1, ihRight wellFormed.2]; rfl

/-- A well-formed statement is rendered as its text. -/
theorem Stmt.render_eq_text {s : Stmt} (wellFormed : s.WellFormed) : s.render = .ok s.text := by
  cases s with
  | assign target value =>
    rw [render, Render.name_of_isName wellFormed.1, Expr.render_eq_text wellFormed.2]
    rfl
  | store address value =>
    rw [render, Expr.render_eq_text wellFormed.1, Expr.render_eq_text wellFormed.2]
    rfl
  | goto target =>
    rw [render, Expr.render_eq_text wellFormed]
    rfl
  | assert condition =>
    rw [render, Expr.render_eq_text wellFormed]
    rfl
  | branch condition thenTarget elseTarget =>
    rw [render, Expr.render_eq_text wellFormed.1, Expr.render_eq_text wellFormed.2.1,
      Expr.render_eq_text wellFormed.2.2]
    rfl

/-- Well-formed statements are rendered as their text. -/
theorem Stmt.renderLines_eq_textLines {ss : List Stmt} (wellFormed : ∀ s ∈ ss, s.WellFormed) :
    renderLines ss = .ok (textLines ss) := by
  induction ss with
  | nil => rfl
  | cons first others ih =>
    rw [renderLines, Stmt.render_eq_text (wellFormed first List.mem_cons_self),
      ih fun s inside => wellFormed s (List.mem_cons_of_mem first inside)]
    rfl

end FlatIL
