import FlatIL.Model.Library
import FlatIL.Program

/-!
# Writing a stored model

Every node is written as an object with its tag first and its fields in the order
in which they are read. The library gives the text of such a value.
-/

namespace FlatIL

/-- An expression as a stored model. -/
def Expr.toJson : Expr → Json
  | .lit value => .obj [("kind", .str "literal"), ("value", .int value.toNat)]
  | .var name => .obj [("kind", .str "variable_ref"), ("name", .str name)]
  | .load address => .obj [("kind", .str "load"), ("address", address.toJson)]
  | .binary op left right =>
    .obj [("kind", .str "binary"), ("op", .str op.name), ("left", left.toJson),
      ("right", right.toJson)]
  | .unary op operand =>
    .obj [("kind", .str "unary"), ("op", .str op.name), ("operand", operand.toJson)]
  | .input source => .obj [("kind", .str "get_input"), ("source", .str source)]

/-- A statement as a stored model. -/
def Stmt.toJson : Stmt → Json
  | .assign target value =>
    .obj [("kind", .str "assignment"), ("target", .str target), ("value", value.toJson)]
  | .store address value =>
    .obj [("kind", .str "store"), ("address", address.toJson), ("value", value.toJson)]
  | .goto target => .obj [("kind", .str "goto"), ("target", target.toJson)]
  | .assert condition => .obj [("kind", .str "assert"), ("condition", condition.toJson)]
  | .branch condition thenTarget elseTarget =>
    .obj [("kind", .str "if_goto"), ("condition", condition.toJson),
      ("then_target", thenTarget.toJson), ("else_target", elseTarget.toJson)]

/-- A program as a stored model. -/
def Program.toJson (p : Program) : Json :=
  .obj [("statements", .arr (p.statements.map Stmt.toJson))]

/-- The text of a stored program. -/
def Program.dump (library : Model.Library) (p : Program) : Except Model.DumpError String :=
  library.write p.toJson

end FlatIL
