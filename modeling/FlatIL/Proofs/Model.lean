import FlatIL.Model.Read
import FlatIL.Proofs.Seeding
import Mathlib.Data.List.Forall2

/-!
# What a stored model describes

`Describes` says which value describes which program, whatever spelling of a literal, order of
fields or further fields it uses. Reading a value succeeds exactly if it describes something that
is not too deep, and gives what it describes.
-/

namespace FlatIL

/-- Every expression has a node. -/
theorem Expr.depth_pos (e : Expr) : 0 < e.depth := by
  cases e <;> simp [depth]

namespace Model

/-! ## Parts of a model -/

section

variable {α β γ : Type}

/-- A part is read under a step exactly if it is read. -/
@[simp]
theorem under_eq_ok {step : PathStep} {part : Checked α} {a : α} :
    Checked.under step part = .ok a ↔ part = .ok a := by
  cases part <;> simp [Checked.under]

/-- A function of a part is read exactly if the part is. -/
@[simp]
theorem apply_eq_ok {f : α → β} {part : Checked α} {b : β} :
    Checked.apply f part = .ok b ↔ ∃ a, part = .ok a ∧ f a = b := by
  cases part <;> simp [Checked.apply]

/-- Two parts are read together exactly if both are. -/
@[simp]
theorem both_eq_ok {f : α → β → γ} {first : Checked α} {second : Checked β} {c : γ} :
    Checked.both f first second = .ok c ↔ ∃ a b, first = .ok a ∧ second = .ok b ∧ f a b = c := by
  cases first <;> cases second <;> simp [Checked.both]

/-- Nothing is read where there is a problem. -/
@[simp]
theorem fail_ne_ok {problem : Problem} {a : α} : ¬ Checked.fail problem = .ok a := nofun

/-- A check at a place is passed there. -/
@[simp]
theorem here_eq_ok {checked : Except Problem α} {a : α} :
    here checked = .ok a ↔ checked = .ok a := by
  cases checked <;> simp [here]

/-- A required field is read exactly if it is there and passes its check. -/
@[simp]
theorem required_eq_ok {json : Json} {name : String} {check : Json → Checked α} {a : α} :
    required json name check = .ok a ↔
      ∃ value, json.field? name = some value ∧ check value = .ok a := by
  unfold required
  cases json.field? name <;> simp

/-- An optional field has its default exactly if it is not there. -/
theorem optional_eq_ok {json : Json} {name : String} {default a : α} {check : Json → Checked α} :
    optional json name default check = .ok a ↔
      (json.field? name = none ∧ a = default) ∨
        ∃ value, json.field? name = some value ∧ check value = .ok a := by
  unfold optional
  cases json.field? name with
  | none => simp [eq_comm]
  | some value => simp

end

/-- What is listed under labels that differ is found by its label. -/
theorem find?_label {α : Type} {all : List α} {label : α → String}
    (listed : ∀ a, all.find? (label · = label a) = some a) {text : String} {a : α} :
    all.find? (label · = text) = some a ↔ text = label a := by
  constructor
  · intro found
    have labelled := List.find?_some found
    exact (of_decide_eq_true labelled).symm
  · rintro rfl
    exact listed a

/-- Only objects have fields. -/
theorem isObject_of_field? {json value : Json} {name : String}
    (found : json.field? name = some value) : isObject json = true := by
  cases json with
  | obj fields => rfl
  | null | bool _ | int _ | real _ | str _ | arr _ => cases found

/-- A form is known by its tag. -/
theorem ofTag?_eq_some {tag : String} {node : NodeForm} :
    NodeForm.ofTag? tag = some node ↔ tag = node.tag :=
  find?_label fun node => by cases node <;> rfl

/-- A binary operator is found by its name. -/
theorem binaryOfName?_eq_some {text : String} {op : BinaryOp} :
    BinaryOp.ofName? text = some op ↔ text = op.name :=
  find?_label fun op => by cases op <;> rfl

/-- A unary operator is found by its name. -/
theorem unaryOfName?_eq_some {text : String} {op : UnaryOp} :
    UnaryOp.ofName? text = some op ↔ text = op.name :=
  find?_label fun op => by cases op <;> rfl

/-- A node is read exactly if its tag is that of a form admitted here and its fields are read. -/
theorem tagged_eq_ok {α : Type} {form : Form} {admits : NodeForm → Bool} {json : Json}
    {fields : NodeForm → Checked α} {a : α} :
    tagged form admits json fields = .ok a ↔
      ∃ node, json.field? "kind" = some (.str node.tag) ∧ admits node = true ∧
        fields node = .ok a := by
  constructor
  · intro read
    unfold tagged at read
    split at read
    · cases read
    split at read
    · cases read
    · next tag found =>
      split at read
      · next node known =>
        obtain rfl := ofTag?_eq_some.mp known
        split at read
        · next admitted => exact ⟨node, found, admitted, under_eq_ok.mp read⟩
        · cases read
      · cases read
    · cases read
  · rintro ⟨node, found, admitted, read⟩
    simp [tagged, isObject_of_field? found, found, ofTag?_eq_some.mpr rfl, admitted, read]

/-! ## Names, operators and literals -/

/-- A text is taken as a name exactly if it is one. -/
theorem nameOfText_eq_ok {text result : String} :
    nameOfText text = .ok result ↔ text = result ∧ Name.isName text = true := by
  unfold nameOfText Name.isName
  cases Name.hasShape text.toList <;> cases Name.isReserved text <;> simp

/-- A value is a name exactly if it is a text that is one. -/
@[simp]
theorem name_eq_ok {json : Json} {text : String} :
    name json = .ok text ↔ json = .str text ∧ Name.isName text = true := by
  cases json with
  | str other =>
    rw [name, nameOfText_eq_ok, Json.str.injEq]
    constructor
    · rintro ⟨rfl, named⟩
      exact ⟨rfl, named⟩
    · rintro ⟨rfl, named⟩
      exact ⟨rfl, named⟩
  | null | bool _ | int _ | real _ | arr _ | obj _ => simp [name]

/-- A value is a binary operator exactly if it is its name. -/
@[simp]
theorem binaryOp_eq_ok {json : Json} {op : BinaryOp} :
    binaryOp json = .ok op ↔ json = .str op.name := by
  cases json with
  | str text =>
    rw [Json.str.injEq, ← binaryOfName?_eq_some, binaryOp]
    cases BinaryOp.ofName? text <;> simp
  | null | bool _ | int _ | real _ | arr _ | obj _ => simp [binaryOp]

/-- A value is a unary operator exactly if it is its name. -/
@[simp]
theorem unaryOp_eq_ok {json : Json} {op : UnaryOp} :
    unaryOp json = .ok op ↔ json = .str op.name := by
  cases json with
  | str text =>
    rw [Json.str.injEq, ← unaryOfName?_eq_some, unaryOp]
    cases UnaryOp.ofName? text <;> simp
  | null | bool _ | int _ | real _ | arr _ | obj _ => simp [unaryOp]

/-- A value is a literal exactly if the integer that it stands for is the number of the word. -/
@[simp]
theorem literalBy_eq_ok {integer : Json → Except Problem Int} {json : Json} {w : Word} :
    literalBy integer json = .ok w ↔ integer json = .ok w.toNat := by
  unfold literalBy
  cases integer json with
  | error problem => simp
  | ok n =>
    rw [Except.ok.injEq, ← Word.ofInt?_eq_some]
    by_cases negative : n < 0
    · have refused : Word.ofInt? n = none := by simp [Word.ofInt?]; omega
      simp [negative, refused]
    · simp only [if_neg negative]
      cases Word.ofInt? n <;> simp

/-! ## What is described -/

/-- A value describes an expression. Its tag says which fields it has; the order of the fields and
those that it has besides do not matter, and a literal may be given in any way that stands for its
number. -/
inductive DescribesExpr (integer : Json → Except Problem Int) : Json → Expr → Prop where
  | lit {json value : Json} {w : Word} (tag : json.field? "kind" = some (.str "literal"))
      (given : json.field? "value" = some value) (stands : integer value = .ok w.toNat) :
      DescribesExpr integer json (.lit w)
  | var {json : Json} {x : String} (tag : json.field? "kind" = some (.str "variable_ref"))
      (given : json.field? "name" = some (.str x)) (named : Name.isName x = true) :
      DescribesExpr integer json (.var x)
  | load {json a : Json} {address : Expr} (tag : json.field? "kind" = some (.str "load"))
      (given : json.field? "address" = some a) (nested : DescribesExpr integer a address) :
      DescribesExpr integer json (.load address)
  | binary {json l r : Json} {op : BinaryOp} {left right : Expr}
      (tag : json.field? "kind" = some (.str "binary"))
      (operator : json.field? "op" = some (.str op.name))
      (givenLeft : json.field? "left" = some l) (nestedLeft : DescribesExpr integer l left)
      (givenRight : json.field? "right" = some r) (nestedRight : DescribesExpr integer r right) :
      DescribesExpr integer json (.binary op left right)
  | unary {json o : Json} {op : UnaryOp} {operand : Expr}
      (tag : json.field? "kind" = some (.str "unary"))
      (operator : json.field? "op" = some (.str op.name))
      (given : json.field? "operand" = some o) (nested : DescribesExpr integer o operand) :
      DescribesExpr integer json (.unary op operand)
  | input {json : Json} {source : String} (tag : json.field? "kind" = some (.str "get_input"))
      (given : json.field? "source" = some (.str source)) (named : Name.isName source = true) :
      DescribesExpr integer json (.input source)
  /-- Without a source the standard one is meant. -/
  | standardInput {json : Json} (tag : json.field? "kind" = some (.str "get_input"))
      (absent : json.field? "source" = none) : DescribesExpr integer json (.input "stdin")

/-- A value describes a statement. -/
inductive DescribesStmt (integer : Json → Except Problem Int) : Json → Stmt → Prop where
  | assign {json v : Json} {x : String} {value : Expr}
      (tag : json.field? "kind" = some (.str "assignment"))
      (target : json.field? "target" = some (.str x)) (named : Name.isName x = true)
      (given : json.field? "value" = some v) (nested : DescribesExpr integer v value) :
      DescribesStmt integer json (.assign x value)
  | store {json a v : Json} {address value : Expr}
      (tag : json.field? "kind" = some (.str "store"))
      (givenAddress : json.field? "address" = some a)
      (nestedAddress : DescribesExpr integer a address)
      (givenValue : json.field? "value" = some v) (nestedValue : DescribesExpr integer v value) :
      DescribesStmt integer json (.store address value)
  | goto {json t : Json} {target : Expr} (tag : json.field? "kind" = some (.str "goto"))
      (given : json.field? "target" = some t) (nested : DescribesExpr integer t target) :
      DescribesStmt integer json (.goto target)
  | assert {json c : Json} {condition : Expr} (tag : json.field? "kind" = some (.str "assert"))
      (given : json.field? "condition" = some c) (nested : DescribesExpr integer c condition) :
      DescribesStmt integer json (.assert condition)
  | branch {json c t e : Json} {condition thenTarget elseTarget : Expr}
      (tag : json.field? "kind" = some (.str "if_goto"))
      (givenCondition : json.field? "condition" = some c)
      (nestedCondition : DescribesExpr integer c condition)
      (givenThen : json.field? "then_target" = some t)
      (nestedThen : DescribesExpr integer t thenTarget)
      (givenElse : json.field? "else_target" = some e)
      (nestedElse : DescribesExpr integer e elseTarget) :
      DescribesStmt integer json (.branch condition thenTarget elseTarget)

/-- A value describes a program: an object with an array of statements, or with none. -/
inductive Describes (integer : Json → Except Problem Int) : Json → Program → Prop where
  | statements {json : Json} {items : List Json} {stmts : List Stmt}
      (given : json.field? "statements" = some (.arr items))
      (each : List.Forall₂ (DescribesStmt integer) items stmts) : Describes integer json ⟨stmts⟩
  | empty {json : Json} (object : isObject json = true)
      (absent : json.field? "statements" = none) : Describes integer json ⟨[]⟩

variable {library : Library}

/-! ## Reading what is described -/

/-- An expression that is read is described and not too deep. -/
theorem describes_of_exprWithin {form : Form} {room : Nat} {json : Json} {e : Expr}
    (read : exprWithin library form room json = .ok e) :
    DescribesExpr library.integer json e ∧ e.depth ≤ room := by
  induction room generalizing json e with
  | zero =>
    obtain ⟨node, -, -, fields⟩ := tagged_eq_ok.mp read
    cases fields
  | succ room ih =>
    obtain ⟨node, tag, admitted, fields⟩ := tagged_eq_ok.mp read
    cases node with
    | literal =>
      simp only [exprFields, apply_eq_ok, required_eq_ok, here_eq_ok, literalBy_eq_ok] at fields
      obtain ⟨w, ⟨value, given, stands⟩, rfl⟩ := fields
      exact ⟨.lit tag given stands, Nat.le_add_left 1 room⟩
    | variableRef =>
      simp only [exprFields, apply_eq_ok, required_eq_ok, here_eq_ok, name_eq_ok] at fields
      obtain ⟨x, ⟨value, given, rfl, named⟩, rfl⟩ := fields
      exact ⟨.var tag given named, Nat.le_add_left 1 room⟩
    | load =>
      simp only [exprFields, apply_eq_ok, required_eq_ok] at fields
      obtain ⟨address, ⟨a, given, nested⟩, rfl⟩ := fields
      obtain ⟨described, fits⟩ := ih nested
      exact ⟨.load tag given described, Nat.succ_le_succ fits⟩
    | binary =>
      simp only [exprFields, both_eq_ok, required_eq_ok, here_eq_ok, binaryOp_eq_ok] at fields
      obtain ⟨op, _, ⟨_, operator, rfl⟩,
        ⟨left, right, ⟨l, givenLeft, nestedLeft⟩, ⟨r, givenRight, nestedRight⟩, rfl⟩, rfl⟩ := fields
      obtain ⟨describedLeft, fitsLeft⟩ := ih nestedLeft
      obtain ⟨describedRight, fitsRight⟩ := ih nestedRight
      exact ⟨.binary tag operator givenLeft describedLeft givenRight describedRight,
        Nat.succ_le_succ (Nat.max_le.mpr ⟨fitsLeft, fitsRight⟩)⟩
    | unary =>
      simp only [exprFields, both_eq_ok, required_eq_ok, here_eq_ok, unaryOp_eq_ok] at fields
      obtain ⟨op, operand, ⟨_, operator, rfl⟩, ⟨o, given, nested⟩, rfl⟩ := fields
      obtain ⟨described, fits⟩ := ih nested
      exact ⟨.unary tag operator given described, Nat.succ_le_succ fits⟩
    | getInput =>
      simp only [exprFields, apply_eq_ok, optional_eq_ok, here_eq_ok, name_eq_ok] at fields
      obtain ⟨source, ⟨absent, rfl⟩ | ⟨value, given, rfl, named⟩, rfl⟩ := fields
      · exact ⟨.standardInput tag absent, Nat.le_add_left 1 room⟩
      · exact ⟨.input tag given named, Nat.le_add_left 1 room⟩
    | assignment | store | goto | assert | ifGoto => cases admitted

/-- An expression is read if there is room for its node and its fields are read in what remains. -/
theorem exprWithin_of_fields {form : Form} {room : Nat} {json : Json} {e : Expr} (node : NodeForm)
    (fits : 0 < room) (tag : json.field? "kind" = some (.str node.tag))
    (admitted : node.isStatement = false)
    (fields : exprFields library (exprWithin library form (room - 1)) json node = .ok e) :
    exprWithin library form room json = .ok e := by
  obtain ⟨rest, rfl⟩ := Nat.exists_eq_add_of_le' fits
  exact tagged_eq_ok.mpr ⟨node, tag, by simp [admitted], fields⟩

/-- An expression that is described and not too deep is read. -/
theorem DescribesExpr.exprWithin {json : Json} {e : Expr}
    (described : DescribesExpr library.integer json e) (form : Form) {room : Nat}
    (fits : e.depth ≤ room) :
    exprWithin library form room json = .ok e := by
  have roomy : 0 < room := Nat.lt_of_lt_of_le e.depth_pos fits
  induction described generalizing room with
  | lit tag given stands =>
    exact exprWithin_of_fields .literal roomy tag rfl (by simp [exprFields, given, stands])
  | var tag given named =>
    exact exprWithin_of_fields .variableRef roomy tag rfl (by simp [exprFields, given, named])
  | @load _ _ address tag given nested ih =>
    simp only [Expr.depth] at fits
    have below : Model.exprWithin library form (room - 1) _ = .ok address :=
      ih (by omega) (by have := address.depth_pos; omega)
    exact exprWithin_of_fields .load roomy tag rfl (by simp [exprFields, given, below])
  | @binary _ _ _ op left right tag operator givenLeft nestedLeft givenRight nestedRight ihLeft
      ihRight =>
    simp only [Expr.depth] at fits
    have deepLeft := left.depth_pos
    have deepRight := right.depth_pos
    have leftRead : Model.exprWithin library form (room - 1) _ = .ok left :=
      ihLeft (by omega) (by omega)
    have rightRead : Model.exprWithin library form (room - 1) _ = .ok right :=
      ihRight (by omega) (by omega)
    exact exprWithin_of_fields .binary roomy tag rfl
      (by simp [exprFields, operator, givenLeft, givenRight, leftRead, rightRead])
  | @unary _ _ op operand tag operator given nested ih =>
    simp only [Expr.depth] at fits
    have below : Model.exprWithin library form (room - 1) _ = .ok operand :=
      ih (by omega) (by have := operand.depth_pos; omega)
    exact exprWithin_of_fields .unary roomy tag rfl (by simp [exprFields, operator, given, below])
  | input tag given named =>
    exact exprWithin_of_fields .getInput roomy tag rfl
      (by simp [exprFields, optional, given, named])
  | standardInput tag absent =>
    exact exprWithin_of_fields .getInput roomy tag rfl
      (by simp [exprFields, optional, absent, Expr.defaultSource])

/-- An expression is read exactly if it is described and not too deep. -/
theorem exprWithin_eq_ok {form : Form} {room : Nat} {json : Json} {e : Expr} :
    exprWithin library form room json = .ok e ↔
      DescribesExpr library.integer json e ∧ e.depth ≤ room :=
  ⟨describes_of_exprWithin, fun ⟨described, fits⟩ => described.exprWithin form fits⟩

/-- A statement that is read is described, and no expression in it is too deep. -/
theorem describes_of_stmt {form : Form} {json : Json} {s : Stmt}
    (read : stmt library form json = .ok s) :
    DescribesStmt library.integer json s ∧ s.depth ≤ library.room + 1 := by
  obtain ⟨node, tag, admitted, fields⟩ := tagged_eq_ok.mp read
  cases node with
  | assignment =>
    simp only [stmtFields, both_eq_ok, required_eq_ok, here_eq_ok, name_eq_ok, expr,
      exprWithin_eq_ok] at fields
    obtain ⟨x, value, ⟨_, target, rfl, named⟩, ⟨v, given, nested, fits⟩, rfl⟩ := fields
    exact ⟨.assign tag target named given nested, Nat.succ_le_succ fits⟩
  | store =>
    simp only [stmtFields, both_eq_ok, required_eq_ok, expr, exprWithin_eq_ok] at fields
    obtain ⟨address, value, ⟨a, givenAddress, nestedAddress, fitsAddress⟩,
      ⟨v, givenValue, nestedValue, fitsValue⟩, rfl⟩ := fields
    exact ⟨.store tag givenAddress nestedAddress givenValue nestedValue,
      Nat.succ_le_succ (Nat.max_le.mpr ⟨fitsAddress, fitsValue⟩)⟩
  | goto =>
    simp only [stmtFields, apply_eq_ok, required_eq_ok, expr, exprWithin_eq_ok] at fields
    obtain ⟨target, ⟨t, given, nested, fits⟩, rfl⟩ := fields
    exact ⟨.goto tag given nested, Nat.succ_le_succ fits⟩
  | assert =>
    simp only [stmtFields, apply_eq_ok, required_eq_ok, expr, exprWithin_eq_ok] at fields
    obtain ⟨condition, ⟨c, given, nested, fits⟩, rfl⟩ := fields
    exact ⟨.assert tag given nested, Nat.succ_le_succ fits⟩
  | ifGoto =>
    simp only [stmtFields, both_eq_ok, required_eq_ok, expr, exprWithin_eq_ok] at fields
    obtain ⟨condition, _, ⟨c, givenCondition, nestedCondition, fitsCondition⟩,
      ⟨thenTarget, elseTarget, ⟨t, givenThen, nestedThen, fitsThen⟩,
        ⟨e, givenElse, nestedElse, fitsElse⟩, rfl⟩, rfl⟩ := fields
    refine ⟨.branch tag givenCondition nestedCondition givenThen nestedThen givenElse nestedElse,
      Nat.succ_le_succ ?_⟩
    exact Nat.max_le.mpr ⟨fitsCondition, Nat.max_le.mpr ⟨fitsThen, fitsElse⟩⟩
  | literal | variableRef | load | binary | unary | getInput => cases admitted

/-- A statement that is described is read if no expression in it is too deep. -/
theorem DescribesStmt.stmt {json : Json} {s : Stmt}
    (described : DescribesStmt library.integer json s) (form : Form)
    (fits : s.depth ≤ library.room + 1) : stmt library form json = .ok s := by
  have part {json : Json} {e : Expr} (nested : DescribesExpr library.integer json e)
      (fits : e.depth ≤ library.room) : Model.expr library form json = .ok e :=
    nested.exprWithin form fits
  cases described with
  | assign tag target named given nested =>
    simp only [Stmt.depth, Nat.add_le_add_iff_right] at fits
    exact tagged_eq_ok.mpr ⟨.assignment, tag, rfl,
      by simp [stmtFields, target, named, given, part nested fits]⟩
  | store tag givenAddress nestedAddress givenValue nestedValue =>
    simp only [Stmt.depth, Nat.add_le_add_iff_right, Nat.max_le] at fits
    exact tagged_eq_ok.mpr ⟨.store, tag, rfl, by simp [stmtFields, givenAddress, givenValue,
      part nestedAddress fits.1, part nestedValue fits.2]⟩
  | goto tag given nested =>
    simp only [Stmt.depth, Nat.add_le_add_iff_right] at fits
    exact tagged_eq_ok.mpr ⟨.goto, tag, rfl, by simp [stmtFields, given, part nested fits]⟩
  | assert tag given nested =>
    simp only [Stmt.depth, Nat.add_le_add_iff_right] at fits
    exact tagged_eq_ok.mpr ⟨.assert, tag, rfl, by simp [stmtFields, given, part nested fits]⟩
  | branch tag givenCondition nestedCondition givenThen nestedThen givenElse nestedElse =>
    simp only [Stmt.depth, Nat.add_le_add_iff_right, Nat.max_le] at fits
    exact tagged_eq_ok.mpr ⟨.ifGoto, tag, rfl, by simp [stmtFields, givenCondition, givenThen,
      givenElse, part nestedCondition fits.1, part nestedThen fits.2.1, part nestedElse fits.2.2]⟩

/-- Statements are read exactly if each of them is described and not too deep. -/
theorem stmtsFrom_eq_ok {form : Form} {index : Nat} {items : List Json} {stmts : List Stmt} :
    stmtsFrom library form index items = .ok stmts ↔
      List.Forall₂ (DescribesStmt library.integer) items stmts ∧
        ∀ s ∈ stmts, s.depth ≤ library.room + 1 := by
  induction items generalizing index stmts with
  | nil =>
    simp only [stmtsFrom, Except.ok.injEq, List.forall₂_nil_left_iff]
    constructor
    · rintro rfl
      exact ⟨rfl, nofun⟩
    · rintro ⟨rfl, -⟩
      rfl
  | cons json items ih =>
    simp only [stmtsFrom, both_eq_ok, under_eq_ok, ih]
    constructor
    · rintro ⟨s, others, read, ⟨each, fit⟩, rfl⟩
      obtain ⟨described, fits⟩ := describes_of_stmt read
      exact ⟨.cons described each, List.forall_mem_cons.mpr ⟨fits, fit⟩⟩
    · rintro ⟨each, fit⟩
      cases each with
      | cons described others =>
        obtain ⟨fits, othersFit⟩ := List.forall_mem_cons.mp fit
        exact ⟨_, _, described.stmt form fits, ⟨others, othersFit⟩, rfl⟩

/-- A program is read exactly if it is described and none of its statements is too deep. -/
theorem program_eq_ok {form : Form} {json : Json} {p : Program} :
    program library form json = .ok p ↔
      Describes library.integer json p ∧ ∀ s ∈ p.statements, s.depth ≤ library.room + 1 := by
  constructor
  · intro read
    unfold program at read
    split at read
    · cases read
    · next object =>
      simp only [apply_eq_ok, optional_eq_ok] at read
      obtain ⟨stmts, ⟨absent, rfl⟩ | ⟨value, given, listed⟩, rfl⟩ := read
      · exact ⟨.empty (by simpa using object) absent, by simp⟩
      · cases value with
        | arr items =>
          obtain ⟨each, fit⟩ := stmtsFrom_eq_ok.mp listed
          exact ⟨.statements given each, fit⟩
        | null | bool _ | int _ | real _ | str _ | obj _ => cases listed
  · rintro ⟨described, fit⟩
    cases described with
    | statements given each =>
      have listed : stmtsFrom library form 0 _ = .ok _ := stmtsFrom_eq_ok.mpr ⟨each, fit⟩
      simp [program, isObject_of_field? given, optional, given, stmts, listed]
    | empty object absent => simp [program, object, optional, absent]

/-! ## Described programs are well formed -/

section

variable {integer : Json → Except Problem Int}

/-- A described expression is well formed at every depth. -/
theorem DescribesExpr.wellFormed {json : Json} {e : Expr}
    (described : DescribesExpr integer json e) : e.WellFormed := by
  induction described with
  | lit => trivial
  | var _ _ named => exact named
  | load _ _ _ ih => exact ih
  | binary _ _ _ _ _ _ ihLeft ihRight => exact ⟨ihLeft, ihRight⟩
  | unary _ _ _ _ ih => exact ih
  | input _ _ named => exact named
  | standardInput => exact (by decide : Name.isName "stdin" = true)

/-- A described statement is well formed. -/
theorem DescribesStmt.wellFormed {json : Json} {s : Stmt}
    (described : DescribesStmt integer json s) : s.WellFormed := by
  cases described with
  | assign _ _ named _ nested => exact ⟨named, nested.wellFormed⟩
  | store _ _ nestedAddress _ nestedValue =>
    exact ⟨nestedAddress.wellFormed, nestedValue.wellFormed⟩
  | goto _ _ nested => exact nested.wellFormed
  | assert _ _ nested => exact nested.wellFormed
  | branch _ _ nestedCondition _ nestedThen _ nestedElse =>
    exact ⟨nestedCondition.wellFormed, nestedThen.wellFormed, nestedElse.wellFormed⟩

/-- A described program is well formed. -/
theorem Describes.wellFormed {json : Json} {p : Program} (described : Describes integer json p) :
    p.WellFormed := by
  cases described with
  | statements given each =>
    clear given
    induction each with
    | nil => exact nofun
    | cons first _ ih => exact List.forall_mem_cons.mpr ⟨first.wellFormed, ih⟩
  | empty => exact nofun

end

end Model

end FlatIL
