import FlatIL.Draft.Check
import FlatIL.Draft.Render
import FlatIL.Proofs.Model
import FlatIL.Proofs.Refusal

/-!
# Drafts that are trees

A draft of nodes and operators that exist is a tree of the language but for its names and its
literals, which may be anything. It is written down as such a tree is: the first name that is none
of the language is refused, and without such a name its text is that of plain recursion. A draft
whose literals are words as well is a program, and is written down as the program is.
-/

namespace FlatIL

open Render (RefusesFirst outcome outcome_bind outcome_map refusesFirst_outcome)

namespace Draft

/-- `Sketches draft names text`: the draft is an expression of nodes and operators that exist, with
any text as a name and any plain value as a literal, and these are the names in the order they are
written and the text by plain recursion. -/
inductive Sketches : Draft → List String → String → Prop where
  | literal {fields : List (String × Draft)} {value : Json}
      (holds : lookup "value" fields = some (plain value)) :
      Sketches (node .literal NodeForm.literal.tag fields) [] (plainText value)
  | variableRef {fields : List (String × Draft)} {name : String}
      (holds : lookup "name" fields = some (plain (.str name))) :
      Sketches (node .variableRef NodeForm.variableRef.tag fields) [name] name
  | getInput {fields : List (String × Draft)} {source : String}
      (holds : lookup "source" fields = some (plain (.str source))) :
      Sketches (node .getInput NodeForm.getInput.tag fields) [source] (Render.inputText source)
  | load {fields : List (String × Draft)} {address : Draft} {names : List String} {text : String}
      (holds : lookup "address" fields = some address) (sketches : Sketches address names text) :
      Sketches (node .load NodeForm.load.tag fields) names (Render.loadText text)
  | unary {fields : List (String × Draft)} {op : UnaryOp} {operand : Draft} {names : List String}
      {text : String} (known : lookup "op" fields = some (plain (.str op.name)))
      (holds : lookup "operand" fields = some operand) (sketches : Sketches operand names text) :
      Sketches (node .unary NodeForm.unary.tag fields) names
        (Render.unaryText op operand.precedence text)
  | binary {fields : List (String × Draft)} {op : BinaryOp} {left right : Draft}
      {names others : List String} {text more : String}
      (known : lookup "op" fields = some (plain (.str op.name)))
      (holdsLeft : lookup "left" fields = some left)
      (holdsRight : lookup "right" fields = some right)
      (sketchesLeft : Sketches left names text) (sketchesRight : Sketches right others more) :
      Sketches (node .binary NodeForm.binary.tag fields) (names ++ others)
        (Render.binaryText op left.precedence right.precedence text more)

/-- A name in a draft is refused or written as it is. -/
theorem renderName_eq_outcome (name : String) :
    renderName name = outcome (.render ∘ .badName) [name] name := by
  rw [renderName, Render.name_eq_outcome, Render.mapError_outcome]

section

variable {form : NodeForm} {tag name : String} {fields : List (String × Draft)}

/-- A plain field is read as its text. -/
theorem textField_of_lookup {value : Json} (holds : lookup name fields = some (plain value)) :
    textField name (node form tag fields) = plainText value := by
  simp [textField, plainField?, field?, holds]

/-- A field that is there is found. -/
theorem required_of_lookup {value : Draft} (holds : lookup name fields = some value) :
    (node form tag fields).required name = .ok value := by
  simp only [required, field?, holds]

/-- The text of a plain field that is there is found. -/
theorem requiredText_of_lookup {value : Json} (holds : lookup name fields = some (plain value)) :
    (node form tag fields).requiredText name = .ok (plainText value) := by
  rw [requiredText, required_of_lookup holds, textField_of_lookup holds]
  rfl

/-- A unary operator that exists is put in front of the text of its operand. -/
theorem renderNode_unary {op : UnaryOp} {operand : Draft}
    (known : lookup "op" fields = some (plain (.str op.name)))
    (holds : lookup "operand" fields = some operand) (part : String) :
    (node .unary tag fields).renderNode [part] rfl =
      .ok (Render.unaryText op operand.precedence part) := by
  have found := Model.unaryOfName?_eq_some.mpr (rfl : op.name = op.name)
  simp only [renderNode, required_of_lookup holds, requiredText_of_lookup known, plainText,
    bind, Except.bind, found]

/-- A binary operator that exists is put between the texts of its operands. -/
theorem renderNode_binary {op : BinaryOp} {left right : Draft}
    (known : lookup "op" fields = some (plain (.str op.name)))
    (holdsLeft : lookup "left" fields = some left)
    (holdsRight : lookup "right" fields = some right) (first second : String) :
    (node .binary tag fields).renderNode [first, second] rfl =
      .ok (Render.binaryText op left.precedence right.precedence first second) := by
  have found := Model.binaryOfName?_eq_some.mpr (rfl : op.name = op.name)
  simp only [renderNode, required_of_lookup holdsLeft, required_of_lookup holdsRight,
    requiredText_of_lookup known, plainText, bind, Except.bind, found]
  rfl

/-- A field that is there is written down as an expression. -/
theorem renderField_of_lookup {value : Draft} (holds : lookup name fields = some value) :
    (node form tag fields).renderField name = value.renderExpr := by
  rw [renderField, required_of_lookup holds]
  rfl

/-- What is held under a name is fetched in front of what is held under others. -/
theorem fetch_of_lookup {names : List String} {name : String} {value : Draft}
    {others : List Draft} (holds : lookup name fields = some value)
    (rest : (node form tag fields).fetch names = .ok others) :
    (node form tag fields).fetch (name :: names) = .ok (value :: others) := by
  simp only [fetch, field?, holds, rest, Except.map]

/-! ## The work list -/

variable {pending : List Pending} {rendered : List String}

/-- Working through a draft that is an expression is leaving its text on the stack, unless a name in
it is refused, and going on with what is pending. -/
theorem Sketches.walk_eq {draft : Draft} {names : List String} {text : String}
    (sketches : draft.Sketches names text)
    (balanced : Pending.Balanced renderAlgebra ({ draft } :: pending) rendered.length) :
    walk renderAlgebra ({ draft } :: pending) rendered balanced =
      outcome (.render ∘ .badName) names text >>= fun text =>
        walk renderAlgebra pending (text :: rendered) balanced.2 := by
  induction sketches generalizing pending rendered with
  | literal holds =>
    rw [walk_ready rfl rfl balanced]
    congr 1
    exact requiredText_of_lookup holds
  | @variableRef fields name holds =>
    have written : (node .variableRef NodeForm.variableRef.tag fields).renderNode [] rfl =
        outcome (.render ∘ .badName) [name] name := by
      simp only [renderNode, requiredText_of_lookup holds]
      exact renderName_eq_outcome name
    rw [walk_ready rfl rfl balanced]
    exact congrArg (· >>= _) written
  | @getInput fields source holds =>
    have written : (node .getInput NodeForm.getInput.tag fields).renderNode [] rfl =
        outcome (.render ∘ .badName) [source] (Render.inputText source) := by
      simp only [renderNode, requiredText_of_lookup holds]
      rw [← outcome_map, ← renderName_eq_outcome]
      rfl
    rw [walk_ready rfl rfl balanced]
    exact congrArg (· >>= _) written
  | @load fields address names text holds _ ih =>
    have fetched : (node .load NodeForm.load.tag fields).fetch ["address"] = .ok [address] :=
      fetch_of_lookup holds rfl
    rw [walk_waits fetched rfl balanced, ← outcome_map, bind_map_left]
    refine (ih _).trans ?_
    congr 1; funext part
    exact walk_ready fetched rfl _
  | @unary fields op operand names text known holds _ ih =>
    have fetched : (node .unary NodeForm.unary.tag fields).fetch ["operand"] = .ok [operand] :=
      fetch_of_lookup holds rfl
    rw [walk_waits fetched rfl balanced, ← outcome_map, bind_map_left]
    refine (ih _).trans ?_
    congr 1; funext part
    refine (walk_ready fetched rfl _).trans ?_
    exact congrArg (· >>= _) (renderNode_unary known holds part)
  | @binary fields op left right names others text more known holdsLeft holdsRight _ _ ihLeft
      ihRight =>
    have fetched :
        (node .binary NodeForm.binary.tag fields).fetch ["left", "right"] = .ok [left, right] :=
      fetch_of_lookup holdsLeft (fetch_of_lookup holdsRight rfl)
    have joined :
        (outcome (.render ∘ .badName) names text >>= fun first =>
          Render.binaryText op left.precedence right.precedence first <$>
            outcome (.render ∘ .badName) others more) =
          outcome (DraftError.render ∘ .badName) (names ++ others)
            (Render.binaryText op left.precedence right.precedence text more) :=
      outcome_bind names (outcome_map _)
    rw [walk_waits fetched rfl balanced, ← joined, bind_assoc]
    refine (ihLeft _).trans ?_
    congr 1; funext first
    rw [bind_map_left]
    refine (ihRight _).trans ?_
    congr 1; funext second
    refine (walk_ready fetched rfl _).trans ?_
    exact congrArg (· >>= _) (renderNode_binary known holdsLeft holdsRight first second)

/-- A draft that is an expression is written down as its text, unless a name in it is refused. -/
theorem Sketches.renderExpr_eq {draft : Draft} {names : List String} {text : String}
    (sketches : draft.Sketches names text) :
    draft.renderExpr = outcome (.render ∘ .badName) names text := by
  calc draft.renderExpr
      = outcome (.render ∘ .badName) names text >>= fun text =>
          walk renderAlgebra [] [text] rfl := sketches.walk_eq _
    _ = outcome (.render ∘ .badName) names text >>= pure := by
      congr 1; funext text
      exact walk_done _
    _ = outcome (.render ∘ .badName) names text := bind_pure _

end

/-- An operand that is missing is told before anything in the others is looked at. -/
theorem renderExpr_of_missing {draft : Draft} {name : String}
    (missing : draft.fetch (renderAlgebra.names draft) = .error name) :
    draft.renderExpr = .error (.noField name) :=
  walk_missing missing _

/-- `SketchesStmt draft names text`: the draft is a statement of nodes and operators that exist,
with the names and the text given. -/
inductive SketchesStmt : Draft → List String → String → Prop where
  | assignment {fields : List (String × Draft)} {target : String} {value : Draft}
      {names : List String} {text : String}
      (named : lookup "target" fields = some (plain (.str target)))
      (holds : lookup "value" fields = some value) (sketches : Sketches value names text) :
      SketchesStmt (node .assignment NodeForm.assignment.tag fields) (target :: names)
        (target ++ " := " ++ text)
  | store {fields : List (String × Draft)} {address value : Draft} {names others : List String}
      {text more : String} (holdsAddress : lookup "address" fields = some address)
      (holdsValue : lookup "value" fields = some value)
      (sketchesAddress : Sketches address names text) (sketchesValue : Sketches value others more) :
      SketchesStmt (node .store NodeForm.store.tag fields) (names ++ others)
        ("store(" ++ text ++ ", " ++ more ++ ")")
  | goto {fields : List (String × Draft)} {target : Draft} {names : List String} {text : String}
      (holds : lookup "target" fields = some target) (sketches : Sketches target names text) :
      SketchesStmt (node .goto NodeForm.goto.tag fields) names ("goto " ++ text)
  | assert {fields : List (String × Draft)} {condition : Draft} {names : List String}
      {text : String} (holds : lookup "condition" fields = some condition)
      (sketches : Sketches condition names text) :
      SketchesStmt (node .assert NodeForm.assert.tag fields) names ("assert " ++ text)
  | ifGoto {fields : List (String × Draft)} {condition thenTarget elseTarget : Draft}
      {names thenNames elseNames : List String} {text thenText elseText : String}
      (holds : lookup "condition" fields = some condition)
      (holdsThen : lookup "then_target" fields = some thenTarget)
      (holdsElse : lookup "else_target" fields = some elseTarget)
      (sketches : Sketches condition names text)
      (sketchesThen : Sketches thenTarget thenNames thenText)
      (sketchesElse : Sketches elseTarget elseNames elseText) :
      SketchesStmt (node .ifGoto NodeForm.ifGoto.tag fields) (names ++ (thenNames ++ elseNames))
        ("if " ++ text ++ " then goto " ++ thenText ++ " else goto " ++ elseText)

/-- A draft that is a statement is written down as its text, unless a name in it is refused. -/
theorem SketchesStmt.renderStmt_eq {draft : Draft} {names : List String} {text : String}
    (sketches : draft.SketchesStmt names text) :
    draft.renderStmt = outcome (.render ∘ .badName) names text := by
  cases sketches with
  | @assignment fields target value names text named holds sketches =>
    rw [renderStmt, requiredText_of_lookup named, renderField_of_lookup holds,
      sketches.renderExpr_eq, plainText]
    change renderName target >>= _ = _
    rw [renderName_eq_outcome]
    refine outcome_bind [target] ?_
    exact outcome_map (target ++ " := " ++ ·)
  | @store fields address value names others text more holdsAddress holdsValue sketchesAddress
      sketchesValue =>
    rw [renderStmt, renderField_of_lookup holdsAddress, renderField_of_lookup holdsValue,
      sketchesAddress.renderExpr_eq, sketchesValue.renderExpr_eq]
    refine outcome_bind _ ?_
    exact outcome_map ("store(" ++ text ++ ", " ++ · ++ ")")
  | goto holds sketches =>
    rw [renderStmt, renderField_of_lookup holds, sketches.renderExpr_eq]
    exact outcome_map ("goto " ++ ·)
  | assert holds sketches =>
    rw [renderStmt, renderField_of_lookup holds, sketches.renderExpr_eq]
    exact outcome_map ("assert " ++ ·)
  | @ifGoto fields condition thenTarget elseTarget names thenNames elseNames text thenText elseText
      holds holdsThen holdsElse sketches sketchesThen sketchesElse =>
    rw [renderStmt, renderField_of_lookup holds, renderField_of_lookup holdsThen,
      renderField_of_lookup holdsElse, sketches.renderExpr_eq, sketchesThen.renderExpr_eq,
      sketchesElse.renderExpr_eq]
    refine outcome_bind _ (outcome_bind _ ?_)
    exact outcome_map ("if " ++ text ++ " then goto " ++ thenText ++ " else goto " ++ ·)

/-- The tag of an expression sends it to where expressions are written down. -/
theorem Sketches.render_eq {draft : Draft} {names : List String} {text : String}
    (sketches : draft.Sketches names text) : draft.render = draft.renderExpr := by
  cases sketches <;> rfl

/-- The tag of a statement sends it to where statements are written down. -/
theorem SketchesStmt.render_eq {draft : Draft} {names : List String} {text : String}
    (sketches : draft.SketchesStmt names text) : draft.render = draft.renderStmt := by
  cases sketches <;> rfl

/-- `SketchesLines drafts names text`: the drafts are the statements of a program, with the names
and the text given. -/
inductive SketchesLines : List Draft → List String → String → Prop where
  | nil : SketchesLines [] [] ""
  | cons {first : Draft} {drafts : List Draft} {names others : List String} {text lines : String}
      (sketches : SketchesStmt first names text) (rest : SketchesLines drafts others lines) :
      SketchesLines (first :: drafts) (names ++ others) (text ++ "\n" ++ lines)

/-- Drafts that are a program are written down as its lines, unless a name in them is refused. -/
theorem SketchesLines.renderLines_eq {drafts : List Draft} {names : List String} {text : String}
    (sketches : SketchesLines drafts names text) :
    renderLines drafts = outcome (.render ∘ .badName) names text := by
  induction sketches with
  | nil => rfl
  | @cons first drafts names others text lines sketches rest ih =>
    rw [renderLines, sketches.renderStmt_eq, ih]
    refine outcome_bind _ ?_
    exact outcome_map (text ++ "\n" ++ ·)

/-! ## Drafts that are checked -/

/-- A draft with a form is a node of that form under its own tag. -/
theorem form?_eq_some {draft : Draft} {form : NodeForm} (is : draft.form? = some form) :
    ∃ fields, draft = node form form.tag fields := by
  cases draft with
  | plain value => cases is
  | node other tag fields =>
    by_cases agrees : tag = other.tag
    · rw [form?, if_pos agrees] at is
      obtain rfl := Option.some.inj is
      exact ⟨fields, by rw [agrees]⟩
    · rw [form?, if_neg agrees] at is
      cases is

section

variable {form : NodeForm} {tag name : String} {fields : List (String × Draft)}

/-- A plain field is held as such. -/
theorem lookup_of_plainField? {value : Json}
    (is : (node form tag fields).plainField? name = some value) :
    lookup name fields = some (plain value) := by
  unfold plainField? at is
  split at is
  · next found =>
    obtain rfl := Option.some.inj is
    exact found
  · cases is

/-- A field with a text is held as such. -/
theorem lookup_of_nameField? {text : String}
    (is : (node form tag fields).nameField? name = some text) :
    lookup name fields = some (plain (.str text)) := by
  unfold nameField? at is
  split at is
  · next found =>
    obtain rfl := Option.some.inj is
    exact lookup_of_plainField? found
  · cases is

/-- What comes of a field comes of one that is there. -/
theorem exists_of_withField? {α : Type} {result : α}
    {next : (value : Draft) → (node form tag fields).field? name = some value → Option α}
    (is : (node form tag fields).withField? name next = some result) :
    ∃ value, ∃ holds : lookup name fields = some value, next value holds = some result := by
  unfold withField? at is
  split at is
  · cases is
  · next value found => exact ⟨value, found, is⟩

end

/-- A draft that is checked as an expression is one, and binds as tightly. -/
theorem sketches_of_expr? {draft : Draft} {e : Expr} (is : draft.expr? = some e) :
    draft.Sketches e.names e.text ∧ draft.precedence = e.precedence := by
  fun_induction expr? draft generalizing e with
  | case1 draft form n value =>
    obtain ⟨fields, rfl⟩ := form?_eq_some form
    obtain ⟨w, word, rfl⟩ := Option.map_eq_some_iff.mp is
    have number : Json.int n = .int w.toNat := congrArg Json.int (Word.ofInt?_eq_some.mp word)
    have holds := lookup_of_plainField? value
    rw [number] at holds
    exact ⟨.literal holds, rfl⟩
  | case2 | case8 => cases is
  | case3 draft form =>
    obtain ⟨fields, rfl⟩ := form?_eq_some form
    obtain ⟨name, named, rfl⟩ := Option.map_eq_some_iff.mp is
    exact ⟨.variableRef (lookup_of_nameField? named), rfl⟩
  | case4 draft form =>
    obtain ⟨fields, rfl⟩ := form?_eq_some form
    obtain ⟨source, named, rfl⟩ := Option.map_eq_some_iff.mp is
    exact ⟨.getInput (lookup_of_nameField? named), rfl⟩
  | case5 draft form ih =>
    obtain ⟨fields, rfl⟩ := form?_eq_some form
    obtain ⟨address, holds, read⟩ := exists_of_withField? is
    obtain ⟨a, inner, rfl⟩ := Option.map_eq_some_iff.mp read
    exact ⟨.load holds (ih address holds inner).1, rfl⟩
  | case6 draft form ih =>
    obtain ⟨fields, rfl⟩ := form?_eq_some form
    obtain ⟨op, listed, more⟩ := Option.bind_eq_some_iff.mp is
    obtain ⟨operand, holds, read⟩ := exists_of_withField? more
    obtain ⟨v, inner, rfl⟩ := Option.map_eq_some_iff.mp read
    obtain ⟨name, named, found⟩ := Option.bind_eq_some_iff.mp listed
    obtain rfl := Model.unaryOfName?_eq_some.mp found
    obtain ⟨sketches, strength⟩ := ih operand holds inner
    have known := lookup_of_nameField? named
    have whole := Sketches.unary known holds sketches
    rw [strength] at whole
    exact ⟨whole, rfl⟩
  | case7 draft form ihLeft ihRight =>
    obtain ⟨fields, rfl⟩ := form?_eq_some form
    obtain ⟨op, listed, more⟩ := Option.bind_eq_some_iff.mp is
    obtain ⟨l, readLeft, more⟩ := Option.bind_eq_some_iff.mp more
    obtain ⟨r, readRight, built⟩ := Option.bind_eq_some_iff.mp more
    obtain rfl := Option.some.inj built
    obtain ⟨left, holdsLeft, innerLeft⟩ := exists_of_withField? readLeft
    obtain ⟨right, holdsRight, innerRight⟩ := exists_of_withField? readRight
    obtain ⟨name, named, found⟩ := Option.bind_eq_some_iff.mp listed
    obtain rfl := Model.binaryOfName?_eq_some.mp found
    obtain ⟨sketchesLeft, strengthLeft⟩ := ihLeft left holdsLeft innerLeft
    obtain ⟨sketchesRight, strengthRight⟩ := ihRight right holdsRight innerRight
    have known := lookup_of_nameField? named
    have whole := Sketches.binary known holdsLeft holdsRight sketchesLeft sketchesRight
    rw [strengthLeft, strengthRight] at whole
    refine ⟨whole, ?_⟩
    simp [precedence, textField_of_lookup known, plainText, found, Expr.precedence]

/-- A field that is checked as an expression is there and is one. -/
theorem sketches_of_exprField? {form : NodeForm} {tag name : String}
    {fields : List (String × Draft)} {e : Expr}
    (is : (node form tag fields).exprField? name = some e) :
    ∃ draft, lookup name fields = some draft ∧ draft.Sketches e.names e.text := by
  obtain ⟨draft, holds, inner⟩ := Option.bind_eq_some_iff.mp is
  exact ⟨draft, holds, (sketches_of_expr? inner).1⟩

/-- A draft that is checked as a statement is one. -/
theorem sketchesStmt_of_stmt? {draft : Draft} {s : Stmt} (is : draft.stmt? = some s) :
    draft.SketchesStmt s.names s.text := by
  unfold stmt? at is
  split at is
  · next form =>
    obtain ⟨fields, rfl⟩ := form?_eq_some form
    obtain ⟨target, named, more⟩ := Option.bind_eq_some_iff.mp is
    obtain ⟨value, read, built⟩ := Option.bind_eq_some_iff.mp more
    obtain rfl := Option.some.inj built
    obtain ⟨draft, holds, sketches⟩ := sketches_of_exprField? read
    exact .assignment (lookup_of_nameField? named) holds sketches
  · next form =>
    obtain ⟨fields, rfl⟩ := form?_eq_some form
    obtain ⟨address, readAddress, more⟩ := Option.bind_eq_some_iff.mp is
    obtain ⟨value, readValue, built⟩ := Option.bind_eq_some_iff.mp more
    obtain rfl := Option.some.inj built
    obtain ⟨first, holdsAddress, sketchesAddress⟩ := sketches_of_exprField? readAddress
    obtain ⟨second, holdsValue, sketchesValue⟩ := sketches_of_exprField? readValue
    exact .store holdsAddress holdsValue sketchesAddress sketchesValue
  · next form =>
    obtain ⟨fields, rfl⟩ := form?_eq_some form
    obtain ⟨target, read, built⟩ := Option.bind_eq_some_iff.mp is
    obtain rfl := Option.some.inj built
    obtain ⟨draft, holds, sketches⟩ := sketches_of_exprField? read
    exact .goto holds sketches
  · next form =>
    obtain ⟨fields, rfl⟩ := form?_eq_some form
    obtain ⟨condition, read, built⟩ := Option.bind_eq_some_iff.mp is
    obtain rfl := Option.some.inj built
    obtain ⟨draft, holds, sketches⟩ := sketches_of_exprField? read
    exact .assert holds sketches
  · next form =>
    obtain ⟨fields, rfl⟩ := form?_eq_some form
    obtain ⟨condition, read, more⟩ := Option.bind_eq_some_iff.mp is
    obtain ⟨thenTarget, readThen, more⟩ := Option.bind_eq_some_iff.mp more
    obtain ⟨elseTarget, readElse, built⟩ := Option.bind_eq_some_iff.mp more
    obtain rfl := Option.some.inj built
    obtain ⟨first, holds, sketches⟩ := sketches_of_exprField? read
    obtain ⟨second, holdsThen, sketchesThen⟩ := sketches_of_exprField? readThen
    obtain ⟨third, holdsElse, sketchesElse⟩ := sketches_of_exprField? readElse
    have whole :=
      SketchesStmt.ifGoto holds holdsThen holdsElse sketches sketchesThen sketchesElse
    rw [← List.append_assoc] at whole
    exact whole
  · cases is

/-- Drafts that are checked as a program are one. -/
theorem sketchesLines_of_program? {drafts : List Draft} {p : Program}
    (is : program? drafts = some p) :
    SketchesLines drafts p.names (Stmt.textLines p.statements) := by
  obtain ⟨statements, read, rfl⟩ := Option.map_eq_some_iff.mp is
  clear is
  induction drafts generalizing statements with
  | nil =>
    obtain rfl := Option.some.inj read
    exact .nil
  | cons first drafts ih =>
    rw [List.mapM_cons] at read
    obtain ⟨s, single, more⟩ := Option.bind_eq_some_iff.mp read
    obtain ⟨others, rest, built⟩ := Option.bind_eq_some_iff.mp more
    obtain rfl := Option.some.inj built
    exact .cons (sketchesStmt_of_stmt? single) (ih others rest)

end Draft

/-- Expressions, statements and programs with any texts as names, and drafts of nodes and operators
that exist, are written down as follows: this fails exactly if some name is none of the language,
then with the first such name in the order of writing, and gives the text of plain recursion
otherwise. Drafts that are checked as a program are written down as the program is. -/
theorem Render.first_bad_name_refused :
    (∀ e : Expr, RefusesFirst .badName e.names e.text e.render) ∧
      (∀ s : Stmt, RefusesFirst .badName s.names s.text s.render) ∧
      (∀ p : Program, RefusesFirst .badName p.names (Stmt.textLines p.statements) p.render) ∧
      (∀ draft names text, Draft.Sketches draft names text ∨ Draft.SketchesStmt draft names text →
        RefusesFirst (.render ∘ .badName) names text draft.render) ∧
      (∀ drafts names text, Draft.SketchesLines drafts names text →
        RefusesFirst (.render ∘ .badName) names text (Draft.renderLines drafts)) ∧
      ∀ drafts p, Draft.program? drafts = some p →
        Draft.renderLines drafts = p.render.mapError .render := by
  refine ⟨fun e => ?_, fun s => ?_, fun p => ?_, ?_, ?_, ?_⟩
  · rw [e.render_eq_outcome]
    exact refusesFirst_outcome _ _ _
  · rw [s.render_eq_outcome]
    exact refusesFirst_outcome _ _ _
  · rw [p.render_eq_outcome]
    exact refusesFirst_outcome _ _ _
  · rintro draft names text (sketches | sketches)
    · rw [sketches.render_eq, sketches.renderExpr_eq]
      exact refusesFirst_outcome _ _ _
    · rw [sketches.render_eq, sketches.renderStmt_eq]
      exact refusesFirst_outcome _ _ _
  · intro drafts names text sketches
    rw [sketches.renderLines_eq]
    exact refusesFirst_outcome _ _ _
  · intro drafts p checked
    rw [(Draft.sketchesLines_of_program? checked).renderLines_eq, p.render_eq_outcome,
      Render.mapError_outcome]

end FlatIL
