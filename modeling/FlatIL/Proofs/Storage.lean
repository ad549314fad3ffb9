import FlatIL.Model.Standard
import FlatIL.Model.Write
import FlatIL.Proofs.Json
import FlatIL.Proofs.Model

/-!
# Stored programs are read back

A well-formed program is described by the value it is written as, so a program is what its text is
read as wherever the library gives a value a text and reads that text as the value. How deep it
does either is up to the library; nothing else is ever read from the text of a program.
-/

namespace FlatIL

/-! ## The value of a program -/

namespace Model

variable {integer : Json → Except Problem Int}

/-- A well-formed expression is described by the value it is written as, if an integer stands for
itself. -/
theorem describesExpr_toJson (plain : ∀ n, integer (.int n) = .ok n) {e : Expr}
    (wellFormed : e.WellFormed) : DescribesExpr integer e.toJson e := by
  induction e with
  | lit w => exact .lit rfl rfl (plain w.toNat)
  | var x => exact .var rfl rfl wellFormed
  | load address ih => exact .load rfl rfl (ih wellFormed)
  | binary op left right ihLeft ihRight =>
    exact .binary rfl rfl rfl (ihLeft wellFormed.1) rfl (ihRight wellFormed.2)
  | unary op operand ih => exact .unary rfl rfl rfl (ih wellFormed)
  | input source => exact .input rfl rfl wellFormed

/-- A well-formed statement is described by the value it is written as. -/
theorem describesStmt_toJson (plain : ∀ n, integer (.int n) = .ok n) {s : Stmt}
    (wellFormed : s.WellFormed) : DescribesStmt integer s.toJson s := by
  have part {e : Expr} (inside : e.WellFormed) : DescribesExpr integer e.toJson e :=
    describesExpr_toJson plain inside
  cases s with
  | assign x value => exact .assign rfl rfl wellFormed.1 rfl (part wellFormed.2)
  | store address value => exact .store rfl rfl (part wellFormed.1) rfl (part wellFormed.2)
  | goto target => exact .goto rfl rfl (part wellFormed)
  | assert condition => exact .assert rfl rfl (part wellFormed)
  | branch condition thenTarget elseTarget =>
    exact .branch rfl rfl (part wellFormed.1) rfl (part wellFormed.2.1) rfl (part wellFormed.2.2)

/-- A well-formed program is described by the value it is written as. -/
theorem describes_toJson (plain : ∀ n, integer (.int n) = .ok n) {p : Program}
    (wellFormed : p.WellFormed) : Describes integer p.toJson p := by
  refine .statements rfl ?_
  rw [List.forall₂_map_left_iff, List.forall₂_same]
  exact fun s inside => describesStmt_toJson plain (wellFormed s inside)

end Model

/-! ## The text of a program -/

/-- A word is short enough to be read. -/
theorem Word.legible (w : Word) : (Json.int w.toNat).Legible := by
  have small : w.toNat < 10 ^ (9 + 1) := Nat.lt_trans w.toNat_lt (by decide)
  have length := Decimal.length_digits_le small
  have limit : 9 + 1 ≤ Decimal.digitLimit := by decide
  refine .int ?_
  simp only [Decimal.ofInt, Decimal.ofNat, String.toList_ofList]
  omega

/-- The text of an expression can be read. -/
theorem Expr.legible_toJson (e : Expr) : e.toJson.Legible := by
  induction e with
  | lit w => exact .obj (by simp [Json.Legible.str, w.legible])
  | var x => exact .obj (by simp [Json.Legible.str])
  | load address ih => exact .obj (by simp [Json.Legible.str, ih])
  | binary op left right ihLeft ihRight =>
    exact .obj (by simp [Json.Legible.str, ihLeft, ihRight])
  | unary op operand ih => exact .obj (by simp [Json.Legible.str, ih])
  | input source => exact .obj (by simp [Json.Legible.str])

/-- The text of a statement can be read. -/
theorem Stmt.legible_toJson (s : Stmt) : s.toJson.Legible := by
  cases s <;> exact .obj (by simp [Json.Legible.str, Expr.legible_toJson])

/-- The text of a program can be read. -/
theorem Program.legible_toJson (p : Program) : p.toJson.Legible := by
  have items : (Json.arr (p.statements.map Stmt.toJson)).Legible :=
    .arr (by simp [Stmt.legible_toJson])
  exact .obj (by simp [items])

/-- An expression is nested as deep as it has nodes on one way down. -/
theorem Expr.nesting_toJson (e : Expr) : e.toJson.nesting = e.depth := by
  induction e with
  | lit w => rfl
  | var x => rfl
  | load address ih => simp [toJson, Json.nesting, Json.fieldsNesting, depth, ih]
  | binary op left right ihLeft ihRight =>
    simp [toJson, Json.nesting, Json.fieldsNesting, depth, ihLeft, ihRight]
  | unary op operand ih => simp [toJson, Json.nesting, Json.fieldsNesting, depth, ih]
  | input source => rfl

/-- A statement is nested as deep as it has nodes on one way down. -/
theorem Stmt.nesting_toJson (s : Stmt) : s.toJson.nesting = s.depth := by
  cases s <;> simp [toJson, Json.nesting, Json.fieldsNesting, depth, Expr.nesting_toJson]

/-- No statement of a program has more than `limit` nodes on one way down. -/
def Program.Shallow (limit : Nat) (p : Program) : Prop :=
  ∀ s ∈ p.statements, s.depth ≤ limit

namespace Program

/-- What is shallow within a limit is shallow within a larger one. -/
theorem Shallow.mono {p : Program} {small large : Nat} (shallow : p.Shallow small)
    (le : small ≤ large) : p.Shallow large :=
  fun s inside => Nat.le_trans (shallow s inside) le

/-- Two containers stand around each statement. -/
theorem nesting_toJson_le (p : Program) (limit : Nat) :
    p.toJson.nesting ≤ limit + 2 ↔ p.Shallow limit := by
  obtain ⟨stmts⟩ := p
  simp only [toJson, Json.nesting, Json.fieldsNesting, Shallow]
  induction stmts with
  | nil => simp [Json.itemsNesting]
  | cons s stmts ih => simp_all [Json.itemsNesting_cons_le, Stmt.nesting_toJson]

/-- A program is at least as shallow as the value it is written as. -/
theorem shallow_nesting (p : Program) : p.Shallow p.toJson.nesting :=
  (p.nesting_toJson_le p.toJson.nesting).mp (Nat.le_add_right _ 2)

end Program

namespace Model

/-! ## One value, one program -/

/-- A value describes at most one program. -/
theorem Describes.unique {integer : Json → Except Problem Int} {json : Json} {p q : Program}
    (first : Describes integer json p) (second : Describes integer json q) : p = q := by
  -- A value that is described is read with room enough, and what is read is one program.
  let library : Library :=
    { integer, room := max p.toJson.nesting q.toJson.nesting, read := fun _ => none,
      write := fun _ => .error .tooDeep }
  have firstRead : program library .value json = .ok p :=
    program_eq_ok.mpr ⟨first, p.shallow_nesting.mono (by simp only [library]; omega)⟩
  have secondRead : program library .value json = .ok q :=
    program_eq_ok.mpr ⟨second, q.shallow_nesting.mono (by simp only [library]; omega)⟩
  exact Except.ok.inj (firstRead.symm.trans secondRead)

/-! ## What is relied on -/

/-- What is relied on of a library that writes values nested at most `writing` deep and reads texts
nested at most `reading` deep. -/
structure Library.Lawful (library : Library) (writing reading : Nat) : Prop where
  /-- An integer stands for itself. -/
  integer (n : Int) : library.integer (.int n) = .ok n
  /-- A value that is not nested too deep has a text. -/
  writes {value : Json} (shallow : value.nesting ≤ writing) :
    ∃ text, library.write value = .ok text
  /-- The text of a value that is not nested too deep is read as the value. -/
  reads {value : Json} {text : String} (legible : value.Legible)
    (written : library.write value = .ok text) (shallow : value.nesting ≤ reading) :
    library.read text = some value
  /-- The text of a value is not read as any other. -/
  faithful {value other : Json} {text : String} (legible : value.Legible)
    (written : library.write value = .ok text) (read : library.read text = some other) :
    other = value

/-- What the standard library writes is the compact form. -/
theorem eq_compact_of_writeText {value : Json} {text : String}
    (written : writeText value = .ok text) : text = value.compact := by
  unfold writeText at written
  split at written
  · exact (Except.ok.inj written).symm
  · cases written

/-- The standard library keeps these laws. -/
theorem Library.standard_lawful : Library.standard.Lawful writeLimit Json.nestingLimit where
  integer _ := rfl
  writes shallow := ⟨_, if_pos shallow⟩
  reads := by
    intro value text legible written shallow
    obtain rfl := eq_compact_of_writeText written
    exact (legible.read?_compact _).trans (if_pos shallow)
  faithful := by
    intro value other text legible written read
    obtain rfl := eq_compact_of_writeText written
    have either := (legible.read?_compact Json.nestingLimit).symm.trans read
    split at either
    · exact (Option.some.inj either).symm
    · cases either

/-! ## Reading back -/

variable {library : Library} {writing reading : Nat}

/-- A program that is read from a value is read again from the value it is written as. -/
theorem Library.Lawful.program_toJson (lawful : library.Lawful writing reading) {p : Program}
    (wellFormed : p.WellFormed) (shallow : p.Shallow (library.room + 1)) (form : Form) :
    program library form p.toJson = .ok p :=
  program_eq_ok.mpr ⟨describes_toJson lawful.integer wellFormed, shallow⟩

/-- A program is read back from its text if it is too deep neither to be written nor to be read. -/
theorem Library.Lawful.ofText_dump (lawful : library.Lawful writing reading) {p : Program}
    (wellFormed : p.WellFormed) (written : p.toJson.nesting ≤ writing)
    (legible : p.toJson.nesting ≤ reading) (shallow : p.Shallow (library.room + 1)) :
    ∃ text, p.dump library = .ok text ∧ ofText library (program library) text = .ok p := by
  obtain ⟨text, dumped⟩ := lawful.writes written
  refine ⟨text, dumped, ?_⟩
  rw [ofText, lawful.reads p.legible_toJson dumped legible]
  exact lawful.program_toJson wellFormed shallow .text

/-- No other program is read from the text of a program. -/
theorem Library.Lawful.eq_of_ofText_dump (lawful : library.Lawful writing reading)
    {p q : Program} (wellFormed : p.WellFormed) {text : String}
    (dumped : p.dump library = .ok text)
    (read : ofText library (program library) text = .ok q) : q = p := by
  unfold ofText at read
  split at read
  · cases read
  · next other found =>
    obtain rfl := lawful.faithful p.legible_toJson dumped found
    exact (program_eq_ok.mp read).1.unique (describes_toJson lawful.integer wellFormed)

/-- A well-formed program is read back from its text as long as it is too deep neither for the
library's writer nor for its reader nor for its check, and nothing else is ever read from that
text. Whatever spelling of a program a value is, the program read from it is well formed, and it is
read back from its own value, and from the text of that within the limits of texts. -/
theorem stored_programs_read_back (lawful : library.Lawful writing reading) :
    (∀ p : Program, p.WellFormed →
      (p.toJson.nesting ≤ writing → p.toJson.nesting ≤ reading → p.Shallow (library.room + 1) →
        ∃ text, p.dump library = .ok text ∧ ofText library (program library) text = .ok p) ∧
      ∀ text q, p.dump library = .ok text → ofText library (program library) text = .ok q →
        q = p) ∧
    ∀ form v p, program library form v = .ok p →
      p.WellFormed ∧ (∀ again, program library again p.toJson = .ok p) ∧
      (p.toJson.nesting ≤ writing → p.toJson.nesting ≤ reading →
        ∃ text, p.dump library = .ok text ∧ ofText library (program library) text = .ok p) := by
  constructor
  · intro p wellFormed
    exact ⟨lawful.ofText_dump wellFormed,
      fun text q dumped read => lawful.eq_of_ofText_dump wellFormed dumped read⟩
  · intro form v p read
    obtain ⟨described, shallow⟩ := program_eq_ok.mp read
    have wellFormed := described.wellFormed
    refine ⟨wellFormed, lawful.program_toJson wellFormed shallow, ?_⟩
    intro written legible
    exact lawful.ofText_dump wellFormed written legible shallow

/-- A truth value, a number with a fraction and a text with blanks and underscores may stand for
literals, fields may stand in any order beside others, and the source of an input may be left out:
what such a value describes is well formed and read back from its own text. -/
theorem stored_programs_read_back_of_coerced :
    let v : Json := .obj [
      ("version", .null),
      ("statements", .arr [
        .obj [("value", .obj [("value", .bool true), ("kind", .str "literal")]),
          ("target", .str "x"), ("kind", .str "assignment")],
        .obj [("kind", .str "store"),
          ("address", .obj [("kind", .str "literal"), ("value", .real (.decimal 50 (-1)))]),
          ("value", .obj [("kind", .str "binary"), ("op", .str "ADD"),
            ("left", .obj [("kind", .str "get_input")]),
            ("right", .obj [("kind", .str "literal"), ("value", .str " +1_7 ")])])]])]
    let p : Program := ⟨[.assign "x" (.lit 1),
      .store (.lit 5) (.binary .add (.input "stdin") (.lit 17))]⟩
    Library.standard.Lawful writeLimit Json.nestingLimit ∧
      program .standard .value v = .ok p ∧ p.WellFormed ∧
      ∃ text, p.dump .standard = .ok text ∧ ofText .standard (program .standard) text = .ok p := by
  intro v p
  have read : program .standard .value v = .ok p := by decide +kernel
  have result := (stored_programs_read_back Library.standard_lawful).2 .value v p read
  exact ⟨Library.standard_lawful, read, result.1, result.2.2 (by decide) (by decide)⟩

/-- A program nested deeper than the standard library reads is not read back. -/
theorem not_read_of_nesting {p : Program} (deep : ¬p.toJson.nesting ≤ Json.nestingLimit) :
    ¬∃ text, p.dump .standard = .ok text ∧
      ofText .standard (program .standard) text = .ok p := by
  rintro ⟨text, dumped, read⟩
  obtain rfl := eq_compact_of_writeText dumped
  have refused : Library.standard.read p.toJson.compact = none :=
    (p.legible_toJson.read?_compact _).trans (if_neg deep)
  rw [ofText, refused] at read
  cases read

/-- A condition under 197 signs is nested too deep for its text to be read. -/
theorem deep_program_not_read_back :
    let p : Program := ⟨[.assert (Nat.repeat (.unary .neg) 197 (.lit 1))]⟩
    p.WellFormed ∧
      ¬∃ text, p.dump .standard = .ok text ∧
        ofText .standard (program .standard) text = .ok p := by
  intro p
  have signs (n : Nat) : (Nat.repeat (.unary .neg) n (.lit 1 : Expr)).depth = n + 1 := by
    induction n with
    | zero => rfl
    | succ n ih => rw [Nat.repeat, Expr.depth, ih]
  refine ⟨by decide, not_read_of_nesting fun shallow => ?_⟩
  -- Two containers stand around the statement, which leaves 198 of the 200 that are read.
  have fits := (p.nesting_toJson_le 198).mp shallow _ List.mem_cons_self
  rw [Stmt.depth, signs] at fits
  exact absurd fits (by decide)

end Model

end FlatIL
