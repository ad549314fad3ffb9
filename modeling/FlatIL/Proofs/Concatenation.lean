import FlatIL.Proofs.Relocation

/-!
# Programs one after the other

A line feed ends whatever a text ends with, a comment included, and a statement goes on nothing
that stands before it. So the text of one program, a line feed and the text of another are the text
of the statements of both.
-/

namespace FlatIL

open TokenStream

/-- Statements that are spelled one after the other are spelled together. -/
theorem Grammar.Statements.append {tokens others : List Token} {ss ss' : List Stmt}
    (first : Statements tokens ss) (second : Statements others ss') :
    Statements (tokens ++ others) (ss ++ ss') := by
  induction first with
  | nil => exact second
  | cons statement rest ih =>
    rw [List.append_assoc]
    exact .cons statement ih

/-- A text, a line feed and another text are scanned as the tokens of the one and those of the other
in other places. -/
theorem TokenStream.Scans.joined {text more : List Char} {tokens others : List Token}
    (first : Scans {} text tokens) (second : Scans {} more others) :
    ∃ moved, Scans {} (text ++ '\n' :: more) (tokens ++ moved) ∧
      moved.map Token.unplaced = others.map Token.unplaced := by
  obtain ⟨moved, scans, same⟩ := second.relocate ((Location.advance {} text).next '\n')
  have feed : ∀ c ∈ ('\n' :: more).head?, c = '\n' := fun c first => (Option.some.inj first).symm
  exact ⟨moved, first.append feed (.gap (by decide) scans), same⟩

/-- The text of a program, a line feed and the text of another program are the text of the
statements of the first and those of the second. -/
theorem Program.parse_concatenation {first second : String} {p q : Program}
    (parsed : Program.parse first = .ok p) (parsed' : Program.parse second = .ok q) :
    Program.parse (first ++ "\n" ++ second) = .ok ⟨p.statements ++ q.statements⟩ := by
  obtain ⟨tokens, scans, spelled⟩ := Parser.exact_program.ofText_eq_ok_iff.mp parsed
  obtain ⟨others, scans', spelled'⟩ := Parser.exact_program.ofText_eq_ok_iff.mp parsed'
  obtain ⟨moved, together, same⟩ := scans.joined scans'
  refine Parser.exact_program.ofText_eq_ok_iff.mpr ⟨tokens ++ moved, by simpa using together, ?_⟩
  exact Grammar.Statements.append spelled (spelled'.relocate same)

/-- The first text ends with an input read that names no source and with a comment. -/
theorem Program.parse_concatenation_of_comment :
    let first := "x := get_input # ("
    let second := "assert(x)"
    let p : Program := ⟨[.assign "x" (.input "stdin")]⟩
    let q : Program := ⟨[.assert (.var "x")]⟩
    Program.parse first = .ok p ∧ Program.parse second = .ok q ∧
      Program.parse (first ++ "\n" ++ second) = .ok ⟨p.statements ++ q.statements⟩ := by
  intro first second p q
  have parsed : Program.parse first = .ok p := by decide +kernel
  have parsed' : Program.parse second = .ok q := by decide +kernel
  exact ⟨parsed, parsed', parse_concatenation parsed parsed'⟩

end FlatIL
