import FlatIL.Proofs.Parser.Predictive
import FlatIL.Proofs.RoundTrip
import Mathlib.Data.List.Basic

/-!
# What is parsed can be written down

The scanner and the parser promise what the checks of every node ask for: a token that is scanned
as a name is a name, and one that is scanned as an integer is a word. So no check ever fails, what
is parsed is well formed, and writing it down gives a text that is parsed as the same program,
within the same depth. A text that is not parsed is too deep, or it is refused at a place, but for
one whose digits in a row are too many.
-/

namespace FlatIL

open TokenStream

/-! ## Well-formed trees -/

namespace Grammar

/-- Valid tokens spell well-formed expressions. -/
theorem Derives.wellFormed {level : Nat} {tokens : List Token} {e : Expr}
    (derived : Derives level tokens e) (valid : Parser.AllValid tokens) : e.WellFormed := by
  induction derived with
  | tighter loose inner ih => exact ih valid
  | binary listed first second ihFirst ihSecond =>
    exact ⟨ihFirst valid.left, ihSecond valid.right.tail⟩
  | unary listed operand ih => exact ih valid.tail
  | integer isInteger denoted => exact trivial
  | name isName => exact (valid _ List.mem_cons_self).1 isName
  | load isLoad opens address closes ih => exact ih valid.tail.tail.left
  | input isInput => exact (by decide : Name.isName "stdin" = true)
  | @inputFrom word opening source closing isInput opens isName closes =>
    have here : source.Valid := valid source (by simp)
    exact here.1 isName
  | group opens inner closes ih => exact ih valid.tail.left

/-- Valid tokens spell well-formed targets. -/
theorem Target.wellFormed {tokens : List Token} {e : Expr} (target : Target tokens e)
    (valid : Parser.AllValid tokens) : e.WellFormed := by
  cases target with
  | bare derived => exact derived.wellFormed valid
  | goto isGoto derived => exact derived.wellFormed valid.tail

/-- Valid tokens spell well-formed statements. -/
theorem Statement.wellFormed {tokens : List Token} {s : Stmt} (spelled : Statement tokens s)
    (valid : Parser.AllValid tokens) : s.WellFormed := by
  cases spelled with
  | assign isName isAssign value =>
    exact ⟨(valid _ List.mem_cons_self).1 isName, value.wellFormed valid.tail.tail⟩
  | store isStore opens address isComma value closes =>
    have parts := valid.tail.tail
    exact ⟨address.wellFormed parts.left, value.wellFormed parts.right.tail.left⟩
  | goto isGoto target => exact target.wellFormed valid.tail
  | assert isAssert condition => exact condition.wellFormed valid.tail
  | branch isIf condition isThen thenTarget isElse elseTarget =>
    have targets := valid.tail.right.tail
    exact ⟨condition.wellFormed valid.tail.left, thenTarget.wellFormed targets.left,
      elseTarget.wellFormed targets.right.tail⟩

/-- Valid tokens spell well-formed programs. -/
theorem Statements.wellFormed {tokens : List Token} {ss : List Stmt}
    (spelled : Statements tokens ss) (valid : Parser.AllValid tokens) : ∀ s ∈ ss, s.WellFormed := by
  induction spelled with
  | nil => exact fun s inside => nomatch inside
  | cons first rest ih =>
    exact List.forall_mem_cons.mpr ⟨first.wellFormed valid.left, ih valid.right⟩

end Grammar

/-! ## Texts that are refused -/

/-- A whole run of digits of the text, as many as given. -/
def HasDigitRun (text : List Char) (count : Nat) : Prop :=
  ∃ before run behind, text = before ++ run ++ behind ∧ (∀ c ∈ run, c.isDigit = true) ∧
    (∀ c ∈ before.getLast?, c.isDigit = false) ∧ (∀ c ∈ behind.head?, c.isDigit = false) ∧
    run.length = count

/-- A text that is not scanned is refused at a place, or has a run of too many digits. -/
theorem TokenStream.scan_eq_error {text : String} {error : ScanError}
    (refused : scan text = .error error) :
    (ParseError.lexical error).location? = some error.location ∨
      ∃ count, error.cause = .digitLimit count ∧ Decimal.digitLimit < count ∧
        HasDigitRun text.toList count := by
  obtain ⟨tokens, scans⟩ | ⟨error', failed, fails⟩ := scanFrom_outcome {} text.toList
  · cases refused.symm.trans scans.scanFrom_eq
  · obtain rfl := Except.error.inj (refused.symm.trans failed)
    obtain ⟨before, c, cs, tokens, split, -, -, -, -, refuses, apart⟩ := fails.split
    obtain ⟨cause, location⟩ := error
    cases refuses with
    | @digitLimit _ run behind starts all stops long =>
      refine .inr ⟨_, rfl, long, before, c :: run, behind, ?_, ?_, apart starts, stops, rfl⟩
      · rw [split, List.append_assoc, List.cons_append]
      · exact List.forall_mem_cons.mpr ⟨starts, all⟩
    | tooLarge starts all stops large => exact .inl rfl
    | loneColon alone => exact .inl rfl
    | invalidCharacter noDigit noStart noColon noSign => exact .inl rfl

namespace Program

/-- A text that is scanned but not parsed is refused at a place: no check of a node fails. -/
theorem location?_of_parse {text : String} {stream : TokenStream} {error : ParseError}
    (scanned : scan text = .ok stream) (refused : Program.parse text = .error error) :
    ∃ place, error.location? = some place := by
  obtain ⟨scans, -⟩ := scanFrom_eq_ok.mp scanned
  rw [Program.parse, Parser.ofText, scanned] at refused
  have predicts := (Parser.predictive_program _).predicts stream.body scans.valid
    (Nat.lt_succ_self _)
  cases predicts with
  | ok used rest p split spelled reads =>
    have valid := scans.valid
    rw [split] at valid
    have parsed := reads rest valid.right rfl
    rw [← split] at parsed
    simp [TokenStream.parse, parsed] at refused
  | error used rest expected split goesOn fails =>
    have valid := scans.valid
    rw [split] at valid
    obtain ⟨left, failed⟩ := fails rest valid.right rfl
    rw [← split] at failed
    simp only [TokenStream.parse, failed, Except.error.injEq] at refused
    exact ⟨_, by rw [← refused]; rfl⟩

/-- What is parsed is well formed. -/
theorem wellFormed_of_parse {text : String} {p : Program} (parsed : Program.parse text = .ok p) :
    p.WellFormed := by
  obtain ⟨tokens, scans, spelled⟩ := Parser.exact_program.ofText_eq_ok_iff.mp parsed
  exact Grammar.Statements.wellFormed spelled scans.valid

/-- A text that is refused is refused at a place, or for a run of too many digits. -/
theorem parse_eq_error {text : String} {error : ParseError}
    (refused : Program.parse text = .error error) :
    (∃ place, error.location? = some place) ∨
      ∃ count place, error = .lexical { cause := .digitLimit count, location := place } ∧
        Decimal.digitLimit < count ∧ HasDigitRun text.toList count := by
  cases scanned : scan text with
  | ok stream => exact .inl (location?_of_parse scanned refused)
  | error cause =>
    rw [Program.parse, Parser.ofText, scanned] at refused
    obtain rfl := Except.error.inj refused
    obtain located | ⟨count, limit, long, run⟩ := scan_eq_error scanned
    · exact .inl ⟨_, located⟩
    · obtain ⟨cause, place⟩ := cause
      obtain rfl := limit
      exact .inr ⟨count, place, rfl, long, run⟩

/-- What is parsed within a depth can be written down, and within the same depth its text is parsed
as the same program. -/
theorem format_of_parseWithin {depth : Nat} {source : String} {p : Program}
    (parsed : parseWithin depth source = .ok p) :
    p.WellFormed ∧ p.render = .ok (Stmt.textLines p.statements) ∧
      parseWithin depth (Stmt.textLines p.statements) = .ok p := by
  have wellFormed := wellFormed_of_parse (parse_of_parseWithin parsed)
  have within := calls_le_of_parseWithin parsed
  refine ⟨wellFormed, Stmt.renderLines_eq_textLines wellFormed, ?_⟩
  rw [parseWithin_textLines wellFormed, if_neg (Nat.not_lt.mpr within)]

/-- Every text is parsed as far as the depth allows. Unless it is too deep, it is refused at a
place, or for a run of too many digits, or it is parsed as a well-formed program; that program can
be written down, its text is parsed as the same program within the same depth, and writing that
down once more changes nothing. However few calls may be under way, no check of a node fails, the
parser never looks outside of the tokens, and its rounds come to an end. -/
theorem parse_then_format_stable (source : String) :
    (∃ enough, ∀ depth, parseWithin depth source = .error .tooDeep ↔ depth < enough) ∧
      ∀ depth,
        (parseWithin depth source = .error .tooDeep ∨
          (∃ error place, parseWithin depth source = .error (.refused error) ∧
            error.location? = some place) ∨
          (∃ count place, parseWithin depth source =
              .error (.refused (.lexical { cause := .digitLimit count, location := place })) ∧
            4300 < count ∧ HasDigitRun source.toList count) ∨
          ∃ p text, parseWithin depth source = .ok p ∧ p.WellFormed ∧ p.render = .ok text ∧
            parseWithin depth text = .ok p ∧
            ∀ q, parseWithin depth text = .ok q → q.render = .ok text) ∧
        (∀ issue, parseWithin depth source ≠ .error (.refused (.invalid issue))) ∧
        (∀ index, parseWithin depth source ≠ .error (.outside index)) ∧
        parseWithin depth source ≠ .error .unending := by
  refine ⟨?_, fun depth => ?_⟩
  · obtain ⟨enough, same⟩ := exists_parseWithin source
    refine ⟨enough, fun depth => ?_⟩
    rw [same depth]
    split
    · next few => simp only [few]
    · next allowed => cases parse source <;> simp [Except.mapError, allowed]
  · rcases parseWithin_cases depth source with deep | same
    · exact ⟨.inl deep, by simp [deep], by simp [deep], by simp [deep]⟩
    · cases parsed : parse source with
      | ok p =>
        replace same : parseWithin depth source = .ok p := by rw [same, parsed]; rfl
        obtain ⟨wellFormed, rendered, again⟩ := format_of_parseWithin same
        refine ⟨.inr (.inr (.inr ⟨p, _, same, wellFormed, rendered, again, ?_⟩)),
          by simp [same], by simp [same], by simp [same]⟩
        intro q parsed'
        obtain rfl := Except.ok.inj (again.symm.trans parsed')
        exact rendered
      | error error =>
        replace same : parseWithin depth source = .error (.refused error) := by
          rw [same, parsed]
          rfl
        obtain ⟨place, located⟩ | ⟨count, place, rfl, long, run⟩ := parse_eq_error parsed
        · refine ⟨.inr (.inl ⟨error, place, same, located⟩), ?_, by simp [same], by simp [same]⟩
          intro issue invalid
          cases same.symm.trans invalid
          cases located
        · exact ⟨.inr (.inr (.inl ⟨count, place, same, long, run⟩)), by simp [same],
            by simp [same], by simp [same]⟩

/-- A text with a comment, with parentheses that group nothing and with the standard source left
out is parsed, and its canonical form is stable. -/
theorem parse_then_format_stable_of_comment :
    let source := "x:=-(get_input)# c"
    let p : Program := ⟨[.assign "x" (.unary .neg (.input "stdin"))]⟩
    let text := "x := -get_input(stdin)\n"
    parseWithin 25 source = .ok p ∧ p.WellFormed ∧ p.render = .ok text ∧
      parseWithin 25 text = .ok p := by
  intro source p text
  have parsed : parseWithin 25 source = .ok p := by decide +kernel
  have rendered : p.render = .ok text := by decide +kernel
  obtain ⟨-, outcome⟩ := parse_then_format_stable source
  obtain deep | ⟨error, place, refused, -⟩ | ⟨count, place, refused, -⟩ |
    ⟨q, text', parsed', wellFormed, rendered', again, -⟩ := (outcome 25).1
  · cases parsed.symm.trans deep
  · cases parsed.symm.trans refused
  · cases parsed.symm.trans refused
  · obtain rfl := Except.ok.inj (parsed.symm.trans parsed')
    obtain rfl := Except.ok.inj (rendered.symm.trans rendered')
    exact ⟨parsed, wellFormed, rendered, again⟩

/-- With a thousand calls under way, the canonical text of a hundred memory reads one inside the
other is neither parsed nor refused. -/
theorem deep_source_not_parsed :
    let p : Program := ⟨[.assert (.nest 100 (.lit 1))]⟩
    let source := Stmt.textLines p.statements
    p.render = .ok source ∧ parseWithin 1000 source = .error .tooDeep ∧
      (∀ error, parseWithin 1000 source ≠ .error (.refused error)) ∧
      (∀ q, parseWithin 1000 source ≠ .ok q) ∧ parseWithin 2000 source = .ok p := by
  intro p source
  have wellFormed : p.WellFormed := by decide
  have deep : parseWithin 1000 source = .error .tooDeep := parseWithin_textLines wellFormed 1000
  have parsed : parseWithin 2000 source = .ok p := parseWithin_textLines wellFormed 2000
  exact ⟨Stmt.renderLines_eq_textLines wellFormed, deep, by simp [deep], by simp [deep], parsed⟩

end Program

end FlatIL
