import FlatIL.Proofs.Message
import FlatIL.Proofs.Relocation
import FlatIL.Proofs.RoundTrip

/-!
# Lines of a rendered program

A rendered program has one line for each statement, and no statement is written with a line break
in it. Every line starts with a word, which is the first token of its statement, so the line of that
token tells the position of the statement. A line can be parsed by itself, since what is written on
one line is never gone on with on the next.
-/

namespace FlatIL

open Grammar TokenStream
open FlatIL.Parser (AllValid)
open FlatIL.Text (InLine inLine_ofNat inLine_of_isName)

/-! ## Statements on one line -/

/-- Parentheses stay on the line. -/
theorem Render.inLine_group (needed : Bool) {text : String} (inLine : InLine text) :
    InLine (Render.group needed text) := by
  cases needed with
  | false => exact inLine
  | true => exact .append (.append (by decide) inLine) (by decide)

/-- A well-formed expression is written on one line. -/
theorem Expr.inLine_text {e : Expr} (wellFormed : e.WellFormed) : InLine e.text := by
  induction e with
  | lit value => exact inLine_ofNat value.toNat
  | var name => exact inLine_of_isName wellFormed
  | input source => exact .append (.append (by decide) (inLine_of_isName wellFormed)) (by decide)
  | load address ih => exact .append (.append (by decide) (ih wellFormed)) (by decide)
  | unary op operand ih =>
    have symbol : InLine op.symbol := by cases op <;> decide
    exact .append symbol (Render.inLine_group _ (ih wellFormed))
  | binary op left right ihLeft ihRight =>
    have symbol : InLine op.symbol := by cases op <;> decide
    have first := Render.inLine_group (left.precedence < op.precedence) (ihLeft wellFormed.1)
    have second := Render.inLine_group (right.precedence ≤ op.precedence) (ihRight wellFormed.2)
    exact .append (.append (.append (.append first (by decide)) symbol) (by decide)) second

namespace Stmt

/-- A well-formed statement is written on one line. -/
theorem inLine_text {s : Stmt} (wellFormed : s.WellFormed) : InLine s.text := by
  cases s with
  | assign target value =>
    exact .append (.append (inLine_of_isName wellFormed.1) (by decide))
      (Expr.inLine_text wellFormed.2)
  | store address value =>
    exact .append (.append (.append (.append (by decide) (Expr.inLine_text wellFormed.1))
      (by decide)) (Expr.inLine_text wellFormed.2)) (by decide)
  | goto target => exact .append (by decide) (Expr.inLine_text wellFormed)
  | assert condition => exact .append (by decide) (Expr.inLine_text wellFormed)
  | branch condition thenTarget elseTarget =>
    exact .append (.append (.append (.append (.append (by decide) (Expr.inLine_text wellFormed.1))
      (by decide)) (Expr.inLine_text wellFormed.2.1)) (by decide))
      (Expr.inLine_text wellFormed.2.2)

/-- A well-formed statement is written with a word in front. -/
theorem exists_text_eq_cons {s : Stmt} (wellFormed : s.WellFormed) :
    ∃ c cs, s.text.toList = c :: cs ∧ Name.isStart c = true := by
  cases s with
  | assign target value =>
    have shaped : Name.hasShape target.toList = true := by
      have named : Name.isName target = true := wellFormed.1
      simp only [Name.isName, Bool.and_eq_true] at named
      exact named.1
    cases spelled : target.toList with
    | nil => simp [spelled, Name.hasShape] at shaped
    | cons c cs =>
      simp only [spelled, Name.hasShape, Bool.and_eq_true] at shaped
      exact ⟨c, _, by simp [text, spelled]; rfl, shaped.1⟩
  | store address value => exact ⟨'s', _, by simp [text]; rfl, by decide⟩
  | goto target => exact ⟨'g', _, by simp [text]; rfl, by decide⟩
  | assert condition => exact ⟨'a', _, by simp [text]; rfl, by decide⟩
  | branch condition thenTarget elseTarget => exact ⟨'i', _, by simp [text]; rfl, by decide⟩

/-- The text of statements is their lines, each with its line feed. -/
theorem textLines_eq_join (ss : List Stmt) :
    textLines ss = String.join (ss.map fun s => s.text ++ "\n") := by
  induction ss with
  | nil => rfl
  | cons first others ih => rw [textLines, ih, List.map_cons, String.join_cons]

/-- A line is parsed as its statement, from the depth of its trees on. -/
theorem parseWithin_text {s : Stmt} (wellFormed : s.WellFormed) (depth : Nat) :
    Program.parseWithin depth s.text =
      if depth < s.calls + 1 then .error .tooDeep else .ok ⟨[s]⟩ := by
  refine Program.parseWithin_of_writes ((writes_text wellFormed).mono fun tokens taken => ?_) depth
  simpa using StatementsTake.cons taken .nil

/-- A line with its line feed is parsed as its statement, from the same depth on. -/
theorem parseWithin_text_feed {s : Stmt} (wellFormed : s.WellFormed) (depth : Nat) :
    Program.parseWithin depth (s.text ++ "\n") =
      if depth < s.calls + 1 then .error .tooDeep else .ok ⟨[s]⟩ := by
  have feed : s.text ++ "\n" = textLines [s] := by simp [textLines]
  have each : (⟨[s]⟩ : Program).WellFormed := by simpa [Program.WellFormed] using wellFormed
  have read := Program.parseWithin_textLines each depth
  rw [feed]
  simpa [Program.calls, callsOf] using read

end Stmt

/-! ## Where statements start -/

/-- Characters without a line feed stay on the line. -/
theorem Location.line_advance {cs : List Char} (inLine : '\n' ∉ cs) (place : Location) :
    (place.advance cs).line = place.line := by
  induction cs generalizing place with
  | nil => rfl
  | cons c cs ih =>
    rw [List.mem_cons, not_or] at inLine
    have here : place.next c = { place with column := place.column + 1 } := by
      rw [next, if_neg (by simpa using Ne.symm inLine.1)]
    exact (ih inLine.2 (place.next c)).trans (by rw [here])

/-- A text with a word in front is scanned as tokens of which the first is where the text starts. -/
theorem TokenStream.Scans.exists_cons {start : Location} {c : Char} {cs : List Char}
    {tokens : List Token} (scans : Scans start (c :: cs) tokens) (starts : Name.isStart c = true) :
    ∃ first more, tokens = first :: more ∧ first.location = start := by
  generalize whole : c :: cs = text at scans
  cases scans with
  | nil => cases whole
  | gap isGap more =>
    obtain ⟨rfl, -⟩ := List.cons.inj whole
    simp only [Token.isGap, Bool.or_eq_true, beq_iff_eq] at isGap
    rcases isGap with ((rfl | rfl) | rfl) | rfl <;> cases starts
  | comment inLine ends more =>
    obtain ⟨rfl, -⟩ := List.cons.inj whole
    cases starts
  | token reads more => exact ⟨_, _, rfl, rfl⟩

/-- `LineByLine line pieces ss`: the pieces spell the statements one by one, and each of them starts
a line, beginning with the given one. -/
inductive LineByLine : Nat → List (List Token) → List Stmt → Prop where
  | nil {line : Nat} : LineByLine line [] []
  | cons {line : Nat} {first : Token} {more : List Token} {pieces : List (List Token)} {s : Stmt}
      {ss : List Stmt} (starts : first.location = { line, column := 1 })
      (spelled : Statement (first :: more) s) (rest : LineByLine (line + 1) pieces ss) :
      LineByLine line ((first :: more) :: pieces) (s :: ss)

namespace LineByLine

variable {line : Nat} {pieces : List (List Token)} {ss : List Stmt}

/-- There is a piece for each statement. -/
theorem length_eq (byLine : LineByLine line pieces ss) : pieces.length = ss.length := by
  induction byLine with
  | nil => rfl
  | cons starts spelled rest ih => rw [List.length_cons, List.length_cons, ih]

/-- All pieces together spell all statements. -/
theorem statements (byLine : LineByLine line pieces ss) : Statements pieces.flatten ss := by
  induction byLine with
  | nil => exact .nil
  | cons starts spelled rest ih => exact .cons spelled ih

/-- From where a piece starts, the parser reads its statement and leaves the pieces behind it. -/
theorem parsed (byLine : LineByLine line pieces ss) (valid : AllValid pieces.flatten) {i : Nat}
    {s : Stmt} (listed : ss[i]? = some s) :
    ∃ first more, pieces[i]? = some (first :: more) ∧
      first.location = { line := line + i, column := 1 } ∧
      Parser.statement (pieces.drop i).flatten = (.ok s, (pieces.drop (i + 1)).flatten) := by
  induction byLine generalizing i with
  | nil => cases listed
  | @cons line first more pieces s' ss starts spelled rest ih =>
    cases i with
    | zero =>
      obtain rfl := Option.some.inj listed
      refine ⟨first, more, rfl, starts, ?_⟩
      exact Parser.statement_of_spelled spelled valid.left rest.statements.kind_ne_eof
        (.of_statements rest.statements)
    | succ i =>
      obtain ⟨first, more, piece, placed, read⟩ := ih valid.right listed
      rw [Nat.add_assoc, Nat.add_comm 1 i] at placed
      exact ⟨first, more, piece, placed, read⟩

end LineByLine

/-- The text of well-formed statements is scanned line by line. -/
theorem Stmt.exists_lineByLine {ss : List Stmt} (wellFormed : ∀ s ∈ ss, s.WellFormed) (line : Nat) :
    ∃ pieces stop, scanFrom { line, column := 1 } (textLines ss).toList =
        .ok { body := pieces.flatten, stop } ∧ LineByLine line pieces ss := by
  induction ss generalizing line with
  | nil =>
    refine ⟨[], { line, column := 1 }, ?_, .nil⟩
    rw [textLines, String.toList_empty, scanFrom]
    rfl
  | cons s ss ih =>
    obtain ⟨here, later⟩ := List.forall_mem_cons.mp wellFormed
    obtain ⟨pieces, stop, scanned, byLine⟩ := ih later (line + 1)
    have spelledOut : (textLines (s :: ss)).toList =
        s.text.toList ++ '\n' :: (textLines ss).toList := by simp [textLines]
    -- Behind the line feed, the next statement starts a line of its own.
    have feed : scanFrom (Location.advance { line, column := 1 } s.text.toList)
        ('\n' :: (textLines ss).toList) = .ok { body := pieces.flatten, stop } := by
      have next : (Location.advance { line, column := 1 } s.text.toList).next '\n' =
          { line := line + 1, column := 1 } := by
        rw [Location.next, if_pos (by decide), Location.line_advance (inLine_text here)]
      rw [scanFrom, if_pos (by decide), next, scanned]
    obtain ⟨tokens, lexed, taken, -⟩ := writes_text here { line, column := 1 }
      ('\n' :: (textLines ss).toList) (Apart.cons _ (by decide))
    have spelled := taken.statement
    rw [Lexes, feed] at lexed
    obtain ⟨c, cs, front, starts⟩ := exists_text_eq_cons here
    have scans := (scanFrom_eq_ok.mp lexed).1
    rw [front, List.cons_append] at scans
    obtain ⟨first, more, whole, placed⟩ := scans.exists_cons starts
    cases tokens with
    | nil => exact absurd rfl spelled.tokens_ne_nil
    | cons token tokens =>
      obtain ⟨rfl, -⟩ := List.cons.inj whole
      exact ⟨(token :: tokens) :: pieces, stop, by rw [spelledOut, lexed]; rfl,
        .cons placed spelled byLine⟩

/-- A well-formed program is written as one line for each statement, with no line break but the one
that ends each line. The line at a position, alone or with its line feed, is parsed as the statement
there if the calls that may be under way are as many as its trees take, and it is too deep if they
are fewer. And in the scan of the whole text, each statement starts with a token at the beginning of
its line: that is where the parser stands when it reads the statement, and it leaves what belongs to
the statements behind it. -/
theorem Program.lines_are_positions {p : Program} (wellFormed : p.WellFormed) :
    ∃ (text : String) (lines : List String), p.render = .ok text ∧
      text = String.join (lines.map (· ++ "\n")) ∧ lines.length = p.size ∧
      (∀ line ∈ lines, InLine line) ∧
      (∀ (i : Nat) (s : Stmt), p.statements[i]? = some s → ∃ line, lines[i]? = some line ∧
        ∀ depth,
          parseWithin depth line =
            (if depth < s.calls + 1 then .error .tooDeep else .ok ⟨[s]⟩) ∧
          parseWithin depth (line ++ "\n") =
            if depth < s.calls + 1 then .error .tooDeep else .ok ⟨[s]⟩) ∧
      ∃ (stream : TokenStream) (pieces : List (List Token)), scan text = .ok stream ∧
        stream.body = pieces.flatten ∧ pieces.length = p.size ∧
        ∀ (i : Nat) (s : Stmt), p.statements[i]? = some s →
          ∃ first more, pieces[i]? = some (first :: more) ∧
          first.location = { line := i + 1, column := 1 } ∧
          Parser.statement (pieces.drop i).flatten = (.ok s, (pieces.drop (i + 1)).flatten) := by
  refine ⟨Stmt.textLines p.statements, p.statements.map Stmt.text,
    Stmt.renderLines_eq_textLines wellFormed, ?_, List.length_map _, ?_, ?_, ?_⟩
  · rw [Stmt.textLines_eq_join, List.map_map]
    rfl
  · intro line listed
    obtain ⟨s, inside, rfl⟩ := List.mem_map.mp listed
    exact Stmt.inLine_text (wellFormed s inside)
  · intro i s listed
    have here := wellFormed s (List.mem_of_getElem? listed)
    exact ⟨s.text, by rw [List.getElem?_map, listed]; rfl, fun depth =>
      ⟨Stmt.parseWithin_text here depth, Stmt.parseWithin_text_feed here depth⟩⟩
  · obtain ⟨pieces, stop, scanned, byLine⟩ := Stmt.exists_lineByLine wellFormed 1
    have valid := (scanFrom_eq_ok.mp scanned).1.valid
    refine ⟨_, pieces, scanned, rfl, byLine.length_eq, fun i s listed => ?_⟩
    obtain ⟨first, more, piece, placed, read⟩ := byLine.parsed valid listed
    rw [Nat.add_comm] at placed
    exact ⟨first, more, piece, placed, read⟩

/-- The second line of a program, in front of a line that starts with a word as well: it takes
thirteen calls. -/
theorem Program.lines_are_positions_of_loop :
    let s : Stmt := .assign "x" (.binary .sub (.input "stdin") (.var "x"))
    let p : Program := ⟨[.assert (.lit 1), s, .branch (.var "x") (.lit 0) (.lit 9)]⟩
    p.WellFormed ∧ ∃ text line stream first, p.render = .ok text ∧
      parseWithin 12 line = .error .tooDeep ∧ parseWithin 13 line = .ok ⟨[s]⟩ ∧
      scan text = .ok stream ∧ first ∈ stream.body ∧
      first.location = { line := 2, column := 1 } := by
  intro s p
  have wellFormed : p.WellFormed := by decide
  obtain ⟨text, lines, rendered, -, -, -, alone, stream, pieces, scanned, body, -, starts⟩ :=
    lines_are_positions wellFormed
  obtain ⟨line, -, parsed⟩ := alone 1 s rfl
  obtain ⟨first, more, piece, placed, -⟩ := starts 1 s rfl
  have inside : first ∈ stream.body := by
    rw [body]
    exact List.mem_flatten_of_mem (List.mem_of_getElem? piece) List.mem_cons_self
  exact ⟨wellFormed, text, line, stream, first, rendered, (parsed 12).1, (parsed 13).1, scanned,
    inside, placed⟩

/-- A program of two lines, of which the second holds a hundred memory reads one inside the other:
with a thousand calls under way, that line is too deep. -/
theorem Program.deep_line_not_parsed :
    let s : Stmt := .goto (.nest 100 (.lit 1))
    let p : Program := ⟨[.assert (.lit 1), s]⟩
    let line : String := s.text
    let lines := [(Stmt.assert (.lit 1)).text, line]
    p.WellFormed ∧ p.render = .ok (String.join (lines.map (· ++ "\n"))) ∧
      parseWithin 1000 line = .error .tooDeep ∧ ∀ q, parseWithin 1000 line ≠ .ok q := by
  intro s p line lines
  have wellFormed : p.WellFormed := by decide
  have deep : parseWithin 1000 line = .error .tooDeep :=
    Stmt.parseWithin_text (wellFormed s (by simp [p])) 1000
  have rendered : p.render = .ok (Stmt.textLines p.statements) :=
    Stmt.renderLines_eq_textLines wellFormed
  rw [Stmt.textLines_eq_join] at rendered
  exact ⟨wellFormed, rendered, deep, by simp [deep]⟩

end FlatIL
