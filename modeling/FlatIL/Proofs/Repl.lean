import FlatIL.Command.Execute
import FlatIL.Proofs.Budget
import FlatIL.Proofs.Formatting

/-!
# Sessions line by line

A session answers every line: it passes over a blank one, refuses one that is not parsed and leaves
what is shared as it was, and runs any other. The answers follow one another, so the lines behind a
refused one are answered as if it had not been there. Two kinds of lines are not answered, and end
the session: too many digits in a row are an error without a place, and a line that is nested too
deeply is neither parsed nor refused.
-/

namespace FlatIL

/-- A run of digits is no longer than the text that it stands in. -/
theorem HasDigitRun.le_length {text : List Char} {count : Nat} (run : HasDigitRun text count) :
    count ≤ text.length := by
  obtain ⟨before, digits, behind, split, -, -, -, counted⟩ := run
  have length := congrArg List.length split
  simp only [List.length_append] at length
  omega

namespace Command

/-- A line starts at the first statement of its program, or at the end of one without any. -/
theorem Shared.within_start (shared : Shared) (p : Program) : p.Within shared.start :=
  ⟨Int.le_refl 0, Int.natCast_nonneg p.size⟩

namespace Repl

/-! ## One line -/

/-- What a line puts out, and what it leaves to the lines behind it. -/
structure Answer where
  stdout : String := ""
  stderr : String := ""
  shared : Shared

/-- `Handles depth level budget shared line answer`: a line is answered. -/
inductive Handles (depth : Nat) (level : Level) (budget : Nat) (shared : Shared) (line : String) :
    Answer → Prop where
  /-- A blank line is passed over. -/
  | blank (blank : isBlankLine line = true) : Handles depth level budget shared line { shared }
  /-- A line that is refused at a place is reported and changes nothing. -/
  | refused {error : ParseError} {place : Location} (solid : isBlankLine line = false)
      (refused : Program.parseWithin depth line = .error (.refused error))
      (located : error.location? = some place) :
      Handles depth level budget shared line
        { stderr := "Error: " ++ error.message ++ "\n", shared }
  /-- Any other line is run. -/
  | ran {p : Program} {s : State} (solid : isBlankLine line = false)
      (parsed : Program.parseWithin depth line = .ok p)
      (ran : p.runFor budget shared.start = .ok s) :
      Handles depth level budget shared line
        { stdout := report shared s
          stderr := logText level (.parsed p.size :: runEvents level p (some budget) 0 shared.start)
          shared := .ofState s }

/-- A line that ends the session: its parser is stopped by something other than an ordinary
mistake. -/
structure Stumbles (depth : Nat) (line : String) (mishap : Cursor.Mishap) : Prop where
  solid : isBlankLine line = false
  stopped : Program.parseWithin depth line = .error mishap
  unordinary : ordinary? mishap = none

/-- An ordinary mistake is a refusal at a place. -/
theorem ordinary?_eq_some {mishap : Cursor.Mishap} {error : ParseError}
    (known : ordinary? mishap = some error) :
    mishap = .refused error ∧ ∃ place, error.location? = some place := by
  cases mishap with
  | refused other =>
    rw [ordinary?] at known
    split at known
    · next located =>
      obtain rfl := Option.some.inj known
      exact ⟨rfl, Option.isSome_iff_exists.mp located⟩
    · cases known
  | _ => cases known

/-- A refusal at a place is an ordinary mistake. -/
theorem ordinary?_of_located {error : ParseError} {place : Location}
    (located : error.location? = some place) : ordinary? (.refused error) = some error := by
  rw [ordinary?, located]
  rfl

variable {depth : Nat}

/-- A line that ends the session is too deep, or has too many digits in a row. -/
theorem Stumbles.cases {line : String} {mishap : Cursor.Mishap}
    (stumbles : Stumbles depth line mishap) :
    mishap = .tooDeep ∨
      ∃ count place,
        mishap = .refused (.lexical { cause := .digitLimit count, location := place }) ∧
        Decimal.digitLimit < count ∧ HasDigitRun line.toList count := by
  have stopped := stumbles.stopped
  rcases Program.parseWithin_cases depth line with deep | same
  · exact .inl (Except.error.inj (stopped.symm.trans deep))
  · cases parsed : Program.parse line with
    | ok p =>
      rw [parsed] at same
      cases stopped.symm.trans same
    | error error =>
      rw [parsed] at same
      obtain rfl : mishap = .refused error := Except.error.inj (stopped.symm.trans same)
      obtain ⟨place, located⟩ | ⟨count, place, rfl, run⟩ := Program.parse_eq_error parsed
      · cases stumbles.unordinary.symm.trans (ordinary?_of_located located)
      · exact .inr ⟨count, place, rfl, run⟩

/-- A line that is not too deep and has fewer characters than there may be digits in a row does not
end the session. -/
theorem not_stumbles_of_short {line : String} (short : line.toList.length ≤ Decimal.digitLimit)
    (shallow : Program.parseWithin depth line ≠ .error .tooDeep) (mishap : Cursor.Mishap) :
    ¬Stumbles depth line mishap := by
  intro stumbles
  obtain rfl | ⟨count, -, -, long, run⟩ := stumbles.cases
  · exact shallow stumbles.stopped
  · have atMost := run.le_length
    omega

variable {level : Level} {budget : Nat} {shared : Shared} {line : String}

/-- Every line is answered or ends the session. -/
theorem handles_or_stumbles (depth : Nat) (level : Level) (budget : Nat) (shared : Shared)
    (line : String) :
    (∃ answer, Handles depth level budget shared line answer) ∨
      ∃ mishap, Stumbles depth line mishap := by
  cases blank : isBlankLine line with
  | true => exact .inl ⟨_, .blank blank⟩
  | false =>
    cases parsed : Program.parseWithin depth line with
    | ok p =>
      obtain ⟨s, spends⟩ := (shared.within_start p).spends budget
      exact .inl ⟨_, .ran blank parsed spends.ran⟩
    | error mishap =>
      cases known : ordinary? mishap with
      | none => exact .inr ⟨mishap, blank, parsed, known⟩
      | some error =>
        obtain ⟨rfl, place, located⟩ := ordinary?_eq_some known
        exact .inl ⟨_, .refused blank parsed located⟩

/-- A line that is answered does not end the session. -/
theorem Handles.not_stumbles {answer : Answer}
    (handles : Handles depth level budget shared line answer) (mishap : Cursor.Mishap) :
    ¬Stumbles depth line mishap := by
  intro stumbles
  cases handles with
  | blank blank => cases stumbles.solid.symm.trans blank
  | refused _ refused located =>
    obtain rfl := Except.error.inj (refused.symm.trans stumbles.stopped)
    cases stumbles.unordinary.symm.trans (ordinary?_of_located located)
  | ran _ parsed _ => cases parsed.symm.trans stumbles.stopped

/-- What has been put out after an answer. -/
def answered (out : Output) (answer : Answer) : Output :=
  { out with stdout := out.stdout ++ answer.stdout, stderr := out.stderr ++ answer.stderr }

/-- A line that is answered puts out its answer. -/
theorem feed_of_handles {answer : Answer} (handles : Handles depth level budget shared line answer)
    (out : Output) :
    feed depth level budget shared out line = (answer.shared, answered out answer) := by
  cases handles with
  | blank blank => simp [feed, blank, answered]
  | refused solid refused located =>
    simp [feed, solid, runLine, refused, ordinary?_of_located located, answered, Output.complain,
      String.append_assoc]
  | ran solid parsed ran =>
    simp [feed, solid, runLine, parsed, ran, answered, Output.log, Output.print, Outcome.shared]

/-- A line that ends the session leaves what has been put out. -/
theorem feed_of_stumbles {mishap : Cursor.Mishap} (stumbles : Stumbles depth line mishap)
    (out : Output) : feed depth level budget shared out line = (shared, out.abort mishap) := by
  simp [feed, stumbles.solid, runLine, stumbles.stopped, stumbles.unordinary]

/-! ## Line after line -/

/-- `Conducts depth level budget shared lines answers last`: lines are answered one after the other,
each from what the one in front of it left. -/
inductive Conducts (depth : Nat) (level : Level) (budget : Nat) :
    Shared → List String → List Answer → Shared → Prop where
  | nil (shared : Shared) : Conducts depth level budget shared [] [] shared
  | cons {shared last : Shared} {line : String} {lines : List String} {answer : Answer}
      {answers : List Answer} (handles : Handles depth level budget shared line answer)
      (rest : Conducts depth level budget answer.shared lines answers last) :
      Conducts depth level budget shared (line :: lines) (answer :: answers) last

/-- What a session shows for some answers: after each the prompt for the next line. -/
def shown (answers : List Answer) : String :=
  String.join (answers.map fun answer => answer.stdout ++ prompt)

/-- What a session complains about and logs for some answers. -/
def complained (answers : List Answer) : String :=
  String.join (answers.map Answer.stderr)

variable {lines more : List String} {answers others : List Answer} {middle last : Shared}

/-- A session that goes on puts out the answers and leaves what the last one left. -/
theorem Conducts.feedAll_append (conducts : Conducts depth level budget shared lines answers middle)
    {out : Output} (goesOn : out.crash = none) (more : List String) :
    feedAll depth level budget shared out (lines ++ more) =
      feedAll depth level budget middle
        { out with
          stdout := out.stdout ++ shown answers
          stderr := out.stderr ++ complained answers } more := by
  induction conducts generalizing out with
  | nil shared => simp [shown, complained]
  | cons handles rest ih =>
    rw [List.cons_append, feedAll, feed_of_handles handles]
    simp only [answered, goesOn, Option.isSome_none, Bool.false_eq_true, if_false]
    rw [ih]
    · simp [Output.print, shown, complained, String.join_cons, String.append_assoc]
    · rfl

/-- A session that comes to a line that is not answered ends there. -/
theorem Conducts.feedAll_of_stumbles (conducts : Conducts depth level budget shared lines answers
    last) {mishap : Cursor.Mishap} (stumbles : Stumbles depth line mishap) {out : Output}
    (goesOn : out.crash = none) (more : List String) :
    feedAll depth level budget shared out (lines ++ line :: more) =
      (last, { out with
        stdout := out.stdout ++ shown answers
        stderr := out.stderr ++ complained answers
        exit := 1
        crash := some mishap }) := by
  rw [conducts.feedAll_append goesOn, feedAll, feed_of_stumbles stumbles]
  rfl

/-- Working on lines only adds to what has been put out. -/
theorem exists_stdout_feedAll (shared : Shared) (out : Output) (lines : List String) :
    ∃ later, (feedAll depth level budget shared out lines).2.stdout = out.stdout ++ later := by
  induction lines generalizing shared out with
  | nil => exact ⟨"", by simp [feedAll]⟩
  | cons line lines ih =>
    obtain ⟨next, fed, text, run, added⟩ : ∃ next fed text,
        feed depth level budget shared out line = (next, fed) ∧
          fed.stdout = out.stdout ++ text := by
      obtain ⟨answer, handles⟩ | ⟨mishap, stumbles⟩ :=
        handles_or_stumbles depth level budget shared line
      · exact ⟨_, _, answer.stdout, feed_of_handles handles out, rfl⟩
      · exact ⟨_, _, "", feed_of_stumbles stumbles out, by simp [Output.abort]⟩
    simp only [feedAll, run]
    split
    · exact ⟨text, added⟩
    · obtain ⟨later, rest⟩ := ih next (fed.print prompt)
      refine ⟨text ++ (prompt ++ later), ?_⟩
      rw [rest, Output.print, added, String.append_assoc, String.append_assoc]

/-- No line that is answered in its turn ends the session. -/
theorem Conducts.not_stumbles (conducts : Conducts depth level budget shared lines answers last)
    (mishap : Cursor.Mishap) : ∀ line ∈ lines, ¬Stumbles depth line mishap := by
  induction conducts with
  | nil => exact fun line inside => nomatch inside
  | cons handles _ ih => exact List.forall_mem_cons.mpr ⟨handles.not_stumbles mishap, ih⟩

/-- Where lines are answered, those in front are, and those behind from what these left. -/
theorem Conducts.split {lines more : List String} {answers : List Answer}
    (conducts : Conducts depth level budget shared (lines ++ more) answers last) :
    ∃ first second middle, answers = first ++ second ∧
      Conducts depth level budget shared lines first middle ∧
      Conducts depth level budget middle more second last := by
  induction lines generalizing shared answers with
  | nil => exact ⟨[], answers, shared, rfl, .nil shared, conducts⟩
  | cons line lines ih =>
    cases conducts with
    | cons handles rest =>
      obtain ⟨first, second, middle, rfl, front, back⟩ := ih rest
      exact ⟨_ :: first, second, middle, rfl, .cons handles front, back⟩

/-- Lines are all answered, or all up to the first that ends the session. -/
theorem conducts_or_stumbles (depth : Nat) (level : Level) (budget : Nat) (shared : Shared)
    (lines : List String) :
    (∃ answers last, Conducts depth level budget shared lines answers last) ∨
      ∃ before line after answers last mishap, lines = before ++ line :: after ∧
        Conducts depth level budget shared before answers last ∧ Stumbles depth line mishap := by
  induction lines generalizing shared with
  | nil => exact .inl ⟨[], shared, .nil shared⟩
  | cons line lines ih =>
    obtain ⟨answer, handles⟩ | ⟨mishap, stumbles⟩ :=
      handles_or_stumbles depth level budget shared line
    · obtain ⟨answers, last, rest⟩ |
        ⟨before, next, after, answers, last, mishap, rfl, rest, stumbles⟩ := ih answer.shared
      · exact .inl ⟨_, _, .cons handles rest⟩
      · exact .inr ⟨line :: before, next, after, _, _, mishap, rfl, .cons handles rest, stumbles⟩
    · exact .inr ⟨[], line, lines, [], shared, mishap, rfl, .nil shared, stumbles⟩

/-- Lines none of which ends the session are all answered. -/
theorem exists_conducts (depth : Nat) (level : Level) (budget : Nat) (shared : Shared)
    (going : ∀ line ∈ lines, ∀ mishap, ¬Stumbles depth line mishap) :
    ∃ answers last, Conducts depth level budget shared lines answers last := by
  obtain all | ⟨before, line, after, _, _, mishap, rfl, -, stumbles⟩ :=
    conducts_or_stumbles depth level budget shared lines
  · exact all
  · exact absurd stumbles (going line (by simp) mishap)

/-! ## Whole sessions -/

/-- A line that is answered but not parsed is reported, changes nothing, and the lines behind it are
answered as without it. -/
theorem Conducts.of_refused {before after : List String} {error : ParseError}
    (conducts : Conducts depth level budget shared (before ++ line :: after) answers last)
    (solid : isBlankLine line = false)
    (refused : Program.parseWithin depth line = .error (.refused error)) :
    ∃ first second middle,
      answers = first ++
        { stderr := "Error: " ++ error.message ++ "\n", shared := middle } :: second ∧
      Conducts depth level budget shared before first middle ∧
      Conducts depth level budget middle after second last := by
  obtain ⟨first, second, middle, rfl, front, back⟩ := conducts.split
  cases back with
  | cons handles rest =>
    cases handles with
    | blank blank => cases solid.symm.trans blank
    | refused _ refused' _ =>
      cases refused.symm.trans refused'
      exact ⟨first, _, middle, rfl, front, rest⟩
    | ran _ parsed _ => cases refused.symm.trans parsed

/-- A session puts out what its lines do, and more. -/
theorem exists_stdout_session (depth : Nat) (level : Level) (budget : Nat) (shared : Shared)
    (text : String) :
    ∃ later, (session depth level budget shared text).stdout =
      (feedAll depth level budget shared { stdout := prompt }
        (splitLines [] text.toList)).2.stdout ++ later := by
  simp only [session]
  split
  · exact ⟨"", by simp⟩
  · exact ⟨"\n", rfl⟩

/-- A session in which every line is answered ends with its input. -/
theorem session_of_conducts {text : String}
    (conducts : Conducts depth level budget shared (splitLines [] text.toList) answers last) :
    session depth level budget shared text =
      { stdout := prompt ++ shown answers ++ "\n", stderr := complained answers } := by
  have begun : ({ stdout := prompt } : Output).crash = none := rfl
  have fed := conducts.feedAll_append begun []
  rw [List.append_nil] at fed
  simp [session, fed, feedAll, Output.print]

/-- A session ends at a line that is not answered. -/
theorem session_of_stumbles {text : String} {before after : List String}
    {mishap : Cursor.Mishap} (split : splitLines [] text.toList = before ++ line :: after)
    (conducts : Conducts depth level budget shared before answers last)
    (stumbles : Stumbles depth line mishap) :
    session depth level budget shared text =
      { stdout := prompt ++ shown answers, stderr := complained answers, exit := 1,
        crash := some mishap } := by
  have begun : ({ stdout := prompt } : Output).crash = none := rfl
  have fed := conducts.feedAll_of_stumbles stumbles begun after
  simp [session, split, fed]

/-- A session is carried out on all lines of its input. -/
theorem carryOut_repl {request : Request} {settings : Settings} (isRepl : request.sub = .repl)
    (started : startRepl settings = .ok shared) (stdin : String) (depth patience : Nat) :
    carryOut request settings stdin depth patience =
      some (session depth (threshold request.verbose) (settings.maxSteps.getD defaultBudget) shared
        (readText stdin)) := by
  simp [carryOut, isRepl, started]

/-- From some depth on, none of some lines is too deep. -/
theorem exists_depth (lines : List String) :
    ∃ enough, ∀ depth, enough ≤ depth →
      ∀ line ∈ lines, Program.parseWithin depth line ≠ .error .tooDeep := by
  induction lines with
  | nil => exact ⟨0, fun _ _ line inside => nomatch inside⟩
  | cons line lines ih =>
    obtain ⟨enough, others⟩ := ih
    obtain ⟨least, same⟩ := Program.exists_parseWithin line
    refine ⟨max least enough, fun depth allowed => List.forall_mem_cons.mpr ⟨?_, ?_⟩⟩
    · rw [same, if_neg (by omega)]
      cases Program.parse line <;> simp [Except.mapError]
    · exact others depth (by omega)

/-! ## A line that ends a session -/

/-- Zeros in a row are refused at no place if they are too many. -/
theorem stumbles_zeros {n : Nat} (long : Decimal.digitLimit < n) :
    Stumbles depth (String.ofList (List.replicate n '0'))
      (.refused (.lexical { cause := .digitLimit n, location := {} })) := by
  obtain ⟨n, rfl⟩ := Nat.exists_eq_add_of_le' (Nat.zero_lt_of_lt long)
  have read : Token.readToken '0' (List.replicate n '0') = .error (.digitLimit (n + 1)) := by
    have isDigit : Char.isDigit '0' = true := by decide
    have run : ('0' :: List.takeWhile Char.isDigit (List.replicate n '0')).length = n + 1 := by
      simp [isDigit]
    rw [Token.readToken, if_pos isDigit, Token.readInteger, run, if_pos long]
  have scanned : TokenStream.scan (String.ofList (List.replicate (n + 1) '0')) =
      .error { cause := .digitLimit (n + 1), location := {} } := by
    rw [TokenStream.scan, String.toList_ofList, List.replicate_succ, TokenStream.scanFrom,
      if_neg (by decide), if_neg (by decide)]
    split
    · next cause read' =>
      obtain rfl := Except.error.inj (read.symm.trans read')
      rfl
    · next lexeme read' => cases read.symm.trans read'
  refine ⟨?_, ?_, rfl⟩
  · simp [isBlankLine, Text.isBlank, Text.isSpace]
  · simp [Program.parseWithin, Cursor.ofText, scanned]

/-- A text on one line is one line. -/
theorem splitLines_of_inLine {done cs : List Char} (inLine : ∀ c ∈ cs, c ≠ '\n')
    (nonempty : done ≠ [] ∨ cs ≠ []) :
    splitLines done cs = [String.ofList (done.reverse ++ cs)] := by
  induction cs generalizing done with
  | nil => simp_all [splitLines]
  | cons c cs ih =>
    obtain ⟨first, others⟩ := List.forall_mem_cons.mp inLine
    simp [splitLines, first, ih others (.inl (List.cons_ne_nil c done))]

/-- A text without carriage returns is read as it is. -/
theorem unifyLines_of_plain {cs : List Char} (plain : ∀ c ∈ cs, c ≠ '\r') : unifyLines cs = cs := by
  induction cs with
  | nil => rfl
  | cons c cs ih =>
    obtain ⟨first, others⟩ := List.forall_mem_cons.mp plain
    rw [unifyLines, ih others]
    · exact fun _ same => absurd same first
    · exact fun same => absurd same first

/-- Zeros in a row are one line. -/
theorem lines_zeros {n : Nat} (positive : 0 < n) :
    splitLines [] (readText (String.ofList (List.replicate n '0'))).toList =
      [String.ofList (List.replicate n '0')] := by
  have apart {d : Char} (other : '0' ≠ d) : ∀ c ∈ List.replicate n '0', c ≠ d := by
    intro c inside
    rw [List.eq_of_mem_replicate inside]
    exact other
  have nonempty : List.replicate n '0' ≠ [] := by
    rw [Ne, List.replicate_eq_nil_iff]
    omega
  rw [readText, String.toList_ofList, String.toList_ofList, unifyLines_of_plain (apart (by decide)),
    splitLines_of_inLine (apart (by decide)) (.inr nonempty), List.reverse_nil, List.nil_append]

/-! ## What a session promises -/

/-- A session ends with its input and without an error unless a line has too many digits in a row or
is too deep for the calls that its parser may have under way. Until then every line is answered in
its turn, and one that is not parsed is reported, leaves what is shared as it was, and lets the
lines behind it be answered as if it had not been there. A line that does end the session leaves
what was put out in front of it. From some depth on, no line is too deep. -/
theorem session_outlives_lines {request : Request} {settings : Settings} {shared : Shared}
    (isRepl : request.sub = .repl) (started : startRepl settings = .ok shared) (stdin : String)
    (patience : Nat) :
    let level := threshold request.verbose
    let budget := settings.maxSteps.getD defaultBudget
    let lines := splitLines [] (readText stdin).toList
    (∀ depth,
      ((∀ line ∈ lines, ∀ mishap, ¬Stumbles depth line mishap) →
        ∃ answers last, Conducts depth level budget shared lines answers last ∧
          carryOut request settings stdin depth patience =
            some { stdout := prompt ++ shown answers ++ "\n", stderr := complained answers,
                   exit := 0, crash := none } ∧
          ∀ before line after error, lines = before ++ line :: after →
            isBlankLine line = false →
            Program.parseWithin depth line = .error (.refused error) →
            ∃ first second middle,
              answers = first ++
                { stdout := "", stderr := "Error: " ++ error.message ++ "\n", shared := middle } ::
                  second ∧
              Conducts depth level budget shared before first middle ∧
              Conducts depth level budget middle after second last) ∧
      (∀ before line after mishap, lines = before ++ line :: after →
        (∀ earlier ∈ before, ∀ mishap, ¬Stumbles depth earlier mishap) →
        Stumbles depth line mishap →
        (mishap = .tooDeep ∨ ∃ count, 4300 < count ∧ HasDigitRun line.toList count) ∧
        ∃ answers last, Conducts depth level budget shared before answers last ∧
          carryOut request settings stdin depth patience =
            some { stdout := prompt ++ shown answers, stderr := complained answers, exit := 1,
                   crash := some mishap })) ∧
    ∃ enough, ∀ depth, enough ≤ depth → ∀ line ∈ lines, ¬Stumbles depth line .tooDeep := by
  intro level budget lines
  refine ⟨fun depth => ⟨fun answered => ?_, ?_⟩, ?_⟩
  · obtain ⟨answers, last, all⟩ := exists_conducts depth level budget shared answered
    refine ⟨answers, last, all, ?_, ?_⟩
    · rw [carryOut_repl isRepl started, session_of_conducts all]
    · intro before line after error split solid refused
      rw [split] at all
      exact all.of_refused solid refused
  · intro before line after mishap split earlier stumbles
    obtain ⟨answers, last, front⟩ := exists_conducts depth level budget shared earlier
    refine ⟨stumbles.cases.imp_right ?_, answers, last, front, ?_⟩
    · rintro ⟨count, -, -, long, run⟩
      exact ⟨count, long, run⟩
    · rw [carryOut_repl isRepl started, session_of_stumbles split front stumbles]
  · obtain ⟨enough, shallow⟩ := exists_depth lines
    exact ⟨enough, fun depth allowed line inside stumbles =>
      shallow depth allowed line inside stumbles.stopped⟩

/-- A line that breaks off is reported between two that run, of which the second goes on with what
the first left. -/
theorem session_outlives_lines_of_mistake :
    let settings : Settings := { inputs := [("a", [7, 8])], maxSteps := some 20 }
    let stdin := "x := get_input(a)\nx :=\ny := x + get_input(a)\n"
    let request : Request := { sub := .repl, given := {} }
    ∃ shared error answers last first second middle, startRepl settings = .ok shared ∧
      carryOut request settings stdin 30 0 =
        some { stdout := prompt ++ shown answers ++ "\n", stderr := complained answers, exit := 0,
               crash := none } ∧
      answers = first ++
        { stdout := "", stderr := "Error: " ++ ParseError.message error ++ "\n",
          shared := middle } :: second ∧
      Conducts 30 .warning 20 shared ["x := get_input(a)\n"] first middle ∧
      Conducts 30 .warning 20 middle ["y := x + get_input(a)\n"] second last := by
  intro settings stdin request
  have lines : splitLines [] (readText stdin).toList =
      ["x := get_input(a)\n", "x :=\n", "y := x + get_input(a)\n"] := by decide +kernel
  obtain ⟨shared, started⟩ : ∃ shared, startRepl settings = .ok shared := ⟨_, rfl⟩
  have first : Program.parseWithin 30 "x := get_input(a)\n" =
      .ok ⟨[.assign "x" (.input "a")]⟩ := by decide +kernel
  have complains : ((Program.parseWithin 30 "x :=\n").mapError fun mishap =>
      (ordinary? mishap).isSome) = .error true := by decide +kernel
  have third : Program.parseWithin 30 "y := x + get_input(a)\n" =
      .ok ⟨[.assign "y" (.binary .add (.var "x") (.input "a"))]⟩ := by decide +kernel
  obtain ⟨mishap, refused, ordinary⟩ := exists_error_of_mapError complains
  obtain ⟨error, isError⟩ := Option.isSome_iff_exists.mp ordinary
  obtain ⟨rfl, -⟩ := ordinary?_eq_some isError
  have answered :
      ∀ line ∈ splitLines [] (readText stdin).toList, ∀ mishap, ¬Stumbles 30 line mishap := by
    rw [lines]
    simp only [List.forall_mem_cons, List.not_mem_nil, false_imp_iff, implies_true, and_true]
    exact ⟨not_stumbles_of_short (by decide) (by simp [first]),
      not_stumbles_of_short (by decide) (by simp [refused]),
      not_stumbles_of_short (by decide) (by simp [third])⟩
  obtain ⟨answers, last, -, carried, asWithout⟩ :=
    ((session_outlives_lines (show request.sub = .repl from rfl) started stdin 0).1 30).1 answered
  obtain ⟨first, second, middle, reported, front, back⟩ :=
    asWithout ["x := get_input(a)\n"] "x :=\n" ["y := x + get_input(a)\n"] error lines (by decide)
      refused
  exact ⟨shared, error, answers, last, first, second, middle, started, carried, reported, front,
    back⟩

/-- A line of 4301 zeros ends the session with an error. -/
theorem session_ends_at_long_number :
    ∃ out, carryOut { sub := .repl, given := {} } {} (String.ofList (List.replicate 4301 '0')) 1000
        0 = some out ∧ out.exit = 1 ∧ out.crash.isSome = true := by
  have stumbles : Stumbles 1000 _ _ := stumbles_zeros (show Decimal.digitLimit < 4301 by decide)
  refine ⟨_, carryOut_repl rfl rfl _ 1000 0, ?_⟩
  rw [session_of_stumbles (lines_zeros (by decide)) (.nil _) stumbles]
  exact ⟨rfl, rfl⟩

end Repl

end Command

end FlatIL
