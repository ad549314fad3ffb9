import FlatIL.Proofs.Difference
import FlatIL.Proofs.Message
import FlatIL.Proofs.Persistence
import FlatIL.Proofs.Repl
import FlatIL.Proofs.Seeding

/-!
# Transcripts of sessions

A transcript is what a session has shown so far: prompts, reports of variables and memory cells, and
how lines ended. A reader that knows nothing but the transcript takes over, line after line, what
the reports say. What it holds is what the session shares, since a report lists all that a line
changed and nothing else, no line takes anything away, and no other text looks like a report.
-/

namespace FlatIL.Command.Repl

open Text

/-! ## Reading a transcript -/

/-- What a report says of one variable or memory cell. -/
inductive Entry where
  | binding (name : String) (value : Word)
  | cell (address value : Word)
  deriving DecidableEq

/-- The word that a numeral stands for. -/
def word? (cs : List Char) : Option Word :=
  if cs ≠ [] ∧ cs.all Char.isDigit then Word.ofInt? (Decimal.value cs) else none

/-- The value behind an equals sign. -/
def valueOf? : List Char → Option Word
  | ' ' :: '=' :: ' ' :: cs => word? cs
  | _ => none

/-- The entry on a line, if the line is the report of one. -/
def Entry.read? : List Char → Option Entry
  | '[' :: cs =>
    match cs.dropWhile Char.isDigit with
    | ']' :: rest => do
      let address ← word? (cs.takeWhile Char.isDigit)
      let value ← valueOf? rest
      return .cell address value
    | _ => none
  | cs => do
    let name := String.ofList (cs.takeWhile Name.isPart)
    let value ← valueOf? (cs.dropWhile Name.isPart)
    if Name.isName name then some (.binding name value) else none

/-- A line without the prompts in front of it. -/
def afterPrompts : List Char → List Char
  | '>' :: ' ' :: cs => afterPrompts cs
  | cs => cs

/-- The entries in a transcript. -/
def entries (text : String) : List Entry :=
  (text.toList.splitOn '\n').filterMap fun line => Entry.read? (afterPrompts line)

/-- Variables and memory cells as a reader of a transcript knows them. -/
structure Data where
  env : Env := .empty
  memory : Memory := .empty

namespace Data

/-- Takes an entry over. -/
def take (data : Data) : Entry → Data
  | .binding name value => { data with env := data.env.insert name value }
  | .cell address value => { data with memory := data.memory.insert address value }

/-- Takes entries over one after the other. -/
def takeAll (data : Data) (listed : List Entry) : Data :=
  listed.foldl take data

/-- What is known from a transcript alone. -/
def ofTranscript (text : String) : Data :=
  takeAll {} (entries text)

/-- Entries of variables and then of memory cells are taken over by the two tables. -/
theorem takeAll_append (data : Data) (bindings : List (String × Word)) (cells : List (Word × Word))
    (more : List Entry) :
    data.takeAll (bindings.map (fun entry => .binding entry.1 entry.2) ++
        cells.map (fun entry => .cell entry.1 entry.2) ++ more) =
      takeAll { env := data.env.insertAll bindings, memory := data.memory.insertAll cells }
        more := by
  have bound (data : Data) : data.takeAll (bindings.map fun entry => .binding entry.1 entry.2) =
      { data with env := data.env.insertAll bindings } := by
    induction bindings generalizing data with
    | nil => rfl
    | cons entry bindings ih => exact ih _
  have written (data : Data) : data.takeAll (cells.map fun entry => .cell entry.1 entry.2) =
      { data with memory := data.memory.insertAll cells } := by
    induction cells generalizing data with
    | nil => rfl
    | cons entry cells ih => exact ih _
  unfold takeAll at bound written ⊢
  rw [List.foldl_append, List.foldl_append, bound, written]

end Data

/-! ## Reports are read back -/

/-- A prompt is passed over. -/
theorem entries_prompt (text : String) : entries (prompt ++ text) = entries text := by
  have chars : (prompt ++ text).toList = '>' :: ' ' :: text.toList := by
    rw [String.toList_append]
    rfl
  unfold entries
  rw [chars]
  unfold List.splitOn
  rw [List.splitOnP_cons_eq_if_modifyHead, List.splitOnP_cons_eq_if_modifyHead]
  cases lines : List.splitOnP (· == '\n') text.toList with
  | nil => exact absurd lines (List.splitOnP_ne_nil _ _)
  | cons line lines =>
    have passed : afterPrompts ('>' :: ' ' :: line) = afterPrompts line := rfl
    simp [List.filterMap_cons, passed]

/-- A line is read on its own. -/
theorem entries_line {line : String} (inLine : InLine line) (text : String) :
    entries (line ++ "\n" ++ text) =
      (Entry.read? (afterPrompts line.toList)).toList ++ entries text := by
  have apart : ∀ c ∈ line.toList, (c == '\n') = false := by
    intro c inside
    rw [beq_eq_false_iff_ne]
    rintro rfl
    exact inLine inside
  have chars : (line ++ "\n" ++ text).toList = line.toList ++ '\n' :: text.toList := by
    rw [String.toList_append, String.toList_append, List.append_assoc]
    rfl
  unfold entries
  rw [chars]
  unfold List.splitOn
  rw [List.splitOnP_append_cons_of_forall_mem apart '\n' (by decide), List.filterMap_cons]
  cases Entry.read? (afterPrompts line.toList) <;> rfl

/-- The numeral of a word is read as the word. -/
theorem word?_digits (w : Word) : word? (Decimal.digits w.toNat) = some w := by
  have all : (Decimal.digits w.toNat).all Char.isDigit = true :=
    List.all_eq_true.mpr (Decimal.isDigit_of_mem_digits w.toNat)
  rw [word?, if_pos ⟨Decimal.digits_ne_nil _, all⟩, Decimal.value_digits]
  exact Word.ofInt?_eq_some.mpr rfl

/-- A line that starts with something else has no prompt in front of it. -/
theorem afterPrompts_of_ne {c : Char} (other : c ≠ '>') (cs : List Char) :
    afterPrompts (c :: cs) = c :: cs := by
  unfold afterPrompts
  split
  · next same => exact absurd (List.cons.inj same).1 other
  · rfl

/-- A line that starts with something else than a bracket is read as the report of a variable. -/
theorem Entry.read?_of_ne {c : Char} (other : c ≠ '[') (cs : List Char) :
    Entry.read? (c :: cs) =
      (valueOf? ((c :: cs).dropWhile Name.isPart)).bind fun value =>
        if Name.isName (String.ofList ((c :: cs).takeWhile Name.isPart)) then
          some (.binding (String.ofList ((c :: cs).takeWhile Name.isPart)) value)
        else none := by
  unfold Entry.read?
  split
  · next same => exact absurd (List.cons.inj same).1 other
  · rfl

/-- A variable is read back from its report. -/
theorem entries_bindingLine {name : String} (named : Name.isName name = true) (value : Word)
    (text : String) : entries (bindingLine name value ++ text) =
      .binding name value :: entries text := by
  have inLine : InLine (name ++ " = " ++ Decimal.ofNat value.toNat) :=
    .append (.append (inLine_of_isName named) (by decide)) (inLine_ofNat _)
  have chars : (name ++ " = " ++ Decimal.ofNat value.toNat).toList =
      name.toList ++ ' ' :: '=' :: ' ' :: Decimal.digits value.toNat := by
    simp [Decimal.ofNat]
  have shaped : Name.hasShape name.toList = true := by
    simp only [Name.isName, Bool.and_eq_true] at named
    exact named.1
  cases spelled : name.toList with
  | nil => simp [spelled, Name.hasShape] at shaped
  | cons c cs =>
    rw [spelled, Name.hasShape, Bool.and_eq_true] at shaped
    obtain ⟨starts, -⟩ := shaped
    -- A name starts neither like a prompt nor like the report of a memory cell.
    have other (d : Char) (bad : Name.isStart d = false) : c ≠ d := by
      rintro rfl
      exact absurd starts (by simp [bad])
    have all : ∀ d ∈ name.toList, Name.isPart d = true := fun d => Name.isPart_of_mem named
    have stops : ∀ d ∈ (' ' :: '=' :: ' ' :: Decimal.digits value.toNat).head?,
        Name.isPart d = false := by
      intro d first
      obtain rfl := Option.some.inj first
      decide
    obtain ⟨taken, dropped⟩ := Token.takeWhile_append_of_apart all stops
    rw [spelled, List.cons_append] at taken dropped
    rw [bindingLine, entries_line inLine, chars, spelled, List.cons_append,
      afterPrompts_of_ne (other '>' (by decide)), Entry.read?_of_ne (other '[' (by decide)), taken,
      dropped, ← spelled, String.ofList_toList]
    simp [valueOf?, word?_digits, named]

/-- A memory cell is read back from its report. -/
theorem entries_cellLine (address value : Word) (text : String) :
    entries (cellLine address value ++ text) = .cell address value :: entries text := by
  have inLine : InLine ("[" ++ Decimal.ofNat address.toNat ++ "] = " ++
      Decimal.ofNat value.toNat) :=
    .append (.append (.append (by decide) (inLine_ofNat _)) (by decide)) (inLine_ofNat _)
  have chars : ("[" ++ Decimal.ofNat address.toNat ++ "] = " ++ Decimal.ofNat value.toNat).toList =
      '[' :: (Decimal.digits address.toNat ++
        ']' :: ' ' :: '=' :: ' ' :: Decimal.digits value.toNat) := by
    simp [Decimal.ofNat]
  have stops : ∀ d ∈ (']' :: ' ' :: '=' :: ' ' :: Decimal.digits value.toNat).head?,
      Char.isDigit d = false := by
    intro d first
    obtain rfl := Option.some.inj first
    decide
  obtain ⟨taken, dropped⟩ :=
    Token.takeWhile_append_of_apart (Decimal.isDigit_of_mem_digits address.toNat) stops
  rw [cellLine, entries_line inLine, chars, afterPrompts_of_ne (by decide), Entry.read?, taken,
    dropped]
  simp [valueOf?, word?_digits]

/-- How a line ended is read as no entry, if its fault is told on one line. -/
theorem entries_endingLine {s : State} (told : ∀ message ∈ s.faultMessage, InLine message)
    (text : String) : entries (endingLine s ++ text) = entries text := by
  unfold endingLine
  split
  · next fault _ faulted =>
    have kept : InLine (s.faultMessage.getD "None") := by
      cases message : s.faultMessage with
      | none => exact (by decide : InLine "None")
      | some message' => exact told message' message
    have inLine : InLine ("fault: " ++ fault.kind ++ " (" ++ s.faultMessage.getD "None" ++ ")") :=
      .append (.append (.append (.append (by decide) fault.inLine_kind) (by decide)) kept)
        (by decide)
    have chars : ("fault: " ++ fault.kind ++ " (" ++ s.faultMessage.getD "None" ++ ")").toList =
        'f' :: 'a' :: 'u' :: 'l' :: 't' :: ':' ::
          (" " ++ fault.kind ++ " (" ++ s.faultMessage.getD "None" ++ ")").toList := by
      simp
    have broken : ")\n" = ")" ++ "\n" := rfl
    rw [faultLine, broken, ← String.append_assoc, entries_line inLine, chars]
    rfl
  · have inLine : InLine ("step budget exhausted after " ++ Decimal.ofNat s.steps ++ " steps") :=
      .append (.append (by decide) (inLine_ofNat _)) (by decide)
    have chars : ("step budget exhausted after " ++ Decimal.ofNat s.steps ++ " steps").toList =
        's' :: 't' :: 'e' :: 'p' :: ' ' :: 'b' ::
          ("udget exhausted after " ++ Decimal.ofNat s.steps ++ " steps").toList := by
      simp
    have broken : " steps\n" = " steps" ++ "\n" := rfl
    rw [broken, ← String.append_assoc, entries_line inLine, chars]
    rfl
  · rw [String.empty_append]

/-! ## One line -/

/-- All variables that are shared have names of the language. -/
def Named (shared : Shared) : Prop :=
  ∀ name ∈ shared.env.keys, Name.isName name = true

/-- What a reader knows is what is shared. -/
structure SameData (shared : Shared) (data : Data) : Prop where
  env : ∀ name, data.env.get? name = shared.env.get? name
  memory : ∀ address, data.memory.get? address = shared.memory.get? address

/-- A text reports what a line changed: one line for each variable and each memory cell that
differs, and then at most how the line ended. -/
structure Reports (before after : Shared) (text : String) (bindings : List (String × Word))
    (cells : List (Word × Word)) (ending : String) : Prop where
  /-- The variables that differ, by name. -/
  env : before.env.Shows after.env bindings
  /-- The memory cells that differ, by address. -/
  memory : before.memory.Shows after.memory cells
  text : text = String.join (bindings.map fun entry => bindingLine entry.1 entry.2) ++
    String.join (cells.map fun entry => cellLine entry.1 entry.2) ++ ending
  /-- How the line ended is no entry. -/
  silent : ∀ more, entries (ending ++ more) = entries more

/-- Variables are read back from their reports. -/
theorem entries_bindingLines {bindings : List (String × Word)}
    (named : ∀ entry ∈ bindings, Name.isName entry.1 = true) (text : String) :
    entries (String.join (bindings.map fun entry => bindingLine entry.1 entry.2) ++ text) =
      bindings.map (fun entry => .binding entry.1 entry.2) ++ entries text := by
  induction bindings with
  | nil => simp
  | cons entry bindings ih =>
    obtain ⟨first, others⟩ := List.forall_mem_cons.mp named
    rw [List.map_cons, String.join_cons, String.append_assoc, entries_bindingLine first, ih others]
    rfl

/-- Memory cells are read back from their reports. -/
theorem entries_cellLines (cells : List (Word × Word)) (text : String) :
    entries (String.join (cells.map fun entry => cellLine entry.1 entry.2) ++ text) =
      cells.map (fun entry => .cell entry.1 entry.2) ++ entries text := by
  induction cells with
  | nil => simp
  | cons entry cells ih =>
    rw [List.map_cons, String.join_cons, String.append_assoc, entries_cellLine, ih]
    rfl

namespace Reports

variable {before after : Shared} {text ending : String} {bindings : List (String × Word)}
  {cells : List (Word × Word)}

/-- What is reported is read back. -/
theorem entries_append (reports : Reports before after text bindings cells ending)
    (named : Named after) (more : String) :
    entries (text ++ more) =
      bindings.map (fun entry => .binding entry.1 entry.2) ++
        cells.map (fun entry => .cell entry.1 entry.2) ++ entries more := by
  have names : ∀ entry ∈ bindings, Name.isName entry.1 = true := by
    intro entry listed
    have bound := reports.env.value entry.1 entry.2 listed
    exact named entry.1 (Table.mem_keys_iff.mpr (by simp [bound]))
  rw [reports.text, String.append_assoc, String.append_assoc, entries_bindingLines names,
    entries_cellLines, reports.silent, List.append_assoc]

/-- A reader that takes a report over knows what is shared after it. -/
theorem sameData (reports : Reports before after text bindings cells ending) {data : Data}
    (same : SameData before data) :
    SameData after
      { env := data.env.insertAll bindings, memory := data.memory.insertAll cells } :=
  ⟨reports.env.get?_insertAll same.env, reports.memory.get?_insertAll same.memory⟩

end Reports

variable {depth : Nat} {level : Level} {budget : Nat} {shared last : Shared} {line : String}
  {lines : List String} {answer : Answer} {answers : List Answer}

/-- A line that puts out nothing and changes nothing reports nothing. -/
theorem reports_nothing (shared : Shared) : Reports shared shared "" [] [] "" :=
  ⟨.refl _, .refl _, by simp, by simp⟩

/-- A line keeps the variables named and reports what it changes. -/
theorem Handles.reports (handles : Handles depth level budget shared line answer)
    (named : Named shared) :
    Named answer.shared ∧ ∃ bindings cells ending,
      Reports shared answer.shared answer.stdout bindings cells ending := by
  cases handles with
  | blank blank => exact ⟨named, [], [], "", reports_nothing shared⟩
  | refused solid refused located => exact ⟨named, [], [], "", reports_nothing shared⟩
  | @ran p s solid parsed ran =>
    have wellFormed := Program.wellFormed_of_parse (Program.parse_of_parseWithin parsed)
    have grows := p.grows_of_steps (Program.steps_of_runUntil ran)
    have told : ∀ message ∈ s.faultMessage, InLine message := by
      intro message kept
      obtain ⟨-, same⟩ | ⟨fault, -, told, stmt, inside, pc, raises⟩ := grows.fault
      · cases same.symm.trans kept
      · obtain rfl := Option.some.inj (told.symm.trans kept)
        exact raises.inLine_message (wellFormed stmt inside)
    refine ⟨?_, changedEnv shared.env s, changedMemory shared.memory s, endingLine s, ?_, ?_, rfl,
      entries_endingLine told⟩
    · intro name bound
      obtain before | assigned := grows.targets name bound
      · exact named name before
      · exact Program.isName_of_mem_targets wellFormed assigned
    · exact Table.shows_changes grows.env.subset
    · exact Table.shows_changes grows.memory.subset

/-! ## Line after line -/

/-- What a session shows tells a reader what it shares. -/
theorem Conducts.sameData (conducts : Conducts depth level budget shared lines answers last)
    (named : Named shared) {data : Data} (same : SameData shared data) :
    Named last ∧ SameData last (data.takeAll (entries (shown answers))) := by
  induction conducts generalizing data with
  | nil shared => exact ⟨named, same⟩
  | @cons shared last line lines answer answers handles rest ih =>
    obtain ⟨kept, bindings, cells, ending, reports⟩ := handles.reports named
    -- A report is made of whole lines, so the prompt behind it starts a line and is passed over.
    have read : entries (shown (answer :: answers)) =
        bindings.map (fun entry => .binding entry.1 entry.2) ++
          cells.map (fun entry => .cell entry.1 entry.2) ++ entries (shown answers) := by
      rw [← entries_prompt (shown answers), ← reports.entries_append kept, shown, List.map_cons,
        String.join_cons, String.append_assoc]
      rfl
    rw [read, Data.takeAll_append]
    exact ih kept (reports.sameData same)

/-- A line without too many digits in a row ends the session only if it is too deep. -/
theorem Stumbles.tooDeep {mishap : Cursor.Mishap} (stumbles : Stumbles depth line mishap)
    (short : ∀ count, HasDigitRun line.toList count → count ≤ 4300) : mishap = .tooDeep := by
  obtain deep | ⟨count, -, -, long, run⟩ := stumbles.cases
  · exact deep
  · exact absurd long (Nat.not_lt.mpr (short count run))

/-- At every point of a session in which no line has too many digits in a row, what a reader knows
from the transcript alone is what is shared. Only a line that is too deep ends the session; until
then the next line reports exactly what it changes, each variable and each memory cell whose value
differs from before once, by name and by address. -/
theorem transcript_determines_data (depth : Nat) (inputs : Inputs) (level : Level) (budget : Nat)
    {lines done rest : List String}
    (short : ∀ line ∈ lines, ∀ count, HasDigitRun line.toList count → count ≤ 4300)
    (split : lines = done ++ rest) :
    ∃ shared out, feedAll depth level budget { inputs } { stdout := prompt } done = (shared, out) ∧
      feedAll depth level budget { inputs } { stdout := prompt } lines =
        (if out.crash.isSome then (shared, out)
          else feedAll depth level budget shared out rest) ∧
      (out.crash = none ↔ ∀ line ∈ done, ¬Stumbles depth line .tooDeep) ∧
      (∀ text, splitLines [] text.toList = lines →
        ∃ later, (session depth level budget { inputs } text).stdout = out.stdout ++ later) ∧
      SameData shared (.ofTranscript out.stdout) ∧
      (out.crash = none → ∀ line more, rest = line :: more →
        (Stumbles depth line .tooDeep ∧
          feed depth level budget shared out line = (shared, out.abort .tooDeep)) ∨
        ∃ next text log bindings cells ending,
          feed depth level budget shared out line =
            (next, { out with stdout := out.stdout ++ text, stderr := out.stderr ++ log }) ∧
          Reports shared next text bindings cells ending) := by
  subst split
  have begun : ({ stdout := prompt } : Output).crash = none := rfl
  have named : Named { inputs } := fun name bound => nomatch bound
  have unknown : SameData { inputs } ({} : Data) := ⟨fun _ => rfl, fun _ => rfl⟩
  obtain ⟨answers, middle, front⟩ | ⟨before, line, after, answers, middle, mishap, rfl, front,
    stumbles⟩ := conducts_or_stumbles depth level budget { inputs } done
  all_goals obtain ⟨namedMiddle, same⟩ := front.sameData named unknown
  · have fed := front.feedAll_append begun rest
    refine ⟨middle, { stdout := prompt ++ shown answers, stderr := complained answers }, ?_, ?_,
      ⟨fun _ => front.not_stumbles _, fun _ => rfl⟩, ?_, ?_, ?_⟩
    · simpa [feedAll] using front.feedAll_append begun []
    · simpa using fed
    · intro text isText
      obtain ⟨ending, ended⟩ := exists_stdout_session depth level budget { inputs } text
      rw [isText, fed] at ended
      obtain ⟨later, added⟩ := exists_stdout_feedAll _ _ rest
      rw [added, String.append_assoc] at ended
      exact ⟨_, ended⟩
    · rw [Data.ofTranscript, entries_prompt]
      exact same
    · rintro - line more rfl
      obtain ⟨answer, handles⟩ | ⟨mishap, stumbles⟩ :=
        handles_or_stumbles depth level budget middle line
      · obtain ⟨-, bindings, cells, ending, reports⟩ := handles.reports namedMiddle
        exact .inr ⟨_, _, _, bindings, cells, ending, feed_of_handles handles _, reports⟩
      · obtain rfl := stumbles.tooDeep (short line (by simp))
        exact .inl ⟨stumbles, feed_of_stumbles stumbles _⟩
  · obtain rfl := stumbles.tooDeep (short line (by simp))
    have fed := front.feedAll_of_stumbles stumbles begun (after ++ rest)
    refine ⟨middle, _, front.feedAll_of_stumbles stumbles begun after, ?_,
      ⟨fun going => ?_, fun none => ?_⟩, ?_, ?_, fun going => ?_⟩
    · simpa using fed
    · cases going
    · exact absurd stumbles (none line (by simp))
    · intro text isText
      obtain ⟨ending, ended⟩ := exists_stdout_session depth level budget { inputs } text
      rw [isText, List.append_assoc, List.cons_append, fed] at ended
      exact ⟨_, ended⟩
    · rw [Data.ofTranscript, entries_prompt]
      exact same
    · cases going

/-- A line runs out of its budget, one is refused, and one faults: what the first two show gives the
variable away that the third reads, and the third reports what it changes. -/
theorem transcript_determines_data_of_mixed_lines :
    let done := ["x := 7 goto 0\n", "x :=\n"]
    let last := "store(x, 1) assert 0\n"
    ∃ shared out next text log bindings cells ending,
      feedAll 30 .warning 3 {} { stdout := prompt } done = (shared, out) ∧
      SameData shared (.ofTranscript out.stdout) ∧
      (Data.ofTranscript out.stdout).env.get? "x" = some 7 ∧
      feed 30 .warning 3 shared out last =
        (next, { out with stdout := out.stdout ++ text, stderr := out.stderr ++ log }) ∧
      Reports shared next text bindings cells ending := by
  intro done last
  let p : Program := ⟨[.assign "x" (.lit 7), .goto (.lit 0)]⟩
  have parsed : Program.parseWithin 30 "x := 7 goto 0\n" = .ok p := by decide +kernel
  have keeps : ((p.runFor 3 ({} : Shared).start).map fun s => s.env.get? "x") = .ok (some 7) := by
    decide +kernel
  obtain ⟨s, ran, bound⟩ := exists_ok_of_map keeps
  have complains : ((Program.parseWithin 30 "x :=\n").mapError fun mishap =>
      (ordinary? mishap).isSome) = .error true := by decide +kernel
  obtain ⟨mishap, refused, ordinary⟩ := exists_error_of_mapError complains
  obtain ⟨error, isError⟩ := Option.isSome_iff_exists.mp ordinary
  obtain ⟨rfl, place, located⟩ := ordinary?_eq_some isError
  have shallow : Program.parseWithin 30 last =
      .ok ⟨[.store (.var "x") (.lit 1), .assert (.lit 0)]⟩ := by decide +kernel
  have conducts : Conducts 30 .warning 3 {} done _ _ :=
    .cons (.ran (by decide) parsed ran) (.cons (.refused (by decide) refused located) (.nil _))
  have begun : ({ stdout := prompt } : Output).crash = none := rfl
  have fed := conducts.feedAll_append begun []
  have short : ∀ line ∈ done ++ [last], ∀ count, HasDigitRun line.toList count → count ≤ 4300 := by
    intro line listed count run
    have few : ∀ line ∈ done ++ [last], line.toList.length ≤ 4300 := by decide
    exact Nat.le_trans run.le_length (few line listed)
  obtain ⟨shared, out, upTo, -, goesOn, -, same, reported⟩ :=
    transcript_determines_data 30 .empty .warning 3 short rfl
  obtain ⟨deep, -⟩ | ⟨next, text, log, bindings, cells, ending, feeds, reports⟩ :=
    reported (goesOn.mpr (conducts.not_stumbles _)) last [] rfl
  · cases shallow.symm.trans deep.stopped
  · rw [List.append_nil, upTo] at fed
    obtain rfl : shared = .ofState s := (Prod.mk.inj fed).1
    exact ⟨_, out, next, text, log, bindings, cells, ending, upTo, same,
      (same.env "x").trans bound, feeds, reports⟩

end FlatIL.Command.Repl
