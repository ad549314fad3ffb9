import FlatIL.Proofs.Parser.Predictive

/-!
# Errors stand at the first token that cannot go on

A text that is scanned but not parsed is refused at one of its tokens, or at its end. The tokens in
front of that place start a text that is accepted, and no text that is accepted goes on from them
with what stands there.
-/

namespace FlatIL

open TokenStream

namespace Parser

variable {α : Type}

/-- The stream is that of a text that the parser accepts. -/
def Accepts (parser : Parser α) (stream : TokenStream) : Prop :=
  ∃ text a, scan text = .ok stream ∧ parser.ofText text = .ok a

/-- `StopsAt parser stream i`: the first tokens of the stream, `i` in number, can be gone on from,
but not with what stands behind them. What does not go on does not do so in any place, so tokens are
compared without their places there. -/
structure StopsAt (parser : Parser α) (stream : TokenStream) (i : Nat) : Prop where
  /-- An accepted text starts with the tokens in front. -/
  before : ∃ accepted, parser.Accepts accepted ∧ stream.body.take i <+: accepted.body
  /-- No accepted text starts with the tokens in front and the one that stands there. -/
  here (inside : i < stream.body.length) (accepted : TokenStream)
    (accepts : parser.Accepts accepted) :
    ¬ (stream.body.take (i + 1)).map Token.unplaced <+: accepted.body.map Token.unplaced
  /-- If the text ends there, no accepted text has its tokens. -/
  atEnd (ends : i = stream.body.length) (accepted : TokenStream)
    (accepts : parser.Accepts accepted) :
    accepted.body.map Token.unplaced ≠ stream.body.map Token.unplaced

/-- What is spelled does not depend on where the tokens stand. -/
def Relocatable (spells : List Token → α → Prop) : Prop :=
  ∀ tokens others a, spells tokens a →
    others.map Token.unplaced = tokens.map Token.unplaced → spells others a

section

variable {parser : Parser α} {spells : List Token → α → Prop} (exact : Exact parser spells)
  (relocatable : Relocatable spells)

include exact

/-- The tokens of an accepted text are valid and spell something. -/
theorem Exact.spells_of_accepts {stream : TokenStream} (accepts : parser.Accepts stream) :
    AllValid stream.body ∧ ∃ a, spells stream.body a := by
  obtain ⟨text, a, scanned, parsed⟩ := accepts
  obtain ⟨tokens, scans, spelled⟩ := exact.ofText_eq_ok_iff.mp parsed
  obtain rfl := Except.ok.inj (scanned.symm.trans scans.scanFrom_eq)
  exact ⟨scans.valid, a, spelled⟩

include relocatable

/-- The first tokens of a text start an accepted text if they can be gone on from. -/
theorem Exact.accepts_front {text : List Char} {used rest : List Token}
    (scans : Scans {} text (used ++ rest))
    (goesOn : ∃ more a, AllWritten more ∧ spells (used ++ more) a) :
    ∃ accepted, parser.Accepts accepted ∧ used <+: accepted.body := by
  obtain ⟨more, a, written, spelled⟩ := goesOn
  obtain ⟨before, -, -, front⟩ := scans.split
  obtain ⟨back, others, feed, behind, same⟩ :=
    exists_scans_of_written written (Location.advance {} before)
  have whole := front.append feed behind
  have spelledThere : spells (used ++ others) a := by
    refine relocatable _ _ a spelled ?_
    rw [List.map_append, List.map_append, same]
  obtain ⟨source, written⟩ : ∃ source : String, source.toList = before ++ back :=
    ⟨_, String.toList_ofList⟩
  rw [← written] at whole
  exact ⟨_, ⟨source, a, whole.scanFrom_eq, exact.ofText_eq_ok_iff.mpr ⟨_, whole, spelledThere⟩⟩,
    List.prefix_append used others⟩

/-- No accepted text has tokens on which the parser fails. -/
theorem Exact.ne_of_fails {used others left : List Token} {failure : Failure}
    (valid : AllValid (used ++ others))
    (fails : parser (used ++ others) = (.error failure, left)) {accepted : TokenStream}
    (accepts : parser.Accepts accepted) :
    accepted.body.map Token.unplaced ≠ (used ++ others).map Token.unplaced := by
  intro same
  obtain ⟨-, a, spelled⟩ := exact.spells_of_accepts accepts
  obtain ⟨rest, parsed⟩ := (exact _ valid a).mpr (relocatable _ _ a spelled same.symm)
  rw [fails] at parsed
  cases parsed

/-- A parser that predicts stops where it fails. -/
theorem Exact.stopsAt {text : List Char} {used rest : List Token} {stream : TokenStream}
    {expected : Expectation} (scans : Scans {} text stream.body)
    (split : stream.body = used ++ rest)
    (goesOn : ∃ more a, AllWritten more ∧ spells (used ++ more) a)
    (fails : ∀ others, AllValid others → others.head? = rest.head? →
      ∃ left, parser (used ++ others) = (.error (.unexpected expected rest.head?), left)) :
    parser.StopsAt stream used.length := by
  have valid : AllValid (used ++ rest) := by
    rw [← split]
    exact scans.valid
  refine ⟨?_, ?_, ?_⟩
  · rw [split] at scans
    rw [split, List.take_left]
    exact exact.accepts_front relocatable scans goesOn
  · intro inside accepted accepts starts
    obtain ⟨token, behind, rfl⟩ : ∃ token behind, rest = token :: behind := by
      rw [split, List.length_append] at inside
      exact List.exists_cons_of_length_pos (by omega)
    have front : stream.body.take (used.length + 1) = used ++ [token] := by
      rw [split, List.take_length_add_append]
      rfl
    -- What stands behind the token in the accepted text could stand behind it here as well.
    rw [front] at starts
    obtain ⟨more, whole⟩ := starts
    obtain ⟨first, back, parts, sameFirst, rfl⟩ := List.map_eq_append_iff.mp whole.symm
    have validBack : AllValid (token :: back) := by
      have validAccepted := (exact.spells_of_accepts accepts).1
      rw [parts] at validAccepted
      exact List.forall_mem_cons.mpr ⟨valid token (by simp), validAccepted.right⟩
    obtain ⟨left, failed⟩ := fails (token :: back) validBack rfl
    refine exact.ne_of_fails relocatable (valid.replace validBack) failed accepts ?_
    rw [← whole]
    simp
  · intro ends accepted accepts
    obtain ⟨left, failed⟩ := fails rest valid.right rfl
    rw [split]
    exact exact.ne_of_fails relocatable valid failed accepts

/-- The text is refused at a token, or at its end, where the parser stops. -/
theorem Exact.exists_stopsAt (predictive : ∀ n, Predictive n parser spells) {text : String}
    {stream : TokenStream} (scanned : scan text = .ok stream) {error : ParseError}
    (refused : parser.ofText text = .error error) :
    ∃ i token, stream.toList[i]? = some token ∧ error.location? = some token.location ∧
      parser.StopsAt stream i := by
  obtain ⟨scans, -⟩ := scanFrom_eq_ok.mp scanned
  rw [Parser.ofText, scanned] at refused
  cases (predictive _).predicts stream.body scans.valid (Nat.lt_succ_self _) with
  | ok used rest a split spelled reads =>
    have valid := scans.valid
    rw [split] at valid
    have parsed := reads rest valid.right rfl
    rw [← split] at parsed
    simp [TokenStream.parse, parsed] at refused
  | error used rest expected split goesOn fails =>
    have stops := exact.stopsAt relocatable scans split goesOn fails
    have valid := scans.valid
    rw [split] at valid
    obtain ⟨left, failed⟩ := fails rest valid.right rfl
    rw [← split] at failed
    simp only [TokenStream.parse, failed, Except.error.injEq] at refused
    subst refused
    refine ⟨used.length, rest.head?.getD (endToken stream.stop), ?_, ?_, stops⟩
    · cases rest <;> simp [TokenStream.toList, split]
    · cases rest <;> rfl

end

end Parser

/-- A text that is scanned but not parsed, as a program or as an expression, is refused at one of
its tokens, the end token included: some accepted text starts with the tokens in front of it, and
none goes on from there with it. -/
theorem TokenStream.error_at_first_misfit {text : String} {stream : TokenStream}
    (scanned : scan text = .ok stream) :
    (∀ error, Program.parse text = .error error →
      ∃ i token, stream.toList[i]? = some token ∧ error.location? = some token.location ∧
        Parser.program.StopsAt stream i) ∧
    ∀ error, Expr.parse text = .error error →
      ∃ i token, stream.toList[i]? = some token ∧ error.location? = some token.location ∧
        Parser.wholeExpression.StopsAt stream i := by
  constructor
  · intro error refused
    exact Parser.exact_program.exists_stopsAt (fun _ _ _ spelled same => spelled.relocate same)
      Parser.predictive_program scanned refused
  · intro error refused
    exact Parser.exact_wholeExpression.exists_stopsAt
      (fun _ _ _ spelled same => spelled.relocate same) Parser.predictive_wholeExpression scanned
      refused

/-- A program whose condition lacks an operand is refused at `then`, and as an expression at
`if`. -/
theorem TokenStream.error_at_first_misfit_of_missing_operand :
    let text := "if load(x + then 1 else 2"
    ∃ stream, scan text = .ok stream ∧
      (∃ error i token, Program.parse text = .error error ∧ stream.toList[i]? = some token ∧
        error.location? = some token.location ∧ token.location = { line := 1, column := 13 } ∧
        Parser.program.StopsAt stream i) ∧
      ∃ error i token, Expr.parse text = .error error ∧ stream.toList[i]? = some token ∧
        error.location? = some token.location ∧ token.location = { line := 1, column := 1 } ∧
        Parser.wholeExpression.StopsAt stream i := by
  intro text
  have scans : ((scan text).map fun stream => stream.body.length) = .ok 9 := by decide +kernel
  have located : (Program.parse text).mapError ParseError.location? =
      .error (some { line := 1, column := 13 }) := by decide +kernel
  have located' : (Expr.parse text).mapError ParseError.location? =
      .error (some { line := 1, column := 1 }) := by decide +kernel
  obtain ⟨stream, scanned, -⟩ := exists_ok_of_map scans
  obtain ⟨error, refused, here⟩ := exists_error_of_mapError located
  obtain ⟨error', refused', here'⟩ := exists_error_of_mapError located'
  obtain ⟨stops, stops'⟩ := error_at_first_misfit scanned
  obtain ⟨i, token, at_i, place, stopsAt⟩ := stops error refused
  obtain ⟨j, other, at_j, place', stopsAt'⟩ := stops' error' refused'
  exact ⟨stream, scanned,
    ⟨error, i, token, refused, at_i, place, Option.some.inj (place.symm.trans here), stopsAt⟩,
    error', j, other, refused', at_j, place', Option.some.inj (place'.symm.trans here'), stopsAt'⟩

end FlatIL
