import FlatIL.Proofs.Parser.Complete
import FlatIL.Source

/-!
# Parsing is exact

A list of valid tokens that closes with its only end token is parsed as a program
exactly if the tokens in front of the end spell that program, and they spell one at most.
-/

namespace FlatIL

open Grammar

/-- Parsing a stream gives a result exactly if the parser does so on the tokens ahead. -/
theorem TokenStream.parse_eq_ok_iff {α : Type} {stream : TokenStream} {parser : Parser α} {a : α} :
    (stream.parse parser).1 = .ok a ↔ ∃ rest, parser stream.body = (.ok a, rest) := by
  cases parsed : parser stream.body with
  | mk result rest => cases result <;> simp [parse, parsed]

namespace Cursor

variable {α : Type} {body : List Token} {stop : Token} {walk : Nat → Nat → Walk α}

/-- From the start of a list, a computation gives what it settles on. -/
theorem Settles.ofTokens_eq {outcome : Except Failure α × List Token} {enough : Nat}
    (settles : Settles (body ++ [stop]) body stop (walk (body ++ [stop]).length) body outcome
      enough) (depth : Nat) :
    ofTokens (walk · depth) (body ++ [stop]) =
      if depth < enough then .error .tooDeep
      else outcome.1.mapError fun failure => .refused (.ofFailure stop.location failure) := by
  rw [ofTokens, ← facing_self body]
  split
  · next few =>
    obtain ⟨left, -, ran⟩ := settles.overflows depth few
    rw [ran]
  · next allowed => rw [settles.answers depth (Nat.le_of_not_lt allowed), answer]

/-- A computation gives what a parser gives, on every list with an end token. -/
def Follows (walk : Nat → Nat → Walk α) (parser : Parser α) : Prop :=
  ∀ (tokens body : List Token) (stop : Token) (patience : Nat), Splits tokens body stop →
    body.length < patience → Gives tokens body stop (walk patience) body (parser body)

/-- Programs are parsed in the same way. -/
theorem follows_program : Follows program Parser.program :=
  fun _ _ _ _ splits patient => .program splits patient

/-- Whole expressions are parsed in the same way. -/
theorem follows_wholeExpression : Follows wholeExpression Parser.wholeExpression :=
  fun _ _ _ _ splits patient => .wholeExpression splits patient

/-- A list with one end token behind it is parsed as by a parser on tokens, from some depth on. -/
theorem Follows.exists_ofTokens {parser : Parser α} (follows : Follows walk parser)
    (solid : ∀ token ∈ body, token.kind ≠ .eof) (ends : stop.kind = .eof) :
    ∃ enough, ∀ depth, ofTokens (walk · depth) (body ++ [stop]) =
      if depth < enough then .error .tooDeep
      else (parser body).1.mapError fun failure => .refused (.ofFailure stop.location failure) := by
  have patient : body.length < (body ++ [stop]).length := by simp
  obtain ⟨-, enough, settles⟩ :=
    follows _ body stop _ (.of_solid solid ends) patient (List.suffix_refl body)
  exact ⟨enough, settles.ofTokens_eq⟩

end Cursor

/-- A list of tokens that closes with its only end token, and whose names and integers are those of
the language, is parsed as a program only if the tokens in front of the end spell the program by the
grammar. If they spell it, they are parsed as it from the depth on that their grouping takes, and
the parser is stopped for being too deep below it. If they spell no program, they are refused, from
some depth on as well. They spell one program at most. -/
theorem parses_iff_spells (body : List Token) (stop : Token) (closes : stop.kind = .eof)
    (only : ∀ token ∈ body, token.kind ≠ .eof) (valid : ∀ token ∈ body, token.Valid) :
    (∀ p, (∃ depth, Cursor.ofTokens (Cursor.program · depth) (body ++ [stop]) = .ok p) ↔
      Spells body p) ∧
    (∀ p, Spells body p → ∃ calls, StatementsTake body p.statements calls ∧
      ∀ depth, Cursor.ofTokens (Cursor.program · depth) (body ++ [stop]) =
        if depth < calls + 1 then .error .tooDeep else .ok p) ∧
    ((∀ p, ¬ Spells body p) → ∃ enough error, ∀ depth,
      Cursor.ofTokens (Cursor.program · depth) (body ++ [stop]) =
        if depth < enough then .error .tooDeep else .error (.refused error)) ∧
    ∀ p q, Spells body p → Spells body q → p = q := by
  have patient : body.length < (body ++ [stop]).length := by simp
  have splits := Cursor.Splits.of_solid only closes
  have spelled (p : Program) (spells : Spells body p) :
      ∃ calls, StatementsTake body p.statements calls ∧
        ∀ depth, Cursor.ofTokens (Cursor.program · depth) (body ++ [stop]) =
          if depth < calls + 1 then .error .tooDeep else .ok p := by
    obtain ⟨calls, taken⟩ := Statements.exists_takes spells
    exact ⟨calls, taken, (Cursor.settles_program splits patient taken valid
      (List.suffix_refl body)).ofTokens_eq⟩
  obtain ⟨enough, same⟩ := Cursor.follows_program.exists_ofTokens only closes
  refine ⟨fun p => ⟨?_, fun spells => ?_⟩, spelled, fun none => ?_, fun p q spells spells' => ?_⟩
  · rintro ⟨depth, parsed⟩
    rw [same depth] at parsed
    split at parsed
    · cases parsed
    · rcases read : Parser.program body with ⟨failure | q, rest⟩ <;> rw [read] at parsed
      · cases parsed
      · obtain rfl := Except.ok.inj parsed
        exact ((Parser.program_eq_ok_iff valid).mp read).2
  · obtain ⟨calls, -, parsed⟩ := spelled p spells
    exact ⟨calls + 1, by rw [parsed, if_neg (Nat.lt_irrefl _)]⟩
  · rcases read : Parser.program body with ⟨failure | q, rest⟩
    · exact ⟨enough, _, fun depth => by rw [same depth, read]; rfl⟩
    · exact absurd ((Parser.program_eq_ok_iff valid).mp read).2 (none q)
  · have first := (Parser.program_eq_ok_iff valid).mpr ⟨rfl, spells⟩
    have second := (Parser.program_eq_ok_iff valid).mpr ⟨rfl, spells'⟩
    rw [first] at second
    exact Except.ok.inj (Prod.mk.inj second).1

/-- The theorem at the tokens of `x := 1 - -2 goto get_input`. -/
theorem parses_iff_spells_two_statements :
    let body : List Token :=
      [{ kind := .identifier, lexeme := "x" }, { kind := .assign, lexeme := ":=" },
        { kind := .integer, lexeme := "1", value := .int 1 }, { kind := .minus, lexeme := "-" },
        { kind := .minus, lexeme := "-" }, { kind := .integer, lexeme := "2", value := .int 2 },
        { kind := .goto, lexeme := "goto" }, { kind := .getInput, lexeme := "get_input" }]
    let p : Program := ⟨[.assign "x" (.binary .sub (.lit 1) (.unary .neg (.lit 2))),
      .goto (.input "stdin")]⟩
    let stop : Token := TokenStream.endToken {}
    (∀ token ∈ body, token.kind ≠ .eof) ∧ (∀ token ∈ body, token.Valid) ∧ Spells body p ∧
      ∃ calls, StatementsTake body p.statements calls ∧
        ∀ depth, Cursor.ofTokens (Cursor.program · depth) (body ++ [stop]) =
          if depth < calls + 1 then .error .tooDeep else .ok p := by
  intro body p stop
  have only : ∀ token ∈ body, token.kind ≠ .eof := by decide
  have named : Name.isName "x" = true := by decide
  have valid : ∀ token ∈ body, token.Valid := by
    simp only [body, List.forall_mem_cons, Token.Valid, reduceCtorEq, false_implies, and_true,
      true_implies, named, true_and]
    exact ⟨⟨1, by decide, rfl⟩, ⟨2, by decide, rfl⟩, by simp⟩
  let minus : Token := { kind := .minus, lexeme := "-" }
  let one : Token := { kind := .integer, lexeme := "1", value := .int 1 }
  let two : Token := { kind := .integer, lexeme := "2", value := .int 2 }
  have first : Derives 5 [one] (.lit 1) :=
    (Derives.integer rfl rfl).loosen (by decide) (Nat.le_refl _)
  have sign : Derives unaryLevel [minus, two] (.unary .neg (.lit 2)) :=
    .unary (by decide) ((Derives.integer rfl rfl).loosen (by decide) (Nat.le_refl _))
  have difference : Derives 5 ([one] ++ minus :: [minus, two])
      (.binary .sub (.lit 1) (.unary .neg (.lit 2))) :=
    .binary (by decide) first (sign.loosen (by decide) (by decide))
  have spells : Spells body p :=
    .cons (.assign rfl rfl (difference.loosen (Nat.zero_le _) (by decide)))
      (.cons (.goto rfl ((Derives.input rfl).loosen (Nat.zero_le _) (Nat.le_refl _))) .nil)
  obtain ⟨-, spelled, -, -⟩ := parses_iff_spells body stop rfl only valid
  exact ⟨only, valid, spells, spelled p spells⟩

/-- The tokens of `assert 1` with a hundred parentheses around the number spell a program, but with
a thousand calls under way they are too deep to be parsed as it. -/
theorem deep_tokens_not_parsed :
    let body : List Token := { kind := .assert, lexeme := "assert" } ::
      (List.replicate 100 { kind := .leftParen, lexeme := "(" } ++
        ({ kind := .integer, lexeme := "1", value := .int 1 } ::
          List.replicate 100 { kind := .rightParen, lexeme := ")" }))
    (∀ token ∈ body, token.kind ≠ .eof) ∧ (∀ token ∈ body, token.Valid) ∧
      Spells body ⟨[.assert (.lit 1)]⟩ ∧
      Cursor.ofTokens (Cursor.program · 1000) (body ++ [TokenStream.endToken {}]) =
        .error .tooDeep := by
  intro body
  have number : Takes 0 [{ kind := .integer, lexeme := "1", value := .int 1 }] (.lit 1) 1 :=
    (Takes.integer rfl rfl).loosen (Nat.zero_le _) (Nat.le_refl _)
  have whole : StatementTakes body (.assert (.lit 1)) (1 + 100 * descent + descent) :=
    .assert rfl (number.group_replicate 100 rfl rfl)
  have taken : StatementsTake body [.assert (.lit 1)] (1 + 100 * descent + descent) := by
    simpa using StatementsTake.cons whole .nil
  have solid := taken.statements.kind_ne_eof
  have valid : Parser.AllValid body := by
    intro token inside
    simp only [body, List.mem_cons, List.mem_append, List.mem_replicate] at inside
    obtain rfl | ⟨-, rfl⟩ | rfl | ⟨-, rfl⟩ := inside
    · exact ⟨nofun, nofun⟩
    · exact ⟨nofun, nofun⟩
    · exact ⟨nofun, fun _ => ⟨1, by decide, rfl⟩⟩
    · exact ⟨nofun, nofun⟩
  have ends : (TokenStream.endToken {}).kind = .eof := rfl
  have patient : body.length < (body ++ [TokenStream.endToken {}]).length := by simp
  have settles := Cursor.settles_program (p := ⟨[.assert (.lit 1)]⟩) (.of_solid solid ends) patient
    taken valid (List.suffix_refl body)
  exact ⟨solid, valid, taken.statements, settles.ofTokens_eq 1000⟩

end FlatIL
