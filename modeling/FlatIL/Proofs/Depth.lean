import FlatIL.Proofs.Relocation

/-!
# How deep a text may be nested

The parser that reads texts may have only so many calls under way. For every text there is a number
of calls that is enough: with as many or more, the text is parsed or refused as by the parser on
tokens, which makes no calls that count; with fewer, reading it is stopped for being too deep. For
a text that spells a program or an expression, this number is known from the way its tokens are
grouped, and it is at least that of the tree, so the deepest trees that can be read at all are those
whose texts group no more than they must.
-/

namespace FlatIL

open Grammar TokenStream

namespace Cursor

variable {α : Type} {walk : Nat → Nat → Walk α}

/-- A text is parsed as what a computation settles on over its tokens. -/
theorem Settles.ofText_eq {text : String} {tokens : List Token} {a : α} {enough : Nat}
    (scans : Scans {} text.toList tokens)
    (settles : ∀ stop, Splits (tokens ++ [stop]) tokens stop →
      Settles (tokens ++ [stop]) tokens stop (walk (tokens ++ [stop]).length) tokens
        (.ok a, []) enough) (depth : Nat) :
    ofText (walk · depth) text = if depth < enough then .error .tooDeep else .ok a := by
  rw [ofText, scan, scans.scanFrom_eq]
  exact (settles _ (.of_solid scans.kind_ne_eof rfl)).ofTokens_eq depth

/-- A text is parsed as by a parser on tokens, from some depth on. -/
theorem Follows.exists_ofText {parser : Parser α} (follows : Follows walk parser) (text : String) :
    ∃ enough, ∀ depth, ofText (walk · depth) text =
      if depth < enough then .error .tooDeep else (parser.ofText text).mapError .refused := by
  simp only [ofText, Parser.ofText]
  cases scanned : scan text with
  | error error => exact ⟨0, fun depth => by simp [Except.mapError]⟩
  | ok stream =>
    have solid := (scanFrom_eq_ok.mp scanned).1.kind_ne_eof
    have ends : (endToken stream.stop).kind = .eof := rfl
    obtain ⟨enough, same⟩ := follows.exists_ofTokens solid ends
    refine ⟨enough, fun depth => (same depth).trans ?_⟩
    rcases read : parser stream.body with ⟨failure | a, rest⟩ <;>
      simp [TokenStream.parse, read, Except.mapError, endToken]

end Cursor

namespace Program

/-- A text is parsed as by the parser on tokens, from some depth on. -/
theorem exists_parseWithin (text : String) :
    ∃ enough, ∀ depth, parseWithin depth text =
      if depth < enough then .error .tooDeep else (parse text).mapError .refused :=
  Cursor.follows_program.exists_ofText text

/-- What is not too deep is parsed or refused as by the parser on tokens. -/
theorem parseWithin_cases (depth : Nat) (text : String) :
    parseWithin depth text = .error .tooDeep ∨
      parseWithin depth text = (parse text).mapError .refused := by
  obtain ⟨enough, same⟩ := exists_parseWithin text
  rw [same depth]
  exact (ite_eq_or_eq (depth < enough) _ _)

/-- What is parsed within a depth is parsed by the parser on tokens. -/
theorem parse_of_parseWithin {depth : Nat} {text : String} {p : Program}
    (parsed : parseWithin depth text = .ok p) : parse text = .ok p := by
  rcases parseWithin_cases depth text with deep | same
  · cases parsed.symm.trans deep
  · rw [parsed] at same
    cases read : parse text with
    | ok q =>
      rw [read] at same
      cases same
      rfl
    | error error =>
      rw [read] at same
      cases same

/-- A text whose tokens spell a program is parsed as it from the depth on that they take. -/
theorem parseWithin_of_takes {text : String} {tokens : List Token} {p : Program} {calls : Nat}
    (scans : Scans {} text.toList tokens) (taken : StatementsTake tokens p.statements calls)
    (depth : Nat) :
    parseWithin depth text = if depth < calls + 1 then .error .tooDeep else .ok p := by
  refine Cursor.Settles.ofText_eq scans (fun stop splits => ?_) depth
  exact Cursor.settles_program splits (by simp) taken scans.valid (List.suffix_refl tokens)

/-- However a program is spelled, reading it needs the depth of its trees. -/
theorem calls_le_of_parseWithin {depth : Nat} {text : String} {p : Program}
    (parsed : parseWithin depth text = .ok p) : p.calls ≤ depth := by
  obtain ⟨tokens, scans, spelled⟩ :=
    Parser.exact_program.ofText_eq_ok_iff.mp (parse_of_parseWithin parsed)
  obtain ⟨calls, taken⟩ := Statements.exists_takes spelled
  have least := taken.calls_le
  rw [parseWithin_of_takes scans taken] at parsed
  split at parsed
  · cases parsed
  · rw [Program.calls]
    omega

end Program

namespace Expr

/-- A text is parsed as by the parser on tokens, from some depth on. -/
theorem exists_parseWithin (text : String) :
    ∃ enough, ∀ depth, parseWithin depth text =
      if depth < enough then .error .tooDeep else (parse text).mapError .refused :=
  Cursor.follows_wholeExpression.exists_ofText text

/-- A text whose tokens spell an expression is parsed as it from the depth on that they take, beside
the calls that lead to its first primary. -/
theorem parseWithin_of_takes {text : String} {tokens : List Token} {e : Expr} {calls : Nat}
    (scans : Scans {} text.toList tokens) (taken : Takes 0 tokens e calls) (depth : Nat) :
    parseWithin depth text =
      if depth < calls + Cursor.above 0 + 1 then .error .tooDeep else .ok e := by
  refine Cursor.Settles.ofText_eq scans (fun stop splits => ?_) depth
  exact Cursor.settles_wholeExpression splits (by simp) taken scans.valid (List.suffix_refl tokens)

end Expr

end FlatIL
