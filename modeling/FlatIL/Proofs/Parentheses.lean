import FlatIL.Proofs.Formatting

/-!
# Parentheses that group

A parenthesis opens the operand of a memory or an input read, or else it groups. Grouping is needed
exactly where an operand binds too loosely for its place. Every derivation of a tree has a group at
each of these places, since nothing else leads from a loose level to a tighter one, and the text
that a tree is rendered as has a group nowhere else. So no text for the tree has fewer.
-/

namespace FlatIL

open Grammar

/-! ## Counting groups -/

namespace Token

/-- The number of opening parentheses that group. One that stands right behind the word of a
memory or an input read does not; `read` tells whether such a word stands in front of all. -/
def groupingsBehind (read : Bool) : List Token → Nat
  | [] => 0
  | token :: tokens =>
    (if token.kind = .leftParen ∧ read = false then 1 else 0) +
      groupingsBehind (token.kind = .load ∨ token.kind = .getInput) tokens

/-- The number of opening parentheses that group. -/
def groupings (tokens : List Token) : Nat :=
  groupingsBehind false tokens

/-- A token that opens no parenthesis and after which a parenthesis groups. -/
def Divides (token : Token) : Prop :=
  token.kind ≠ .leftParen ∧ token.kind ≠ .load ∧ token.kind ≠ .getInput

/-- A token that divides is no group, and groupings behind it are counted anew. -/
theorem groupingsBehind_cons {token : Token} (divides : token.Divides) (read : Bool)
    (tokens : List Token) : groupingsBehind read (token :: tokens) = groupings tokens := by
  obtain ⟨noGroup, noLoad, noInput⟩ := divides
  simp [groupingsBehind, groupings, noGroup, noLoad, noInput]

/-- Groups in front of a token that divides and groupings behind it add up. -/
theorem groupings_append {sign : Token} (divides : sign.Divides) (before behind : List Token) :
    groupings (before ++ sign :: behind) = groupings before + groupings behind := by
  have counted (read : Bool) : groupingsBehind read (before ++ sign :: behind) =
      groupingsBehind read before + groupings behind := by
    induction before generalizing read with
    | nil => simp [groupingsBehind_cons divides, groupingsBehind]
    | cons token before ih => simp only [List.cons_append, groupingsBehind, ih, Nat.add_assoc]
  exact counted false

/-- The sign of a binary operator divides. -/
theorem divides_of_binaryOp? {sign : Token} {op : BinaryOp}
    (stands : sign.kind.binaryOp? = some op) : sign.Divides := by
  refine ⟨?_, ?_, ?_⟩ <;>
  · intro same
    rw [same] at stands
    cases stands

/-- The sign of a unary operator divides. -/
theorem divides_of_unaryOp? {sign : Token} {op : UnaryOp}
    (stands : sign.kind.unaryOp? = some op) : sign.Divides := by
  refine ⟨?_, ?_, ?_⟩ <;>
  · intro same
    rw [same] at stands
    cases stands

/-- A closing parenthesis divides. -/
theorem divides_of_closes {closing : Token} (closes : closing.kind = .rightParen) :
    closing.Divides := by
  simp [Divides, closes]

/-- Parentheses behind no read are one group more. -/
theorem groupings_parens {opening closing : Token} (opens : opening.kind = .leftParen)
    (closes : closing.kind = .rightParen) (tokens : List Token) :
    groupings (opening :: (tokens ++ [closing])) = groupings tokens + 1 := by
  have inside : groupings (tokens ++ [closing]) = groupings tokens :=
    groupings_append (divides_of_closes closes) tokens []
  simp only [groupings] at inside ⊢
  simp [groupingsBehind, opens, inside, Nat.add_comm]

/-- The parentheses of a read are no group. -/
theorem groupings_read {word opening closing : Token}
    (isRead : word.kind = .load ∨ word.kind = .getInput) (opens : opening.kind = .leftParen)
    (closes : closing.kind = .rightParen) (tokens : List Token) :
    groupings (word :: opening :: (tokens ++ [closing])) = groupings tokens := by
  have inside : groupings (tokens ++ [closing]) = groupings tokens :=
    groupings_append (divides_of_closes closes) tokens []
  have noGroup : word.kind ≠ .leftParen := by
    intro same
    rcases isRead with isLoad | isInput
    · cases same.symm.trans isLoad
    · cases same.symm.trans isInput
  simp only [groupings] at inside ⊢
  simp [groupingsBehind, opens, inside, noGroup, isRead]

/-- A token by itself that is no opening parenthesis is no group. -/
theorem groupings_singleton {token : Token} (other : token.kind ≠ .leftParen) :
    groupings [token] = 0 := by
  simp [groupings, groupingsBehind, other]

end Token

/-! ## The groups of a tree -/

namespace Expr

/-- The number of groups that a tree needs: one around each operand that binds too loosely for its
place, which on the right of a binary operator is also one that binds as tightly. -/
def groups : Expr → Nat
  | lit _ | var _ | input _ => 0
  | load e => e.groups
  | unary _ e => e.groups + if e.precedence < 8 then 1 else 0
  | binary op l r =>
    (l.groups + if l.precedence < op.precedence then 1 else 0) +
      (r.groups + if r.precedence ≤ op.precedence then 1 else 0)

end Expr

open Token (groupings groupings_append groupings_parens groupings_read groupings_singleton)

/-- Tokens that spell a tree on a level have all groups that the tree needs, and one around it if
it binds too loosely for the level. -/
theorem Grammar.Derives.groups_le {level : Nat} {tokens : List Token} {e : Expr}
    (derived : Derives level tokens e) :
    e.groups + (if e.level < level then 1 else 0) ≤ groupings tokens := by
  induction derived with
  | @tighter level tokens e loose inner ih => split at ih <;> split <;> omega
  | @binary level left right sign op l r listed first second ihFirst ihSecond =>
    obtain ⟨stands, strength⟩ := mem_binaryLevels.mp listed
    have own : (Expr.binary op l r).level = level := by
      rw [Expr.level, Expr.precedence, strength, Nat.add_sub_cancel]
    rw [groupings_append (Token.divides_of_binaryOp? stands), own, if_neg (Nat.lt_irrefl level)]
    simp only [Expr.level_lt_iff, ← strength, Nat.lt_add_one_iff] at ihFirst ihSecond
    rw [Expr.groups, Nat.add_zero]
    exact Nat.add_le_add ihFirst ihSecond
  | @unary sign op tokens e listed operand ih =>
    have stands := mem_unarySigns.mp listed
    have counted : groupings (sign :: tokens) = groupings tokens :=
      Token.groupingsBehind_cons (Token.divides_of_unaryOp? stands) false tokens
    have own : (Expr.unary op e).level = unaryLevel := rfl
    rw [counted, own, if_neg (Nat.lt_irrefl unaryLevel)]
    simp only [Expr.level_lt_iff] at ih
    exact ih
  | integer isInteger denoted => simp [Expr.groups, Expr.level, Expr.precedence, primaryLevel]
  | name isName => simp [Expr.groups, Expr.level, Expr.precedence, primaryLevel]
  | @load word opening closing tokens e isLoad opens address closes ih =>
    rw [groupings_read (.inl isLoad) opens closes]
    simpa [Expr.groups, Expr.level, Expr.precedence, primaryLevel] using ih
  | input isInput => simp [Expr.groups, Expr.level, Expr.precedence, primaryLevel]
  | inputFrom isInput opens isName closes =>
    simp [Expr.groups, Expr.level, Expr.precedence, primaryLevel]
  | @group opening closing tokens e opens inner closes ih =>
    rw [groupings_parens opens closes]
    split <;> omega

/-! ## The groups of rendered text -/

namespace Expr

/-- An operand in parentheses has one group more. -/
theorem writes_groups_group {e : Expr} (needed : Bool)
    (operand : Writes e.text.toList (groupings · = e.groups)) :
    Writes (Render.group needed e.text).toList
      (groupings · = e.groups + if needed then 1 else 0) := by
  cases needed with
  | false => exact operand
  | true =>
    have grouped : Writes ('(' :: (e.text.toList ++ [')'])) (groupings · = e.groups + 1) := by
      refine operand.parens.mono ?_
      rintro tokens ⟨opening, used, closing, rfl, opens, counted, closes⟩
      rw [groupings_parens opens closes, counted]
    simpa [Render.group] using grouped

/-- The text of a well-formed expression has the groups that the tree needs and no other. -/
theorem writes_groups {e : Expr} (wellFormed : e.WellFormed) :
    Writes e.text.toList (groupings · = e.groups) := by
  induction e with
  | lit value =>
    rw [text, Decimal.ofNat, String.toList_ofList]
    refine (Writes.numeral value.toNat_lt).mono ?_
    rintro tokens ⟨token, rfl, isInteger, -⟩
    exact groupings_singleton (by simp [isInteger])
  | var name =>
    refine (Writes.name wellFormed).mono ?_
    rintro tokens ⟨token, rfl, isName, -⟩
    exact groupings_singleton (by simp [isName])
  | input source =>
    refine (writes_text_input wellFormed).mono ?_
    rintro tokens ⟨word, opening, token, closing, rfl, isInput, opens, ⟨isName, -⟩, closes⟩
    have counted : groupings [word, opening, token, closing] = groupings [token] :=
      groupings_read (.inr isInput) opens closes [token]
    rw [counted]
    exact groupings_singleton (by simp [isName])
  | load address ih =>
    refine (writes_text_load (ih wellFormed)).mono ?_
    rintro tokens ⟨word, opening, used, closing, rfl, isLoad, opens, counted, closes⟩
    rw [groupings_read (.inl isLoad) opens closes, counted]
    rfl
  | unary op operand ih =>
    refine (writes_text_unary (writes_groups_group _ (ih wellFormed))).mono ?_
    rintro tokens ⟨sign, others, rfl, stands, counted⟩
    have skipped : groupings (sign :: others) = groupings others :=
      Token.groupingsBehind_cons (Token.divides_of_unaryOp? stands) false others
    rw [skipped, counted]
    simp [groups]
  | binary op left right ihLeft ihRight =>
    refine (writes_text_binary (writes_groups_group _ (ihLeft wellFormed.1))
      (writes_groups_group _ (ihRight wellFormed.2))).mono ?_
    rintro tokens ⟨used, sign, others, rfl, counted, stands, counted'⟩
    rw [groupings_append (Token.divides_of_binaryOp? stands), counted, counted']
    simp [groups]

end Expr

/-- A text that is parsed as an expression has at least as many groups as the text that the
expression is rendered as, which is parsed as the same expression. -/
theorem Expr.rendered_groupings_minimal {source : String} {e : Expr}
    (parsed : Expr.parse source = .ok e) :
    ∃ stream text printed, TokenStream.scan source = .ok stream ∧ e.render = .ok text ∧
      Expr.parse text = .ok e ∧ TokenStream.scan text = .ok printed ∧
      groupings printed.toList ≤ groupings stream.toList := by
  have whole (stream : TokenStream) : groupings stream.toList = groupings stream.body :=
    groupings_append (by simp [Token.Divides, TokenStream.endToken]) stream.body []
  obtain ⟨tokens, scans, derived⟩ := Parser.exact_wholeExpression.ofText_eq_ok_iff.mp parsed
  have wellFormed : e.WellFormed := derived.wellFormed scans.valid
  obtain ⟨written, lexed, counted, -⟩ := Expr.writes_groups wellFormed {} [] .nil
  have needed : e.groups ≤ groupings tokens := by
    have least := derived.groups_le
    omega
  have rendered : e.render = .ok e.text := Expr.render_eq_text wellFormed
  refine ⟨_, e.text, _, scans.scanFrom_eq, rendered, ?_, lexed.scanFrom_eq, ?_⟩
  · obtain ⟨again, lexed, taken, -⟩ := Expr.writes_whole wellFormed {} [] .nil
    exact Parser.exact_wholeExpression.ofText_eq_ok_iff.mpr
      ⟨again, (TokenStream.scanFrom_eq_ok.mp lexed.scanFrom_eq).1, taken.derives⟩
  · rw [whole, whole, counted]
    exact needed

/-- Groups that are needed on the right and in front of a tighter operator, among others. -/
theorem Expr.rendered_groupings_minimal_of_nested :
    let source := "((a - (b - c))) * load((d)) + -(1 + 2)"
    let difference := Expr.binary .sub (.var "a") (.binary .sub (.var "b") (.var "c"))
    let e := Expr.binary .add (.binary .mul difference (.load (.var "d")))
      (.unary .neg (.binary .add (.lit 1) (.lit 2)))
    Expr.parse source = .ok e ∧ e.render = .ok "(a - (b - c)) * load(d) + -(1 + 2)" ∧
      ∃ stream text printed, TokenStream.scan source = .ok stream ∧ e.render = .ok text ∧
        Expr.parse text = .ok e ∧ TokenStream.scan text = .ok printed ∧
        groupings printed.toList ≤ groupings stream.toList := by
  intro source difference e
  have parsed : Expr.parse source = .ok e := by decide +kernel
  have rendered : e.render = .ok "(a - (b - c)) * load(d) + -(1 + 2)" := by decide +kernel
  exact ⟨parsed, rendered, Expr.rendered_groupings_minimal parsed⟩

end FlatIL
