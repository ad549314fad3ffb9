import FlatIL.Proofs.Parser.Exact
import FlatIL.Proofs.Scan.Stream

/-!
# Where tokens stand does not matter

A text that starts somewhere else is scanned as the same tokens in other places, and tokens in
other places spell the same. So texts can be moved, and tokens that can be written can be put
behind the tokens of any text.
-/

namespace FlatIL

namespace Token

/-- A token without its place. -/
def unplaced (token : Token) : Token :=
  { token with location := {} }

variable {token other : Token}

/-- Tokens that differ in their places only are of one kind. -/
theorem kind_of_unplaced (same : other.unplaced = token.unplaced) : other.kind = token.kind :=
  (Token.mk.inj same).1

/-- Tokens that differ in their places only have one text. -/
theorem lexeme_of_unplaced (same : other.unplaced = token.unplaced) :
    other.lexeme = token.lexeme :=
  (Token.mk.inj same).2.1

/-- Tokens that differ in their places only denote one number, if any. -/
theorem value_of_unplaced (same : other.unplaced = token.unplaced) : other.value = token.value :=
  (Token.mk.inj same).2.2.2

end Token

/-! ## What tokens spell -/

namespace Grammar

open Token (kind_of_unplaced lexeme_of_unplaced value_of_unplaced)

/-- Tokens in other places spell the same expressions. -/
theorem Derives.relocate {level : Nat} {tokens others : List Token} {e : Expr}
    (derived : Derives level tokens e)
    (same : others.map Token.unplaced = tokens.map Token.unplaced) : Derives level others e := by
  induction derived generalizing others with
  | tighter loose inner ih => exact .tighter loose (ih same)
  | binary listed first second ihFirst ihSecond =>
    simp only [List.map_append, List.map_cons, List.map_eq_append_iff, List.map_eq_cons_iff] at same
    obtain ⟨left, _, rfl, sameLeft, sign, right, rfl, sameSign, sameRight⟩ := same
    rw [← kind_of_unplaced sameSign] at listed
    exact .binary listed (ihFirst sameLeft) (ihSecond sameRight)
  | unary listed operand ih =>
    simp only [List.map_cons, List.map_eq_cons_iff] at same
    obtain ⟨sign, rest, rfl, sameSign, sameRest⟩ := same
    rw [← kind_of_unplaced sameSign] at listed
    exact .unary listed (ih sameRest)
  | integer isInteger denoted =>
    simp only [List.map_cons, List.map_nil, List.map_eq_cons_iff, List.map_eq_nil_iff] at same
    obtain ⟨token, _, rfl, sameToken, rfl⟩ := same
    exact .integer ((kind_of_unplaced sameToken).trans isInteger)
      ((value_of_unplaced sameToken).trans denoted)
  | name isName =>
    simp only [List.map_cons, List.map_nil, List.map_eq_cons_iff, List.map_eq_nil_iff] at same
    obtain ⟨token, _, rfl, sameToken, rfl⟩ := same
    rw [← lexeme_of_unplaced sameToken]
    exact .name ((kind_of_unplaced sameToken).trans isName)
  | load isLoad opens address closes ih =>
    simp only [List.map_append, List.map_cons, List.map_nil, List.map_eq_append_iff,
      List.map_eq_cons_iff, List.map_eq_nil_iff] at same
    obtain ⟨word, _, rfl, sameWord, opening, _, rfl, sameOpening, inner, _, rfl, sameInner, closing,
      _, rfl, sameClosing, rfl⟩ := same
    exact .load ((kind_of_unplaced sameWord).trans isLoad)
      ((kind_of_unplaced sameOpening).trans opens) (ih sameInner)
      ((kind_of_unplaced sameClosing).trans closes)
  | input isInput =>
    simp only [List.map_cons, List.map_nil, List.map_eq_cons_iff, List.map_eq_nil_iff] at same
    obtain ⟨word, _, rfl, sameWord, rfl⟩ := same
    exact .input ((kind_of_unplaced sameWord).trans isInput)
  | inputFrom isInput opens isName closes =>
    simp only [List.map_cons, List.map_nil, List.map_eq_cons_iff, List.map_eq_nil_iff] at same
    obtain ⟨word, _, rfl, sameWord, opening, _, rfl, sameOpening, source, _, rfl, sameSource,
      closing, _, rfl, sameClosing, rfl⟩ := same
    rw [← lexeme_of_unplaced sameSource]
    exact .inputFrom ((kind_of_unplaced sameWord).trans isInput)
      ((kind_of_unplaced sameOpening).trans opens) ((kind_of_unplaced sameSource).trans isName)
      ((kind_of_unplaced sameClosing).trans closes)
  | group opens inner closes ih =>
    simp only [List.map_append, List.map_cons, List.map_nil, List.map_eq_append_iff,
      List.map_eq_cons_iff, List.map_eq_nil_iff] at same
    obtain ⟨opening, _, rfl, sameOpening, inner, _, rfl, sameInner, closing, _, rfl, sameClosing,
      rfl⟩ := same
    exact .group ((kind_of_unplaced sameOpening).trans opens) (ih sameInner)
      ((kind_of_unplaced sameClosing).trans closes)

/-- Tokens in other places spell the same targets. -/
theorem Target.relocate {tokens others : List Token} {e : Expr} (target : Target tokens e)
    (same : others.map Token.unplaced = tokens.map Token.unplaced) : Target others e := by
  cases target with
  | bare derived => exact .bare (derived.relocate same)
  | goto isGoto derived =>
    simp only [List.map_cons, List.map_eq_cons_iff] at same
    obtain ⟨word, rest, rfl, sameWord, sameRest⟩ := same
    exact .goto ((kind_of_unplaced sameWord).trans isGoto) (derived.relocate sameRest)

/-- Tokens in other places spell the same statements. -/
theorem Statement.relocate {tokens others : List Token} {s : Stmt} (spelled : Statement tokens s)
    (same : others.map Token.unplaced = tokens.map Token.unplaced) : Statement others s := by
  cases spelled with
  | assign isName isAssign value =>
    simp only [List.map_cons, List.map_eq_cons_iff] at same
    obtain ⟨target, _, rfl, sameTarget, sign, rest, rfl, sameSign, sameRest⟩ := same
    rw [← lexeme_of_unplaced sameTarget]
    exact .assign ((kind_of_unplaced sameTarget).trans isName)
      ((kind_of_unplaced sameSign).trans isAssign) (value.relocate sameRest)
  | store isStore opens address isComma value closes =>
    simp only [List.map_append, List.map_cons, List.map_nil, List.map_eq_append_iff,
      List.map_eq_cons_iff, List.map_eq_nil_iff] at same
    obtain ⟨word, _, rfl, sameWord, opening, _, rfl, sameOpening, first, _, rfl, sameFirst, comma,
      _, rfl, sameComma, second, _, rfl, sameSecond, closing, _, rfl, sameClosing, rfl⟩ := same
    exact .store ((kind_of_unplaced sameWord).trans isStore)
      ((kind_of_unplaced sameOpening).trans opens) (address.relocate sameFirst)
      ((kind_of_unplaced sameComma).trans isComma) (value.relocate sameSecond)
      ((kind_of_unplaced sameClosing).trans closes)
  | goto isGoto target =>
    simp only [List.map_cons, List.map_eq_cons_iff] at same
    obtain ⟨word, rest, rfl, sameWord, sameRest⟩ := same
    exact .goto ((kind_of_unplaced sameWord).trans isGoto) (target.relocate sameRest)
  | assert isAssert condition =>
    simp only [List.map_cons, List.map_eq_cons_iff] at same
    obtain ⟨word, rest, rfl, sameWord, sameRest⟩ := same
    exact .assert ((kind_of_unplaced sameWord).trans isAssert) (condition.relocate sameRest)
  | branch isIf condition isThen thenTarget isElse elseTarget =>
    simp only [List.map_append, List.map_cons, List.map_eq_append_iff, List.map_eq_cons_iff] at same
    obtain ⟨ifWord, _, rfl, sameIf, tokens, _, rfl, sameTokens, thenWord, _, rfl, sameThen, first,
      _, rfl, sameFirst, elseWord, second, rfl, sameElse, sameSecond⟩ := same
    exact .branch ((kind_of_unplaced sameIf).trans isIf) (condition.relocate sameTokens)
      ((kind_of_unplaced sameThen).trans isThen) (thenTarget.relocate sameFirst)
      ((kind_of_unplaced sameElse).trans isElse) (elseTarget.relocate sameSecond)

/-- Tokens in other places spell the same programs. -/
theorem Statements.relocate {tokens others : List Token} {ss : List Stmt}
    (spelled : Statements tokens ss)
    (same : others.map Token.unplaced = tokens.map Token.unplaced) : Statements others ss := by
  induction spelled generalizing others with
  | nil =>
    obtain rfl := List.map_eq_nil_iff.mp same
    exact .nil
  | cons first rest ih =>
    simp only [List.map_append, List.map_eq_append_iff] at same
    obtain ⟨tokens, behind, rfl, sameTokens, sameBehind⟩ := same
    exact .cons (first.relocate sameTokens) (ih sameBehind)

end Grammar

/-! ## What texts are scanned as -/

namespace TokenStream

/-- The tokens of a text carry what their kinds promise. -/
theorem Scans.valid {start : Location} {text : List Char} {tokens : List Token}
    (scans : Scans start text tokens) : Parser.AllValid tokens := by
  induction scans with
  | nil => exact fun token inside => nomatch inside
  | gap isGap more ih => exact ih
  | comment inLine ends more ih => exact ih
  | @token start c cs lexeme tokens reads more ih =>
    exact List.forall_mem_cons.mpr ⟨reads.valid start, ih⟩

/-- No token of a text is its end. -/
theorem Scans.kind_ne_eof {start : Location} {text : List Char} {tokens : List Token}
    (scans : Scans start text tokens) : ∀ token ∈ tokens, token.kind ≠ .eof := by
  induction scans with
  | nil => exact fun token inside => nomatch inside
  | gap isGap more ih => exact ih
  | comment inLine ends more ih => exact ih
  | token reads more ih => exact List.forall_mem_cons.mpr ⟨reads.kind_ne_eof, ih⟩

/-- From another place, a text is scanned as the same tokens in other places. -/
theorem Scans.relocate {start : Location} {text : List Char} {tokens : List Token}
    (scans : Scans start text tokens) (place : Location) :
    ∃ others, Scans place text others ∧
      others.map Token.unplaced = tokens.map Token.unplaced := by
  induction scans generalizing place with
  | nil => exact ⟨[], .nil, rfl⟩
  | @gap start c cs tokens isGap more ih =>
    obtain ⟨others, scans, same⟩ := ih (place.next c)
    exact ⟨others, .gap isGap scans, same⟩
  | @comment start body rest tokens inLine ends more ih =>
    obtain ⟨others, scans, same⟩ := ih (place.advance ('#' :: body))
    exact ⟨others, .comment inLine ends scans, same⟩
  | @token start c cs lexeme tokens reads more ih =>
    obtain ⟨others, scans, same⟩ := ih (place.advance lexeme.text)
    exact ⟨lexeme.token place :: others, .token reads scans, congrArg (List.cons _) same⟩

end TokenStream

/-! ## Tokens that can be written -/

namespace Token

/-- A token that can be written: in front of a gap, its text is read as it. -/
def Written (token : Token) : Prop :=
  ∃ c taken, token.lexeme = String.ofList (c :: taken) ∧
    ∀ rest, (∀ d ∈ rest.head?, isGap d = true) →
      Reads c (taken ++ rest)
        { kind := token.kind, text := c :: taken, value := token.value, rest }

/-- A token that can be written carries what its kind promises. -/
theorem Written.valid {token : Token} (written : token.Written) : token.Valid := by
  obtain ⟨c, taken, text, reads⟩ := written
  have valid := (reads [] nofun).valid token.location
  rw [Lexeme.token, ← text] at valid
  exact valid

/-- A character that is a sign can be written. -/
theorem written_sign (c : Char) {kind : TokenKind} (stands : TokenKind.ofChar? c = some kind) :
    Written { kind, lexeme := String.ofList [c] } := by
  refine ⟨c, [], rfl, fun rest gap => .sign stands fun _ d first => ?_⟩
  exact (plain_of_isGap (gap d first)).2.2

/-- A word can be written. -/
theorem written_word {c : Char} {cs : List Char} (shaped : Name.hasShape (c :: cs) = true) :
    Written { kind := .ofWord (String.ofList (c :: cs)), lexeme := String.ofList (c :: cs) } := by
  simp only [Name.hasShape, Bool.and_eq_true, List.all_eq_true] at shaped
  refine ⟨c, cs, rfl, fun rest gap => .word shaped.1 shaped.2 fun d first => ?_⟩
  exact (plain_of_isGap (gap d first)).2.1

/-- The sign of assignments can be written. -/
theorem written_assign : Written { kind := .assign, lexeme := ":=" } :=
  ⟨':', ['='], rfl, fun _ _ => .assign⟩

/-- Zero can be written. -/
theorem written_zero : Written { kind := .integer, lexeme := "0", value := .int 0 } := by
  refine ⟨'0', [], rfl, fun rest gap => ?_⟩
  exact .integer rfl nofun (fun d first => (plain_of_isGap (gap d first)).1) (by decide) (by decide)

end Token

/-- Tokens that can be written are what some text is scanned as that starts with a line feed, from
any place. -/
theorem TokenStream.exists_scans_of_written {tokens : List Token}
    (written : ∀ token ∈ tokens, token.Written) (start : Location) :
    ∃ text others, (∀ c ∈ text.head?, c = '\n') ∧ Scans start text others ∧
      others.map Token.unplaced = tokens.map Token.unplaced := by
  induction tokens generalizing start with
  | nil => exact ⟨[], [], nofun, .nil, rfl⟩
  | cons token tokens ih =>
    obtain ⟨here, later⟩ := List.forall_mem_cons.mp written
    obtain ⟨c, taken, spelled, reads⟩ := here
    obtain ⟨text, others, feed, scans, same⟩ := ih later ((start.next '\n').advance (c :: taken))
    have read := reads text fun d first => by rw [feed d first]; decide
    refine ⟨'\n' :: c :: (taken ++ text), _, fun d first => (Option.some.inj first).symm,
      .gap (by decide) (.token read scans), ?_⟩
    rw [List.map_cons, List.map_cons, same]
    simp only [Token.unplaced, Token.Lexeme.token, spelled]

/-! ## What texts are parsed as -/

namespace Parser

variable {α : Type} {parser : Parser α} {spells : List Token → α → Prop}

/-- On valid tokens, the parser gives exactly what the tokens spell. -/
def Exact (parser : Parser α) (spells : List Token → α → Prop) : Prop :=
  ∀ tokens, AllValid tokens → ∀ a, (∃ rest, parser tokens = (.ok a, rest)) ↔ spells tokens a

/-- Programs are parsed exactly. -/
theorem exact_program : Exact program Grammar.Spells := by
  intro tokens valid p
  simp [program_eq_ok_iff valid]

/-- Whole expressions are parsed exactly. -/
theorem exact_wholeExpression : Exact wholeExpression (Grammar.Derives 0) := by
  intro tokens valid e
  simp [wholeExpression_eq_ok_iff valid]

/-- A text is parsed as exactly what its tokens spell. -/
theorem Exact.ofText_eq_ok_iff (exact : Exact parser spells) {text : String} {a : α} :
    parser.ofText text = .ok a ↔
      ∃ tokens, TokenStream.Scans {} text.toList tokens ∧ spells tokens a := by
  rw [Parser.ofText]
  constructor
  · intro parsed
    split at parsed
    · cases parsed
    · next stream scanned =>
      obtain ⟨scans, -⟩ := TokenStream.scanFrom_eq_ok.mp scanned
      exact ⟨_, scans, (exact _ scans.valid a).mp (TokenStream.parse_eq_ok_iff.mp parsed)⟩
  · rintro ⟨tokens, scans, spelled⟩
    rw [TokenStream.scan, scans.scanFrom_eq]
    exact TokenStream.parse_eq_ok_iff.mpr ((exact _ scans.valid a).mpr spelled)

end Parser

end FlatIL
