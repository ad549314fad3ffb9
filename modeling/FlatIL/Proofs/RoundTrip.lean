import FlatIL.Proofs.Depth
import FlatIL.Proofs.Render

/-!
# Rendered text is read back

`Writes text spells` says that a text is scanned as valid tokens of which `spells` holds,
in front of anything that keeps its last word apart. The texts of expressions and
statements are put together from pieces that each keep this, and the tokens they are
scanned as spell the tree by the grammar, nested no deeper than the tree needs. Parsing,
which is exact, then gives back the tree.
-/

namespace FlatIL

open Grammar TokenStream
open FlatIL.Parser (AllValid)

/-- In front of any text apart from it, the text is scanned as valid tokens with a property. -/
def Writes (text : List Char) (spells : List Token → Prop) : Prop :=
  ∀ start rest, Apart rest →
    ∃ tokens, Lexes start text tokens rest ∧ spells tokens ∧ AllValid tokens

/-- The symbol of a binary operator in front of a blank is read as its sign. -/
theorem BinaryOp.symbol_read (op : BinaryOp) :
    ∃ c cs kind, op.symbol.toList = c :: cs ∧ kind.binaryOp? = some op ∧
      ∀ rest, Token.readToken c (cs ++ ' ' :: rest) =
        .ok { kind, text := c :: cs, rest := ' ' :: rest } := by
  cases op with
  | add => exact ⟨'+', [], .plus, rfl, rfl, fun rest => rfl⟩
  | sub => exact ⟨'-', [], .minus, rfl, rfl, fun rest => rfl⟩
  | mul => exact ⟨'*', [], .star, rfl, rfl, fun rest => rfl⟩
  | div => exact ⟨'/', [], .slash, rfl, rfl, fun rest => rfl⟩
  | mod => exact ⟨'%', [], .percent, rfl, rfl, fun rest => rfl⟩
  | eq => exact ⟨'=', [], .equal, rfl, rfl, fun rest => rfl⟩
  | ne => exact ⟨'<', ['>'], .notEqual, rfl, rfl, fun rest => rfl⟩
  | lt => exact ⟨'<', [], .less, rfl, rfl, fun rest => rfl⟩
  | le => exact ⟨'<', ['='], .lessEqual, rfl, rfl, fun rest => rfl⟩
  | and => exact ⟨'&', [], .ampersand, rfl, rfl, fun rest => rfl⟩
  | or => exact ⟨'|', [], .pipe, rfl, rfl, fun rest => rfl⟩
  | xor => exact ⟨'^', [], .caret, rfl, rfl, fun rest => rfl⟩

/-- The symbol of a unary operator is read as its sign, whatever is behind it. -/
theorem UnaryOp.symbol_read (op : UnaryOp) :
    ∃ c kind, op.symbol.toList = [c] ∧ kind.unaryOp? = some op ∧
      ∀ rest, Token.readToken c rest = .ok { kind, text := [c], rest } := by
  cases op with
  | neg => exact ⟨'-', .minus, rfl, rfl, fun rest => rfl⟩
  | not => exact ⟨'~', .tilde, rfl, rfl, fun rest => rfl⟩
  | lnot => exact ⟨'!', .bang, rfl, rfl, fun rest => rfl⟩

namespace Writes

variable {text more : List Char} {first second : List Token → Prop}

/-- What holds of the tokens may be put differently. -/
theorem mono (writes : Writes text first) (weaker : ∀ tokens, first tokens → second tokens) :
    Writes text second := by
  intro start rest apart
  obtain ⟨tokens, lexed, held, valid⟩ := writes start rest apart
  exact ⟨tokens, lexed, weaker tokens held, valid⟩

/-- No text is no token. -/
theorem nil : Writes [] (· = []) := by
  intro start rest _
  refine ⟨[], ?_, rfl, fun _ inside => absurd inside List.not_mem_nil⟩
  cases same : scanFrom start rest <;> simp [Lexes, Location.advance, same, Except.map, prepend]

/-- A text in front of one that keeps it apart is scanned before it. -/
theorem append (before : Writes text first) (behind : Writes more second)
    (parts : ∀ rest, Apart rest → Apart (more ++ rest)) :
    Writes (text ++ more) fun tokens =>
      ∃ used others, tokens = used ++ others ∧ first used ∧ second others := by
  intro start rest apart
  obtain ⟨used, lexed, held, valid⟩ := before start (more ++ rest) (parts rest apart)
  obtain ⟨others, lexed', held', valid'⟩ := behind (start.advance text) rest apart
  refine ⟨used ++ others, lexed.append lexed', ⟨used, others, rfl, held, held'⟩, ?_⟩
  intro token inside
  rcases List.mem_append.mp inside with inside | inside
  · exact valid token inside
  · exact valid' token inside

/-- A gap in front leaves no token. -/
theorem gap (c : Char) (isGap : Token.isGap c = true) (behind : Writes more second) :
    Writes (c :: more) second := by
  intro start rest apart
  obtain ⟨tokens, lexed, held, valid⟩ := behind (start.advance [c]) rest apart
  exact ⟨tokens, (Lexes.gap isGap).append lexed, held, valid⟩

/-- A sign in front that is read as itself, whatever is behind it, is one token. -/
theorem sign (c : Char) (cs : List Char) (kind : TokenKind) (noName : kind ≠ .identifier)
    (noInteger : kind ≠ .integer) (behind : Writes more second)
    (read : ∀ rest, Token.readToken c (cs ++ (more ++ rest)) =
      .ok { kind, text := c :: cs, rest := more ++ rest }) :
    Writes (c :: cs ++ more) fun tokens =>
      ∃ token others, tokens = token :: others ∧ token.kind = kind ∧ second others := by
  intro start rest apart
  obtain ⟨tokens, lexed, held, valid⟩ := behind (start.advance (c :: cs)) rest apart
  refine ⟨_, (Lexes.token (read rest)).append lexed, ⟨_, tokens, rfl, rfl, held⟩, ?_⟩
  intro token inside
  rcases List.mem_cons.mp inside with rfl | inside
  · exact .of_kind noName noInteger
  · exact valid token inside

/-- A word is one token of the kind of the word. -/
theorem word {name : String} (shaped : Name.hasShape name.toList = true) :
    Writes name.toList fun tokens =>
      ∃ token, tokens = [token] ∧ token.kind = .ofWord name ∧ token.lexeme = name := by
  intro start rest apart
  cases spelled : name.toList with
  | nil => simp [spelled, Name.hasShape] at shaped
  | cons c cs =>
    have same : String.ofList (c :: cs) = name := by rw [← spelled, String.ofList_toList]
    rw [spelled] at shaped
    refine ⟨_, Lexes.token (Token.readToken_word shaped apart), ⟨_, rfl, by rw [same], same⟩, ?_⟩
    intro token inside
    obtain rfl := List.mem_singleton.mp inside
    refine ⟨fun isName => ?_, fun isInteger => absurd isInteger (TokenKind.ofWord_ne_integer _)⟩
    have free := TokenKind.ofWord_eq_identifier_iff.mp isName
    rw [same] at free ⊢
    simp [Name.isName, spelled, shaped, free]

/-- A name is one identifier. -/
theorem name {text : String} (named : Name.isName text = true) :
    Writes text.toList fun tokens =>
      ∃ token, tokens = [token] ∧ token.kind = .identifier ∧ token.lexeme = text := by
  simp only [Name.isName, Bool.and_eq_true, Bool.not_eq_true'] at named
  refine (word named.1).mono ?_
  rintro tokens ⟨token, rfl, kind, same⟩
  exact ⟨token, rfl, kind.trans (TokenKind.ofWord_eq_identifier_iff.mpr named.2), same⟩

/-- The numeral of a word is one integer. -/
theorem numeral {n : Nat} (small : n < Word.bound) :
    Writes (Decimal.digits n) fun tokens =>
      ∃ token, tokens = [token] ∧ token.kind = .integer ∧ token.value = .int n := by
  intro start rest apart
  cases spelled : Decimal.digits n with
  | nil => exact absurd spelled (Decimal.digits_ne_nil n)
  | cons c cs =>
    refine ⟨_, Lexes.token (Token.readToken_digits small spelled apart), ⟨_, rfl, rfl, rfl⟩, ?_⟩
    intro token inside
    obtain rfl := List.mem_singleton.mp inside
    exact ⟨by simp, fun _ => ⟨n, small, rfl⟩⟩

/-- A closing parenthesis is one token. -/
theorem closing : Writes [')'] fun tokens =>
    ∃ token, tokens = [token] ∧ token.kind = .rightParen := by
  have closed := sign ')' [] .rightParen (by decide) (by decide) nil fun rest => rfl
  refine closed.mono ?_
  rintro tokens ⟨token, others, rfl, closes, rfl⟩
  exact ⟨token, rfl, closes⟩

/-- A text in parentheses is scanned as its tokens in parentheses. -/
theorem parens (inner : Writes text first) :
    Writes ('(' :: (text ++ [')'])) fun tokens =>
      ∃ opening used closing, tokens = opening :: (used ++ [closing]) ∧
        opening.kind = .leftParen ∧ first used ∧ closing.kind = .rightParen := by
  have closed := inner.append closing fun rest _ => Apart.cons rest (by decide)
  have opened := sign '(' [] .leftParen (by decide) (by decide) closed fun rest => rfl
  refine opened.mono ?_
  rintro tokens ⟨opening, others, rfl, opens, used, last, rfl, held, closing, rfl, closes⟩
  exact ⟨opening, used, closing, rfl, opens, held, closes⟩

/-- The symbol of a binary operator in front of a blank is its sign. -/
theorem operator (op : BinaryOp) (behind : Writes (' ' :: more) second) :
    Writes (op.symbol.toList ++ ' ' :: more) fun tokens =>
      ∃ token others, tokens = token :: others ∧ token.kind.binaryOp? = some op ∧
        second others := by
  obtain ⟨c, cs, kind, spelled, stands, read⟩ := op.symbol_read
  have noName : kind ≠ .identifier := by rintro rfl; simp [TokenKind.binaryOp?] at stands
  have noInteger : kind ≠ .integer := by rintro rfl; simp [TokenKind.binaryOp?] at stands
  rw [spelled]
  refine (sign c cs kind noName noInteger behind fun rest => read (more ++ rest)).mono ?_
  rintro tokens ⟨token, others, rfl, rfl, held⟩
  exact ⟨token, others, rfl, stands, held⟩

/-- The symbol of a unary operator is its sign, whatever is behind it. -/
theorem unaryOperator (op : UnaryOp) (behind : Writes more second) :
    Writes (op.symbol.toList ++ more) fun tokens =>
      ∃ token others, tokens = token :: others ∧ token.kind.unaryOp? = some op ∧
        second others := by
  obtain ⟨c, kind, spelled, stands, read⟩ := op.symbol_read
  have noName : kind ≠ .identifier := by rintro rfl; simp [TokenKind.unaryOp?] at stands
  have noInteger : kind ≠ .integer := by rintro rfl; simp [TokenKind.unaryOp?] at stands
  rw [spelled]
  refine (sign c [] kind noName noInteger behind fun rest => read (more ++ rest)).mono ?_
  rintro tokens ⟨token, others, rfl, rfl, held⟩
  exact ⟨token, others, rfl, stands, held⟩

/-- A reserved word in front of a text that keeps it apart is one token. -/
theorem keyword (name : String) (shaped : Name.hasShape name.toList = true)
    (behind : Writes more second) (parts : ∀ rest, Apart rest → Apart (more ++ rest)) :
    Writes (name.toList ++ more) fun tokens =>
      ∃ token others, tokens = token :: others ∧ token.kind = .ofWord name ∧ second others := by
  refine ((word shaped).append behind parts).mono ?_
  rintro tokens ⟨used, others, rfl, ⟨token, rfl, kind, -⟩, held⟩
  exact ⟨token, others, rfl, kind, held⟩

/-- A reserved word in front of a blank is one token. -/
theorem keywordBlank (name : String) (shaped : Name.hasShape name.toList = true)
    (behind : Writes more second) :
    Writes (name.toList ++ ' ' :: more) fun tokens =>
      ∃ token others, tokens = token :: others ∧ token.kind = .ofWord name ∧ second others :=
  keyword name shaped (gap ' ' rfl behind) fun _ _ => Apart.cons _ (by decide)

end Writes

namespace Expr

/-- An input read is scanned as its word and its source in parentheses. -/
theorem writes_text_input {source : String} (named : Name.isName source = true) :
    Writes (input source).text.toList fun tokens =>
      ∃ word opening token closing, tokens = [word, opening, token, closing] ∧
        word.kind = .getInput ∧ opening.kind = .leftParen ∧
        (token.kind = .identifier ∧ token.lexeme = source) ∧ closing.kind = .rightParen := by
  have spelled : (input source).text.toList =
      "get_input".toList ++ '(' :: (source.toList ++ [')']) := by
    simp [text, Render.inputText]
  rw [spelled]
  refine (Writes.keyword "get_input" (by decide) (Writes.name named).parens
    fun rest _ => Apart.cons _ (by decide)).mono ?_
  rintro tokens ⟨word, others, rfl, isInput, opening, used, closing, rfl, opens,
    ⟨token, rfl, source⟩, closes⟩
  exact ⟨word, opening, token, closing, rfl, isInput, opens, source, closes⟩

/-- A memory read is scanned as its word and its address in parentheses. -/
theorem writes_text_load {address : Expr} {held : List Token → Prop}
    (operand : Writes address.text.toList held) :
    Writes (load address).text.toList fun tokens =>
      ∃ word opening used closing, tokens = word :: opening :: (used ++ [closing]) ∧
        word.kind = .load ∧ opening.kind = .leftParen ∧ held used ∧
        closing.kind = .rightParen := by
  have spelled : (load address).text.toList =
      "load".toList ++ '(' :: (address.text.toList ++ [')']) := by
    simp [text, Render.loadText]
  rw [spelled]
  refine (Writes.keyword "load" (by decide) operand.parens
    fun rest _ => Apart.cons _ (by decide)).mono ?_
  rintro tokens ⟨word, others, rfl, isLoad, opening, used, closing, rfl, opens, inside, closes⟩
  exact ⟨word, opening, used, closing, rfl, isLoad, opens, inside, closes⟩

/-- A unary operator is scanned as its sign and its operand, which is grouped if it is binary. -/
theorem writes_text_unary {op : UnaryOp} {e : Expr} {held : List Token → Prop}
    (operand : Writes (Render.group (e.precedence < 8) e.text).toList held) :
    Writes (unary op e).text.toList fun tokens =>
      ∃ sign others, tokens = sign :: others ∧ sign.kind.unaryOp? = some op ∧ held others := by
  have spelled : (unary op e).text.toList =
      op.symbol.toList ++ (Render.group (e.precedence < 8) e.text).toList := by
    simp [text, Render.unaryText]
  rw [spelled]
  exact Writes.unaryOperator op operand

/-- A binary operator is scanned as its left operand, its sign and its right operand; the left one
is grouped if it binds more loosely, and the right one if it does not bind more tightly. -/
theorem writes_text_binary {op : BinaryOp} {l r : Expr} {before behind : List Token → Prop}
    (left : Writes (Render.group (l.precedence < op.precedence) l.text).toList before)
    (right : Writes (Render.group (r.precedence ≤ op.precedence) r.text).toList behind) :
    Writes (binary op l r).text.toList fun tokens =>
      ∃ used sign others, tokens = used ++ sign :: others ∧ before used ∧
        sign.kind.binaryOp? = some op ∧ behind others := by
  have spelled : (binary op l r).text.toList =
      (Render.group (l.precedence < op.precedence) l.text).toList ++ ' ' ::
        (op.symbol.toList ++ ' ' ::
          (Render.group (r.precedence ≤ op.precedence) r.text).toList) := by
    simp [text, Render.binaryText]
  rw [spelled]
  have signed := Writes.operator op (Writes.gap ' ' rfl right)
  have whole := left.append (Writes.gap ' ' rfl signed) fun rest _ => Apart.cons _ (by decide)
  refine whole.mono ?_
  rintro tokens ⟨used, others, rfl, first, sign, more, rfl, stands, second⟩
  exact ⟨used, sign, more, rfl, first, stands, second⟩

/-- An operand is written on the level it is needed on: in parentheses, or as it is if it
binds tightly enough. -/
theorem writes_group {e : Expr} {level : Nat} {needed : Bool} (bounded : level ≤ primaryLevel)
    (tight : needed = false → level ≤ e.level)
    (operand : Writes e.text.toList (Takes e.level · e e.calls)) :
    Writes (Render.group needed e.text).toList
      (Takes level · e (e.calls + if needed then descent else 0)) := by
  cases needed with
  | false => exact operand.mono fun tokens taken => taken.loosen (tight rfl) e.level_le
  | true =>
    have grouped : Writes ('(' :: (e.text.toList ++ [')']))
        (Takes level · e (e.calls + descent)) := by
      refine operand.parens.mono ?_
      rintro tokens ⟨opening, used, closing, rfl, opens, taken, closes⟩
      have inner := taken.loosen (Nat.zero_le _) e.level_le
      exact (Takes.group opens inner closes).loosen bounded (Nat.le_refl _)
    simpa [Render.group] using grouped

/-- An input read is written as one, with the name of its source. -/
theorem writes_input {source : String} (named : Name.isName source = true) :
    Writes (input source).text.toList (Takes primaryLevel · (input source) 1) := by
  refine (writes_text_input named).mono ?_
  rintro tokens ⟨word, opening, token, closing, rfl, isInput, opens, ⟨isName, rfl⟩, closes⟩
  exact .inputFrom isInput opens isName closes

/-- A memory read is written as one if its address is written. -/
theorem writes_load {address : Expr}
    (operand : Writes address.text.toList (Takes address.level · address address.calls)) :
    Writes (load address).text.toList
      (Takes primaryLevel · (load address) (load address).calls) := by
  refine (writes_text_load operand).mono ?_
  rintro tokens ⟨word, opening, used, closing, rfl, isLoad, opens, taken, closes⟩
  exact .load isLoad opens (taken.loosen (Nat.zero_le _) address.level_le) closes

/-- A unary operator is written in front of its operand, which is grouped if it is binary. -/
theorem writes_unary {op : UnaryOp} {e : Expr}
    (operand : Writes e.text.toList (Takes e.level · e e.calls)) :
    Writes (unary op e).text.toList (Takes unaryLevel · (unary op e) (unary op e).calls) := by
  have tight : decide (e.precedence < 8) = false → unaryLevel ≤ e.level := by
    simp only [decide_eq_false_iff_not, level, unaryLevel]
    omega
  refine (writes_text_unary (writes_group (by decide) tight operand)).mono ?_
  rintro tokens ⟨sign, others, rfl, stands, taken⟩
  simp only [decide_eq_true_eq] at taken
  exact .unary (mem_unarySigns.mpr stands) taken

/-- A binary operator is written between its operands; the left one is grouped if it binds more
loosely, and the right one if it does not bind more tightly. -/
theorem writes_binary {op : BinaryOp} {l r : Expr}
    (left : Writes l.text.toList (Takes l.level · l l.calls))
    (right : Writes r.text.toList (Takes r.level · r r.calls)) :
    Writes (binary op l r).text.toList
      (Takes (op.precedence - 1) · (binary op l r) (binary op l r).calls) := by
  have bounds := precedence_bounds op
  have tightLeft : decide (l.precedence < op.precedence) = false →
      op.precedence - 1 ≤ l.level := by
    simp only [decide_eq_false_iff_not, level]
    omega
  have tightRight : decide (r.precedence ≤ op.precedence) = false →
      op.precedence - 1 + 1 ≤ r.level := by
    simp only [decide_eq_false_iff_not, level]
    omega
  have first := writes_group (by simp only [primaryLevel]; omega) tightLeft left
  have second := writes_group (by simp only [primaryLevel]; omega) tightRight right
  refine (writes_text_binary first second).mono ?_
  rintro tokens ⟨used, sign, others, rfl, taken, stands, taken'⟩
  simp only [decide_eq_true_eq] at taken taken'
  exact .binary (mem_binaryLevels.mpr ⟨stands, by omega⟩) taken taken'

/-- The text of a well-formed expression is scanned as tokens that spell it, nested no deeper than
the tree needs. -/
theorem writes_text {e : Expr} (wellFormed : e.WellFormed) :
    Writes e.text.toList (Takes e.level · e e.calls) := by
  induction e with
  | lit value =>
    rw [text, Decimal.ofNat, String.toList_ofList]
    refine (Writes.numeral value.toNat_lt).mono ?_
    rintro tokens ⟨token, rfl, isInteger, denoted⟩
    exact .integer isInteger denoted
  | var name =>
    refine (Writes.name wellFormed).mono ?_
    rintro tokens ⟨token, rfl, isName, rfl⟩
    exact .name isName
  | input source => exact writes_input wellFormed
  | load address ih => exact writes_load (ih wellFormed)
  | unary op operand ih => exact writes_unary (ih wellFormed)
  | binary op left right ihLeft ihRight =>
    exact writes_binary (ihLeft wellFormed.1) (ihRight wellFormed.2)

/-- The text of a well-formed expression is scanned as tokens that spell it by itself. -/
theorem writes_whole {e : Expr} (wellFormed : e.WellFormed) :
    Writes e.text.toList (Takes 0 · e e.calls) :=
  (writes_text wellFormed).mono fun _ taken => taken.loosen (Nat.zero_le _) e.level_le

end Expr

namespace Stmt

/-- The target of a branch is written behind `goto`. -/
theorem writes_target {e : Expr} (wellFormed : e.WellFormed) :
    Writes ("goto".toList ++ ' ' :: e.text.toList) (TargetTakes · e e.calls) := by
  refine (Writes.keywordBlank "goto" (by decide) (Expr.writes_whole wellFormed)).mono ?_
  rintro tokens ⟨word, others, rfl, isGoto, taken⟩
  exact .goto isGoto taken

/-- An assignment is written as its target, the sign of assignment and its value. -/
theorem writes_assign {target : String} {value : Expr} (named : Name.isName target = true)
    (wellFormed : value.WellFormed) :
    Writes (assign target value).text.toList
      (StatementTakes · (assign target value) (assign target value).calls) := by
  have assigned := Writes.sign ':' ['='] .assign (by decide) (by decide)
    (Writes.gap ' ' rfl (Expr.writes_whole wellFormed)) fun rest => rfl
  have spelled : (assign target value).text.toList =
      target.toList ++ ' ' :: (':' :: '=' :: ' ' :: value.text.toList) := by
    simp [text]
  rw [spelled]
  refine ((Writes.name named).append (Writes.gap ' ' rfl assigned)
    fun rest _ => Apart.cons _ (by decide)).mono ?_
  rintro tokens ⟨used, others, rfl, ⟨token, rfl, isName, rfl⟩, sign, more, rfl, isAssign, taken⟩
  exact .assign isName isAssign taken

/-- A memory write is written as one, with its address and its value. -/
theorem writes_store {address value : Expr} (wellFormedAddress : address.WellFormed)
    (wellFormedValue : value.WellFormed) :
    Writes (store address value).text.toList
      (StatementTakes · (store address value) (store address value).calls) := by
  have filled := Writes.sign ',' [] .comma (by decide) (by decide)
    (Writes.gap ' ' rfl (Expr.writes_whole wellFormedValue)) fun rest => rfl
  have both := ((Expr.writes_whole wellFormedAddress).append filled
    fun rest _ => Apart.cons _ (by decide)).parens
  have spelled : (store address value).text.toList = "store".toList ++
      '(' :: ((address.text.toList ++ ',' :: ' ' :: value.text.toList) ++ [')']) := by
    simp [text]
  rw [spelled]
  refine (Writes.keyword "store" (by decide) both fun rest _ => Apart.cons _ (by decide)).mono ?_
  rintro tokens ⟨word, others, rfl, isStore, opening, held, closing, rfl, opens,
    ⟨first, behind, rfl, taken, comma, second, rfl, isComma, taken'⟩, closes⟩
  simpa [calls] using StatementTakes.store isStore opens taken isComma taken' closes

/-- A branch is written as its condition and its two targets. -/
theorem writes_branch {condition thenTarget elseTarget : Expr}
    (wellFormed : (branch condition thenTarget elseTarget).WellFormed) :
    Writes (branch condition thenTarget elseTarget).text.toList
      (StatementTakes · (branch condition thenTarget elseTarget)
        (branch condition thenTarget elseTarget).calls) := by
  have elsePart := Writes.keywordBlank "else" (by decide) (writes_target wellFormed.2.2)
  have targets := (writes_target wellFormed.2.1).append (Writes.gap ' ' rfl elsePart)
    fun rest _ => Apart.cons _ (by decide)
  have thenPart := Writes.keywordBlank "then" (by decide) targets
  have whole := (Expr.writes_whole wellFormed.1).append (Writes.gap ' ' rfl thenPart)
    fun rest _ => Apart.cons _ (by decide)
  have spelled : (branch condition thenTarget elseTarget).text.toList = "if".toList ++ ' ' ::
      (condition.text.toList ++ ' ' :: ("then".toList ++ ' ' ::
        (("goto".toList ++ ' ' :: thenTarget.text.toList) ++ ' ' ::
          ("else".toList ++ ' ' :: ("goto".toList ++ ' ' :: elseTarget.text.toList))))) := by
    simp [text]
  rw [spelled]
  refine (Writes.keywordBlank "if" (by decide) whole).mono ?_
  rintro tokens ⟨ifWord, _, rfl, isIf, tokens, _, rfl, taken, thenWord, _, rfl, isThen,
    first, _, rfl, thenDerived, elseWord, second, rfl, isElse, elseDerived⟩
  exact .branch isIf taken isThen thenDerived isElse elseDerived

/-- The text of a well-formed statement is scanned as tokens that spell it, nested no deeper than
its trees need. -/
theorem writes_text {s : Stmt} (wellFormed : s.WellFormed) :
    Writes s.text.toList (StatementTakes · s s.calls) := by
  cases s with
  | assign target value => exact writes_assign wellFormed.1 wellFormed.2
  | store address value => exact writes_store wellFormed.1 wellFormed.2
  | goto target =>
    have spelled : (goto target).text.toList = "goto".toList ++ ' ' :: target.text.toList := by
      simp [text]
    rw [spelled]
    refine (Writes.keywordBlank "goto" (by decide) (Expr.writes_whole wellFormed)).mono ?_
    rintro tokens ⟨word, others, rfl, isGoto, taken⟩
    exact .goto isGoto taken
  | assert condition =>
    have spelled : (assert condition).text.toList =
        "assert".toList ++ ' ' :: condition.text.toList := by
      simp [text]
    rw [spelled]
    refine (Writes.keywordBlank "assert" (by decide) (Expr.writes_whole wellFormed)).mono ?_
    rintro tokens ⟨word, others, rfl, isAssert, taken⟩
    exact .assert isAssert taken
  | branch condition thenTarget elseTarget => exact writes_branch wellFormed

/-- The text of well-formed statements is scanned as tokens that spell them, nested no deeper than
their trees need. -/
theorem writes_textLines {ss : List Stmt} (wellFormed : ∀ s ∈ ss, s.WellFormed) :
    Writes (textLines ss).toList (StatementsTake · ss (callsOf ss)) := by
  induction ss with
  | nil =>
    refine Writes.nil.mono ?_
    rintro tokens rfl
    exact .nil
  | cons first others ih =>
    have later := ih fun s inside => wellFormed s (List.mem_cons_of_mem first inside)
    have whole := (writes_text (wellFormed first List.mem_cons_self)).append
      (Writes.gap '\n' rfl later) fun rest _ => Apart.cons _ (by decide)
    have spelled : (textLines (first :: others)).toList =
        first.text.toList ++ '\n' :: (textLines others).toList := by
      simp [textLines]
    rw [spelled]
    refine whole.mono ?_
    rintro tokens ⟨used, rest, rfl, spelled, spelled'⟩
    exact .cons spelled spelled'

end Stmt

namespace Program

/-- A text that is scanned as tokens which spell a program is parsed as it from the depth on that
they take. -/
theorem parseWithin_of_writes {text : String} {p : Program} {calls : Nat}
    (writes : Writes text.toList (StatementsTake · p.statements calls)) (depth : Nat) :
    parseWithin depth text = if depth < calls + 1 then .error .tooDeep else .ok p := by
  obtain ⟨tokens, lexed, taken, -⟩ := writes {} [] .nil
  exact parseWithin_of_takes (scanFrom_eq_ok.mp lexed.scanFrom_eq).1 taken depth

/-- The text of a well-formed program is parsed as the program from the depth of its trees on. -/
theorem parseWithin_textLines {p : Program} (wellFormed : p.WellFormed) (depth : Nat) :
    parseWithin depth (Stmt.textLines p.statements) =
      if depth < p.calls then .error .tooDeep else .ok p :=
  parseWithin_of_writes (Stmt.writes_textLines wellFormed) depth

end Program

/-- The text of a well-formed expression is parsed as the expression from the depth of the tree
on. -/
theorem Expr.parseWithin_text {e : Expr} (wellFormed : e.WellFormed) (depth : Nat) :
    parseWithin depth e.text =
      if depth < e.calls + Cursor.above 0 + 1 then .error .tooDeep else .ok e := by
  obtain ⟨tokens, lexed, taken, -⟩ := writes_whole wellFormed {} [] .nil
  exact parseWithin_of_takes (scanFrom_eq_ok.mp lexed.scanFrom_eq).1 taken depth

/-- Rendering is undone by parsing if the calls that may be under way are enough: every well-formed
program and every well-formed expression is rendered as a text, and from the depth of the tree on,
that text is parsed as the same tree. With fewer calls, the parser is stopped for being too deep. -/
theorem parse_render (depth : Nat) :
    (∀ p : Program, p.WellFormed → ∃ text, p.render = .ok text ∧
      Program.parseWithin depth text = if depth < p.calls then .error .tooDeep else .ok p) ∧
    ∀ e : Expr, e.WellFormed → ∃ text, e.render = .ok text ∧
      Expr.parseWithin depth text =
        if depth < e.calls + Cursor.above 0 + 1 then .error .tooDeep else .ok e :=
  ⟨fun _ wellFormed => ⟨_, Stmt.renderLines_eq_textLines wellFormed,
      Program.parseWithin_textLines wellFormed depth⟩,
    fun _ wellFormed =>
      ⟨_, Expr.render_eq_text wellFormed, Expr.parseWithin_text wellFormed depth⟩⟩

/-- The round trip of a loop whose condition needs its parentheses, and of that condition, each with
as many calls as it takes. -/
theorem parse_render_loop :
    let step := Expr.unary .neg (.binary .sub (.input "stdin") (.unary .neg (.lit 1)))
    let condition := Expr.binary .mul (.binary .sub (.var "n") step) (.load (.var "at"))
    let loop : Program := ⟨[.assign "n" step, .branch condition (.lit 0) (.var "n")]⟩
    (loop.WellFormed ∧ ∃ text, loop.render = .ok text ∧
      Program.parseWithin 36 text = .error .tooDeep ∧ Program.parseWithin 37 text = .ok loop) ∧
      condition.WellFormed ∧ ∃ text, condition.render = .ok text ∧
        Expr.parseWithin 35 text = .ok condition := by
  intro step condition loop
  have wellFormed : loop.WellFormed := by decide
  have sound : condition.WellFormed := by decide
  obtain ⟨text, rendered, stopped⟩ := (parse_render 36).1 loop wellFormed
  obtain ⟨again, renderedAgain, parsed⟩ := (parse_render 37).1 loop wellFormed
  obtain rfl := Except.ok.inj (rendered.symm.trans renderedAgain)
  obtain ⟨line, renderedLine, parsedLine⟩ := (parse_render 35).2 condition sound
  exact ⟨⟨wellFormed, text, rendered, stopped.trans rfl, parsed.trans rfl⟩, sound, line,
    renderedLine, parsedLine.trans rfl⟩

/-- Memory reads one inside the other, around an expression. -/
def Expr.nest : (count : Nat) → Expr → Expr
  | 0, e => e
  | count + 1, e => .load (nest count e)

/-- A well-formed program with a hundred memory reads one inside the other is rendered, but with a
thousand calls under way its text is too deep to be read back. -/
theorem deep_text_not_parsed :
    let p : Program := ⟨[.assign "x" (.nest 100 (.lit 1))]⟩
    p.WellFormed ∧ ∃ text, p.render = .ok text ∧
      Program.parseWithin 1000 text = .error .tooDeep ∧
      ∀ q, Program.parseWithin 1000 text ≠ .ok q := by
  intro p
  have wellFormed : p.WellFormed := by decide
  have deep : Program.parseWithin 1000 (Stmt.textLines p.statements) = .error .tooDeep :=
    (Program.parseWithin_textLines wellFormed 1000).trans rfl
  refine ⟨wellFormed, _, Stmt.renderLines_eq_textLines wellFormed, deep, fun q parsed => ?_⟩
  cases deep.symm.trans parsed

end FlatIL
