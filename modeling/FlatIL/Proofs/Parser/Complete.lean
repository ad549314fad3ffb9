import FlatIL.Proofs.Cursor
import FlatIL.Proofs.Nesting
import Mathlib.Data.List.Basic

/-!
# What is spelled is parsed

Tokens that spell an expression on a level are read by the rule of that level, up to any tokens that
cannot go on the expression. For that, as many calls may have to be under way as the grouping of the
tokens takes; with fewer, the parser is stopped for being too deep. On the levels of binary
operators the induction is over derivations that group to the left, while the parser reads in
rounds; the two meet in `Continues`: behind the tokens of a derivation, the rounds go on with the
tree that was derived. The parser on tokens, which the one with a cursor agrees with, reads the
same. -/

namespace FlatIL

open Grammar

namespace Parser

/-- The tokens cannot go on an expression of a level: neither by an operator of that level or
a tighter one, nor by the parenthesis of an input source. -/
def Ends (level : Nat) (rest : List Token) : Prop :=
  ∀ token ∈ rest.head?, token.kind ≠ .leftParen ∧
    ∀ op, token.kind.binaryOp? = some op → op.precedence ≤ level

namespace Ends

/-- Nothing goes on at the end of the text. -/
theorem nil (level : Nat) : Ends level [] := by
  simp [Ends]

/-- What cannot go on a level cannot go on a tighter one. -/
theorem tighter {level : Nat} {rest : List Token} (ends : Ends level rest) :
    Ends (level + 1) rest := by
  intro token first
  obtain ⟨closed, loose⟩ := ends token first
  exact ⟨closed, fun op sign => Nat.le_succ_of_le (loose op sign)⟩

/-- A token that is neither an operator nor an opening parenthesis ends every level. -/
theorem of_kind {token : Token} (level : Nat) (rest : List Token)
    (closed : token.kind ≠ .leftParen) (plain : token.kind.binaryOp? = none) :
    Ends level (token :: rest) := by
  intro other first
  obtain rfl := Option.some.inj first
  exact ⟨closed, fun op sign => by simp [plain] at sign⟩

/-- A sign of a level ends the next tighter one. -/
theorem of_sign {level : Nat} {sign : Token} {op : BinaryOp} (rest : List Token)
    (listed : (sign.kind, op) ∈ binaryLevels.getD level []) : Ends (level + 1) (sign :: rest) := by
  obtain ⟨stands, strength⟩ := mem_binaryLevels.mp listed
  intro other first
  obtain rfl := Option.some.inj first
  constructor
  · intro opens
    simp [opens, TokenKind.binaryOp?] at stands
  · intro other stands'
    obtain rfl := Option.some.inj (stands.symm.trans stands')
    omega

end Ends

/-- A closing parenthesis ends every level. -/
theorem Ends.of_closing {closing : Token} (level : Nat) (rest : List Token)
    (closes : closing.kind = .rightParen) : Ends level (closing :: rest) :=
  .of_kind level rest (by simp [closes]) (by simp [closes, TokenKind.binaryOp?])

/-- What ends a level holds no operator of it. -/
theorem Ends.operatorAt_eq_none {level : Nat} {rest : List Token} (ends : Ends level rest) :
    ∀ token ∈ rest.head?, operatorAt (level + 1) token = none := by
  intro token first
  rw [Option.eq_none_iff_forall_ne_some]
  intro op sign
  obtain ⟨stands, strength⟩ := mem_binaryLevels.mp (operatorAt_eq_some.mp sign)
  have loose := (ends token first).2 op stands
  omega

/-- The first token of a primary is not the sign of a unary operator. -/
theorem unaryOp?_head_of_primary {level : Nat} {tokens : List Token} {e : Expr}
    (derived : Derives level tokens e) (isPrimary : level = primaryLevel) :
    ∀ token ∈ tokens.head?, token.kind.unaryOp? = none := by
  cases derived with
  | tighter loose inner => omega
  | binary listed first second =>
    subst isPrimary
    simp [binaryLevels, primaryLevel] at listed
  | unary listed operand => simp [unaryLevel, primaryLevel] at isPrimary
  | integer isInteger denoted => simp [isInteger, TokenKind.unaryOp?]
  | name isName => simp [isName, TokenKind.unaryOp?]
  | load isLoad opens address closes => simp [isLoad, TokenKind.unaryOp?]
  | input isInput => simp [isInput, TokenKind.unaryOp?]
  | inputFrom isInput opens isName closes => simp [isInput, TokenKind.unaryOp?]
  | group opens inner closes => simp [opens, TokenKind.unaryOp?]

/-- No expression starts with `goto`. -/
theorem head_ne_goto {level : Nat} {tokens : List Token} {e : Expr}
    (derived : Derives level tokens e) : ∀ token ∈ tokens.head?, token.kind ≠ .goto := by
  induction derived with
  | tighter loose inner ih => exact ih
  | binary listed first second ihFirst ihSecond =>
    rw [List.head?_append_of_ne_nil _ first.tokens_ne_nil]
    exact ihFirst
  | unary listed operand ih =>
    intro token first isGoto
    obtain rfl := Option.some.inj first
    rw [isGoto] at listed
    simp [unarySigns] at listed
  | integer isInteger denoted => simp [isInteger]
  | name isName => simp [isName]
  | load isLoad opens address closes => simp [isLoad]
  | input isInput => simp [isInput]
  | inputFrom isInput opens isName closes => simp [isInput]
  | group opens inner closes => simp [opens]

/-- A statement ends the expression in front of it. -/
theorem Ends.of_statement {tokens : List Token} {s : Stmt} (spelled : Statement tokens s)
    (rest : List Token) : Ends 0 (tokens ++ rest) := by
  cases spelled with
  | assign isName isAssign value =>
    exact .of_kind 0 _ (by simp [isName]) (by simp [isName, TokenKind.binaryOp?])
  | store isStore opens address isComma value closes =>
    exact .of_kind 0 _ (by simp [isStore]) (by simp [isStore, TokenKind.binaryOp?])
  | goto isGoto target =>
    exact .of_kind 0 _ (by simp [isGoto]) (by simp [isGoto, TokenKind.binaryOp?])
  | assert isAssert condition =>
    exact .of_kind 0 _ (by simp [isAssert]) (by simp [isAssert, TokenKind.binaryOp?])
  | branch isIf condition isThen thenTarget isElse elseTarget =>
    exact .of_kind 0 _ (by simp [isIf]) (by simp [isIf, TokenKind.binaryOp?])

/-- Statements end the expression in front of them. -/
theorem Ends.of_statements {tokens : List Token} {ss : List Stmt}
    (spelled : Statements tokens ss) : Ends 0 tokens := by
  cases spelled with
  | nil => exact .nil 0
  | cons first rest => exact .of_statement first _

end Parser

namespace Cursor

open FlatIL.Parser (Ends AllValid operatorAt_eq_some)

/-! ## Levels -/

/-- The rule for a level of the grammar. -/
def rule (patience level depth : Nat) : Walk Expr :=
  if level = primaryLevel then primary patience depth else binary patience depth level

/-- The calls that lead from a level to a primary. -/
def above (level : Nat) : Nat :=
  if level = primaryLevel then 0 else Parser.levels + 2 - level

/-- The rule of the tightest level reads primaries. -/
theorem rule_primary (patience : Nat) : rule patience primaryLevel = primary patience :=
  rfl

/-- The rule of any other level reads operators. -/
theorem rule_binary (patience : Nat) {level : Nat} (loose : level < primaryLevel) :
    rule patience level = (binary patience · level) := by
  funext depth
  rw [rule, if_neg (Nat.ne_of_lt loose)]

/-- From the tightest level, no call leads to a primary. -/
theorem above_primary : above primaryLevel = 0 :=
  rfl

/-- From any other level, a call leads to each level below it. -/
theorem above_binary {level : Nat} (loose : level < primaryLevel) :
    above level = Parser.levels + 2 - level := by
  rw [above, if_neg (Nat.ne_of_lt loose)]

variable {tokens body : List Token} {stop : Token} {patience level m n : Nat}

/-- At a level, the tokens are read as the expression, up to what cannot go on. -/
def Reaches (tokens body : List Token) (stop : Token) (patience level : Nat) (used : List Token)
    (e : Expr) (calls : Nat) : Prop :=
  ∀ rest, used ++ rest <:+ body → Ends level rest →
    Settles tokens body stop (rule patience level) (used ++ rest) (.ok e, rest)
      (calls + above level)

/-- At a binary level, the tokens are read as the expression in rounds that then go on. -/
def Continues (tokens body : List Token) (stop : Token) (patience level : Nat) (used : List Token)
    (e : Expr) (calls : Nat) : Prop :=
  ∀ rest, used ++ rest <:+ body → Ends (level + 1) rest →
    ∃ rounds, rest.length < rounds ∧ ∀ outcome more,
      Settles tokens body stop
        (fun depth => row (binary patience depth (level + 1)) level rounds e) rest outcome more →
      Settles tokens body stop
        (fun depth => binary patience depth (level + 1) >>=
          row (binary patience depth (level + 1)) level patience)
        (used ++ rest) outcome (max (calls + above (level + 1)) more)

section

variable {used left right : List Token} {sign : Token} {op : BinaryOp} {e l r : Expr} {calls : Nat}

/-- Behind more tokens of a body stand the last ones of it. -/
theorem suffix_of_append {used rest body : List Token} (last : used ++ rest <:+ body) :
    rest <:+ body :=
  (List.suffix_append used rest).trans last

/-- A single operand starts the rounds. -/
theorem Continues.of_reaches (patient : body.length < patience) (loose : level < unaryLevel)
    (reaches : Reaches tokens body stop patience (level + 1) used e calls) :
    Continues tokens body stop patience level used e calls := by
  intro rest last ends
  have fits := (suffix_of_append last).length_le
  have read := reaches rest last ends
  rw [rule_binary patience (Nat.succ_lt_succ loose)] at read
  exact ⟨patience, Nat.lt_of_le_of_lt fits patient, fun outcome more later =>
    read.bind (List.suffix_append used rest) later⟩

variable (splits : Splits tokens body stop)

include splits

/-- The rounds of a level stop in front of what cannot go on. -/
theorem settles_row_of_ends {rest : List Token} {rounds : Nat} (operand : Nat → Walk Expr)
    (last : rest <:+ body) (ends : Ends level rest) (more : rest.length < rounds) (e : Expr) :
    Settles tokens body stop (fun depth => row (operand depth) level rounds e) rest
      (.ok e, rest) 0 := by
  obtain ⟨rounds, rfl⟩ := Nat.exists_eq_add_of_le' (Nat.zero_lt_of_lt more)
  have none : Parser.operatorAt (level + 1) (rest.head?.getD stop) = none := by
    cases rest with
    | nil => simp [Parser.operatorAt, splits.ends, TokenKind.binaryOp?]
    | cons token rest => exact ends.operatorAt_eq_none token rfl
  simp only [row]
  refine .step (List.suffix_refl rest) (fun _ => splits.run_peek_bind last _) ?_
  simp only [none]
  exact .flat rfl

/-- Rounds that go on stop where nothing goes on. -/
theorem Continues.reaches (loose : level < unaryLevel)
    (continues : Continues tokens body stop patience level used e calls) :
    Reaches tokens body stop patience level used e calls := by
  intro rest last ends
  obtain ⟨rounds, more, same⟩ := continues rest last ends.tighter
  have read := same _ 0 (settles_row_of_ends splits _ (suffix_of_append last) ends more e)
  have looser : level < primaryLevel := Nat.lt_trans loose (by decide)
  have inside : level ≠ Parser.levels := Nat.ne_of_lt loose
  have counted : calls + above level = max (calls + above (level + 1)) 0 + 1 := by
    rw [above_binary looser, above_binary (Nat.succ_lt_succ loose)]
    simp only [unaryLevel, Parser.levels] at loose ⊢
    omega
  rw [rule_binary patience looser, counted]
  refine .call (by simp only [binary]) ?_
  simpa only [binary, if_neg inside] using read

/-- Rounds that go on with an operator and an operand go on behind them. -/
theorem Continues.binary (loose : level < unaryLevel)
    (listed : (sign.kind, op) ∈ binaryLevels.getD level [])
    (first : Continues tokens body stop patience level left l m)
    (second : Reaches tokens body stop patience (level + 1) right r n) :
    Continues tokens body stop patience level (left ++ sign :: right) (.binary op l r)
      (max m n) := by
  intro rest last ends
  rw [List.append_assoc, List.cons_append] at last
  obtain ⟨rounds, enough, same⟩ := first _ last (.of_sign (right ++ rest) listed)
  obtain ⟨rounds, rfl⟩ := Nat.exists_eq_add_of_le' (Nat.zero_lt_of_lt enough)
  simp only [List.length_cons, List.length_append] at enough
  refine ⟨rounds, by omega, fun outcome more later => ?_⟩
  have behind := suffix_of_append last
  have read := second rest ((List.suffix_cons sign _).trans behind) ends
  rw [rule_binary patience (Nat.succ_lt_succ loose)] at read
  have joined : max (max m n + above (level + 1)) more =
      max (m + above (level + 1)) (max (n + above (level + 1)) more) := by omega
  rw [List.append_assoc, List.cons_append, joined]
  refine same outcome _ ?_
  simp only [row]
  refine .step (List.suffix_refl _) (fun _ => splits.run_peek_bind behind _) ?_
  simp only [List.head?_cons, Option.getD_some, operatorAt_eq_some.mpr listed]
  exact .pass splits behind (read.bind (List.suffix_append right rest) later)

/-! ## Unary operators -/

omit splits in
/-- What is read on the unary level is read by the rule for unary operators. -/
theorem Reaches.unaryRule {rest : List Token}
    (reaches : Reaches tokens body stop patience unaryLevel used e calls)
    (last : used ++ rest <:+ body) (ends : Ends unaryLevel rest) :
    Settles tokens body stop (unary patience) (used ++ rest) (.ok e, rest) (calls + 1) := by
  have read := reaches rest last ends
  have tightest : unaryLevel = Parser.levels := rfl
  rw [rule_binary patience (by decide)] at read
  simpa only [binary, tightest, if_true] using read.of_call

omit splits in
/-- What is read by the rule for unary operators is read on the unary level. -/
theorem Reaches.of_unaryRule
    (read : ∀ rest, used ++ rest <:+ body → Ends unaryLevel rest →
      Settles tokens body stop (Cursor.unary patience) (used ++ rest) (.ok e, rest) (calls + 1)) :
    Reaches tokens body stop patience unaryLevel used e calls := by
  intro rest last ends
  have tightest : unaryLevel = Parser.levels := rfl
  rw [rule_binary patience (by decide)]
  refine .call (by simp only [Cursor.binary]) ?_
  simpa only [Cursor.binary, tightest, if_true] using read rest last ends

/-- A unary operator is read in front of what is read on its own level. -/
theorem Reaches.unary {op : UnaryOp} (listed : (sign.kind, op) ∈ unarySigns)
    (operand : Reaches tokens body stop patience unaryLevel used e calls) :
    Reaches tokens body stop patience unaryLevel (sign :: used) (.unary op e) (calls + 1) := by
  refine .of_unaryRule fun rest last ends => ?_
  rw [List.cons_append] at last ⊢
  have read := operand.unaryRule ((List.suffix_cons sign _).trans last) ends
  refine .call (by simp only [Cursor.unary]) ?_
  simp only [Cursor.unary]
  refine .step (List.suffix_refl _) (fun _ => splits.run_peek_bind last _) ?_
  simp only [List.head?_cons, Option.getD_some, mem_unarySigns.mp listed]
  exact .pass splits last (read.bind_flat (List.suffix_append used rest) rfl)

/-- A primary is read on the unary level if it does not start with a unary sign. -/
theorem Reaches.unary_of_primary (nonempty : used ≠ [])
    (unsigned : ∀ token ∈ used.head?, token.kind.unaryOp? = none)
    (reaches : Reaches tokens body stop patience primaryLevel used e calls) :
    Reaches tokens body stop patience unaryLevel used e calls := by
  refine .of_unaryRule fun rest last ends => ?_
  have read := reaches rest last ends.tighter
  rw [rule_primary, above_primary, Nat.add_zero] at read
  refine .call (by simp only [Cursor.unary]) ?_
  simp only [Cursor.unary]
  refine .step (List.suffix_refl _) (fun _ => splits.run_peek_bind last _) ?_
  cases used with
  | nil => contradiction
  | cons token used =>
    simp only [List.cons_append, List.head?_cons, Option.getD_some, unsigned token rfl]
    exact read

/-! ## Primaries -/

omit splits in
/-- What is read on the loosest level is read as an expression. -/
theorem Reaches.expression {rest : List Token}
    (reaches : Reaches tokens body stop patience 0 used e calls) (last : used ++ rest <:+ body)
    (ends : Ends 0 rest) :
    Settles tokens body stop (Cursor.expression patience) (used ++ rest) (.ok e, rest)
      (calls + above 0 + 1) := by
  have read := reaches rest last ends
  rw [rule_binary patience (by decide)] at read
  refine .call (by simp only [Cursor.expression]) ?_
  simpa only [Cursor.expression] using read

omit splits in
/-- A primary is a call that reads its first token. -/
theorem Reaches.of_primary
    (read : ∀ rest, used ++ rest <:+ body → Ends primaryLevel rest →
      Settles tokens body stop (fun depth => primary patience (depth + 1)) (used ++ rest)
        (.ok e, rest) calls) :
    Reaches tokens body stop patience primaryLevel used e (calls + 1) := by
  intro rest last ends
  rw [rule_primary, above_primary, Nat.add_zero]
  exact .call (by simp only [primary]) (read rest last ends)

/-- An integer is read as the literal of its value. -/
theorem Reaches.integer {token : Token} {value : Word} (isInteger : token.kind = .integer)
    (denoted : token.value = .int value.toNat) (valid : token.Valid) :
    Reaches tokens body stop patience primaryLevel [token] (.lit value) 1 := by
  refine .of_primary fun rest last _ => ?_
  have accepted := (valid.literal_eq_ok isInteger).mpr denoted
  obtain ⟨kind, lexeme, location, number⟩ := token
  cases isInteger
  simp only [primary]
  refine .pass splits last (.flat ?_)
  simp only [accepted]
  rfl

/-- An identifier is read as the variable of its name. -/
theorem Reaches.name {token : Token} (isName : token.kind = .identifier) (valid : token.Valid) :
    Reaches tokens body stop patience primaryLevel [token] (.var token.lexeme) 1 := by
  refine .of_primary fun rest last _ => ?_
  have accepted := valid.nameOfText_eq isName
  obtain ⟨kind, lexeme, location, number⟩ := token
  cases isName
  simp only [primary]
  refine .pass splits last (.flat ?_)
  simp only [accepted]
  rfl

/-- What is read as an expression is read in front of a closing parenthesis. -/
theorem Reaches.closed {closing : Token} {rest : List Token} {expected : Expectation}
    {α : Type} {after : Expr → Walk α} {a : α} (closes : closing.kind = .rightParen)
    (inner : Reaches tokens body stop patience 0 used e calls)
    (last : used ++ closing :: rest <:+ body)
    (done : (after e).run tokens (facing body rest) = (.ok a, facing body rest)) :
    Settles tokens body stop
      (fun depth => Cursor.expression patience depth >>= fun e => do
        let _ ← expect .rightParen expected
        after e) (used ++ closing :: rest) (.ok a, rest) (calls + above 0 + 1) := by
  have read := inner.expression last (.of_closing 0 rest closes)
  refine read.bind_flat (List.suffix_append used _) ?_
  exact (splits.run_expect_bind (suffix_of_append last) closes expected _).trans done

/-- A memory read is read if its address is. -/
theorem Reaches.load {word opening closing : Token} (isLoad : word.kind = .load)
    (opens : opening.kind = .leftParen) (closes : closing.kind = .rightParen)
    (address : Reaches tokens body stop patience 0 used e calls) :
    Reaches tokens body stop patience primaryLevel (word :: opening :: (used ++ [closing]))
      (.load e) (calls + descent) := by
  refine .of_primary fun rest last _ => ?_
  obtain ⟨kind, lexeme, location, number⟩ := word
  cases isLoad
  simp only [List.cons_append, List.append_assoc, List.nil_append] at last ⊢
  have opened := (List.suffix_cons _ _).trans last
  simp only [primary]
  refine .pass splits last ?_
  refine .expect splits opened opens ?_
  exact address.closed splits closes ((List.suffix_cons _ _).trans opened) rfl

/-- A group is read if what it holds is. -/
theorem Reaches.group {opening closing : Token} (opens : opening.kind = .leftParen)
    (closes : closing.kind = .rightParen)
    (inner : Reaches tokens body stop patience 0 used e calls) :
    Reaches tokens body stop patience primaryLevel (opening :: (used ++ [closing])) e
      (calls + descent) := by
  refine .of_primary fun rest last _ => ?_
  obtain ⟨kind, lexeme, location, number⟩ := opening
  cases opens
  simp only [List.cons_append, List.append_assoc, List.nil_append] at last ⊢
  simp only [primary]
  refine .pass splits last ?_
  exact inner.closed splits closes ((List.suffix_cons _ _).trans last) rfl

/-- An input read without a source is read in front of anything but a parenthesis. -/
theorem Reaches.input {word : Token} (isInput : word.kind = .getInput) :
    Reaches tokens body stop patience primaryLevel [word] (.input "stdin") 1 := by
  refine .of_primary fun rest last ends => ?_
  obtain ⟨kind, lexeme, location, number⟩ := word
  cases isInput
  have bare : (rest.head?.getD stop).kind ≠ .leftParen := by
    cases rest with
    | nil => exact splits.kind_ne (by decide)
    | cons token rest => exact (ends token rfl).1
  simp only [primary]
  refine .pass splits last (.flat ?_)
  exact splits.run_accept_bind_of_ne (suffix_of_append last) bare _

/-- An input read with a source is read with it. -/
theorem Reaches.inputFrom {word opening source closing : Token} (isInput : word.kind = .getInput)
    (opens : opening.kind = .leftParen) (isName : source.kind = .identifier)
    (closes : closing.kind = .rightParen) (valid : source.Valid) :
    Reaches tokens body stop patience primaryLevel [word, opening, source, closing]
      (.input source.lexeme) 1 := by
  refine .of_primary fun rest last _ => ?_
  have accepted := valid.nameOfText_eq isName
  obtain ⟨kind, lexeme, location, number⟩ := word
  cases isInput
  simp only [List.cons_append, List.nil_append] at last ⊢
  have opened := (List.suffix_cons _ _).trans last
  have named := (List.suffix_cons _ _).trans opened
  simp only [primary]
  refine .pass splits last ?_
  refine .step (List.suffix_cons _ _) (fun _ => splits.run_accept_bind opened opens _) ?_
  refine .expect splits named isName ?_
  refine .expect splits ((List.suffix_cons _ _).trans named) closes (.flat ?_)
  simp only [accepted]
  rfl

variable (patient : body.length < patience)

include patient

/-- Valid tokens that spell an expression on a level are read on that level; on a binary level the
rounds then go on. -/
theorem reaches_of_takes (taken : Takes level used e calls) (valid : AllValid used) :
    Reaches tokens body stop patience level used e calls ∧
      (level < unaryLevel → Continues tokens body stop patience level used e calls) := by
  induction taken with
  | @tighter level calls used e loose inner ih =>
    have reaches := (ih valid).1
    by_cases binary : level < unaryLevel
    · have continues := Continues.of_reaches patient binary reaches
      exact ⟨continues.reaches splits binary, fun _ => continues⟩
    · obtain rfl : level = unaryLevel := by
        simp only [unaryLevel, primaryLevel] at *
        omega
      exact ⟨reaches.unary_of_primary splits inner.derives.tokens_ne_nil
        (Parser.unaryOp?_head_of_primary inner.derives rfl), fun loose => absurd loose binary⟩
  | @binary level m n left right sign op l r listed first second ihFirst ihSecond =>
    have binary : level < unaryLevel := by
      obtain ⟨_, strength⟩ := mem_binaryLevels.mp listed
      have bounds := precedence_bounds op
      simp only [unaryLevel]
      omega
    have continues := Continues.binary splits binary listed ((ihFirst valid.left).2 binary)
      (ihSecond valid.right.tail).1
    exact ⟨continues.reaches splits binary, fun _ => continues⟩
  | unary listed operand ih =>
    exact ⟨.unary splits listed (ih valid.tail).1, fun loose => absurd loose (by decide)⟩
  | integer isInteger denoted =>
    exact ⟨.integer splits isInteger denoted (valid _ List.mem_cons_self),
      fun loose => absurd loose (by decide)⟩
  | name isName =>
    exact ⟨.name splits isName (valid _ List.mem_cons_self),
      fun loose => absurd loose (by decide)⟩
  | load isLoad opens address closes ih =>
    exact ⟨.load splits isLoad opens closes (ih valid.tail.tail.left).1,
      fun loose => absurd loose (by decide)⟩
  | input isInput => exact ⟨.input splits isInput, fun loose => absurd loose (by decide)⟩
  | inputFrom isInput opens isName closes =>
    exact ⟨.inputFrom splits isInput opens isName closes (valid _ (by simp)),
      fun loose => absurd loose (by decide)⟩
  | group opens inner closes ih =>
    exact ⟨.group splits opens closes (ih valid.tail.left).1,
      fun loose => absurd loose (by decide)⟩

/-- Valid tokens that spell an expression are parsed as it, up to what cannot go on. -/
theorem settles_expression {rest : List Token} (taken : Takes 0 used e calls)
    (valid : AllValid used) (last : used ++ rest <:+ body) (ends : Ends 0 rest) :
    Settles tokens body stop (expression patience) (used ++ rest) (.ok e, rest)
      (calls + above 0 + 1) :=
  (reaches_of_takes splits patient taken valid).1.expression last ends

/-- Valid tokens that spell an expression are parsed as it, with nothing behind it. -/
theorem settles_wholeExpression (taken : Takes 0 used e calls) (valid : AllValid used)
    (last : used <:+ body) :
    Settles tokens body stop (wholeExpression patience) used (.ok e, []) (calls + above 0 + 1) := by
  have whole : used ++ [] <:+ body := by rwa [List.append_nil]
  have read := settles_expression splits patient taken valid whole (.nil 0)
  rw [List.append_nil] at read
  refine read.bind_flat List.nil_suffix ?_
  rw [expectEnd, bind_assoc, splits.run_check_bind (List.nil_suffix)]
  simp only [List.head?_nil, Option.getD_none, splits.ends, decide_true, if_true, pure_bind]
  rfl

/-! ## Statements -/

/-- A target is parsed with or without its `goto`, and then what stands behind it. -/
theorem settles_target {rest : List Token} {after : Nat → Expr → Walk Stmt}
    {outcome : Except Failure Stmt × List Token} {more : Nat} (taken : TargetTakes used e calls)
    (valid : AllValid used) (last : used ++ rest <:+ body) (ends : Ends 0 rest)
    (later : Settles tokens body stop (fun depth => after depth e) rest outcome more) :
    Settles tokens body stop
      (fun depth => do
        let _ ← accept .goto
        let target ← expression patience depth
        after depth target)
      (used ++ rest) outcome (max (calls + above 0 + 1) more) := by
  cases taken with
  | bare target =>
    have read := settles_expression splits patient target valid last ends
    have plain : ((used ++ rest).head?.getD stop).kind ≠ .goto := by
      have started := Parser.head_ne_goto target.derives
      have nonempty := target.derives.tokens_ne_nil
      cases used with
      | nil => contradiction
      | cons token used => exact started token rfl
    refine .step (List.suffix_refl _) (fun _ => splits.run_accept_bind_of_ne last plain _) ?_
    exact read.bind (List.suffix_append used rest) later
  | @goto calls word used e isGoto target =>
    have behind := (List.suffix_cons word (used ++ rest)).trans last
    have read := settles_expression splits patient target valid.tail behind ends
    refine .step (List.suffix_cons word _) (fun _ => splits.run_accept_bind last isGoto _) ?_
    exact read.bind (List.suffix_append used rest) later

/-- Valid tokens that spell a statement are parsed as it, up to what cannot go on its last
expression. -/
theorem settles_statement {rest : List Token} {s : Stmt} (taken : StatementTakes used s calls)
    (valid : AllValid used) (last : used ++ rest <:+ body) (ends : Ends 0 rest) :
    Settles tokens body stop (statement patience) (used ++ rest) (.ok s, rest) calls := by
  have once (calls : Nat) : calls + descent = calls + above 0 + 1 + 1 := rfl
  cases taken with
  | @assign calls target sign used e isName isAssign value =>
    have accepted := (valid target List.mem_cons_self).nameOfText_eq isName
    have behind := (List.suffix_cons target _).trans last
    have read := settles_expression splits patient value valid.tail.tail
      ((List.suffix_cons sign _).trans behind) ends
    obtain ⟨kind, lexeme, location, number⟩ := target
    cases isName
    refine .call rfl (.pass splits last (.expect splits behind isAssign ?_))
    refine read.bind_flat (List.suffix_append used rest) ?_
    simp only [accepted]
    rfl
  | @store m n word opening comma closing first second a v isStore opens address isComma value
      closes =>
    simp only [List.cons_append, List.append_assoc, List.nil_append] at last ⊢
    have endsAddress : Ends 0 (comma :: (second ++ closing :: rest)) :=
      .of_kind 0 _ (by simp [isComma]) (by simp [isComma, TokenKind.binaryOp?])
    have opened := (List.suffix_cons word _).trans last
    have addressed := (List.suffix_cons opening _).trans opened
    have parted := suffix_of_append addressed
    have filled := (List.suffix_cons comma _).trans parted
    have first := settles_expression splits patient address valid.tail.tail.left addressed
      endsAddress
    have second := settles_expression splits patient value valid.tail.tail.right.tail.left filled
      (.of_closing 0 rest closes)
    have counted : max m n + descent = max (m + above 0 + 1) (n + above 0 + 1) + 1 := by
      rw [once]
      omega
    rw [counted]
    obtain ⟨kind, lexeme, location, number⟩ := word
    cases isStore
    refine .call rfl (.pass splits last (.expect splits opened opens ?_))
    refine first.bind (List.suffix_append _ _) (.expect splits parted isComma ?_)
    refine second.bind_flat (List.suffix_append _ _) ?_
    exact splits.run_expect_bind (suffix_of_append filled) closes _ _
  | @goto calls word used e isGoto target =>
    have read := settles_expression splits patient target valid.tail
      ((List.suffix_cons word _).trans last) ends
    obtain ⟨kind, lexeme, location, number⟩ := word
    cases isGoto
    refine .call rfl (.pass splits last ?_)
    exact read.bind_flat (List.suffix_append used rest) rfl
  | @assert calls word used e isAssert condition =>
    have read := settles_expression splits patient condition valid.tail
      ((List.suffix_cons word _).trans last) ends
    obtain ⟨kind, lexeme, location, number⟩ := word
    cases isAssert
    refine .call rfl (.pass splits last ?_)
    exact read.bind_flat (List.suffix_append used rest) rfl
  | @branch k m n ifWord thenWord elseWord used first second c t e isIf condition isThen thenTarget
      isElse elseTarget =>
    simp only [List.cons_append, List.append_assoc] at last ⊢
    have endsCondition : Ends 0 (thenWord :: (first ++ elseWord :: (second ++ rest))) :=
      .of_kind 0 _ (by simp [isThen]) (by simp [isThen, TokenKind.binaryOp?])
    have endsThen : Ends 0 (elseWord :: (second ++ rest)) :=
      .of_kind 0 _ (by simp [isElse]) (by simp [isElse, TokenKind.binaryOp?])
    have begun := (List.suffix_cons ifWord _).trans last
    have judged := suffix_of_append begun
    have chosen := (List.suffix_cons thenWord _).trans judged
    have parted := suffix_of_append chosen
    have refused := (List.suffix_cons elseWord _).trans parted
    have read := settles_expression splits patient condition valid.tail.left begun endsCondition
    have counted : max k (max m n) + descent =
        max (k + above 0 + 1) (max (m + above 0 + 1) (max (n + above 0 + 1) 0)) + 1 := by
      rw [once]
      omega
    rw [counted]
    obtain ⟨kind, lexeme, location, number⟩ := ifWord
    cases isIf
    refine .call rfl (.pass splits last ?_)
    refine read.bind (List.suffix_append _ _) (.expect splits judged isThen ?_)
    refine settles_target splits patient thenTarget valid.tail.right.tail.left chosen endsThen ?_
    refine .expect splits parted isElse ?_
    exact settles_target splits patient elseTarget valid.tail.right.tail.right.tail refused ends
      (.flat rfl)

/-- Valid tokens that spell statements are parsed as them, behind those found so far. -/
theorem settles_statementsOnto {ss : List Stmt} (taken : StatementsTake used ss calls)
    (valid : AllValid used) (last : used <:+ body) {rounds : Nat} (more : used.length < rounds)
    (found : List Stmt) :
    Settles tokens body stop
      (fun depth => statementsOnto (statement patience depth) rounds found) used
      (.ok (found.reverse ++ ss), []) calls := by
  obtain ⟨rounds, rfl⟩ := Nat.exists_eq_add_of_le' (Nat.zero_lt_of_lt more)
  induction taken generalizing rounds found with
  | nil =>
    simp only [statementsOnto, List.append_nil]
    refine .step (List.suffix_refl _) (fun _ => splits.run_check_bind last _ _) ?_
    simp only [List.head?_nil, Option.getD_none, splits.ends, decide_true, if_true]
    exact .flat rfl
  | @cons m n used others s ss first rest ih =>
    have read := settles_statement splits patient first valid.left last
      (.of_statements rest.statements)
    obtain ⟨token, ahead, split⟩ := List.exists_cons_of_ne_nil first.statement.tokens_ne_nil
    have solid := splits.solid token (last.subset (by simp [split]))
    rw [List.length_append, split, List.length_cons] at more
    obtain ⟨less, rfl⟩ := Nat.exists_eq_add_of_le' (show 1 ≤ rounds by omega)
    have later := ih valid.right (suffix_of_append last) (s :: found) less (by omega)
    rw [List.reverse_cons, List.append_assoc, List.singleton_append] at later
    simp only [statementsOnto] at later ⊢
    refine .step (List.suffix_refl _) (fun _ => splits.run_check_bind last _ _) ?_
    simp only [split, List.cons_append, List.head?_cons, Option.getD_some, solid, decide_false,
      Bool.false_eq_true, if_false]
    rw [split, List.cons_append] at read
    exact read.bind (List.suffix_append (token :: ahead) others) later

/-- Valid tokens that spell a program are parsed as it. -/
theorem settles_program {p : Program} (taken : StatementsTake used p.statements calls)
    (valid : AllValid used) (last : used <:+ body) :
    Settles tokens body stop (program patience) used (.ok p, []) (calls + 1) := by
  have more := Nat.lt_of_le_of_lt last.length_le patient
  have read := settles_statementsOnto splits patient taken valid last more []
  rw [List.reverse_nil, List.nil_append] at read
  refine .call rfl ?_
  simp only [program]
  exact read.bind_flat List.nil_suffix rfl

end

/-! ## The parser on tokens -/

/-- A list of tokens without an end token, and one behind it. -/
theorem Splits.of_solid {body : List Token} (solid : ∀ token ∈ body, token.kind ≠ .eof)
    {stop : Token} (ends : stop.kind = .eof) : Splits (body ++ [stop]) body stop :=
  ⟨⟨[], rfl⟩, solid, ends⟩

/-- What a computation gives with enough calls, the parser on tokens gives. -/
theorem Gives.eq_of_settles {α : Type} {ahead rest : List Token} {walk : Nat → Walk α}
    {outcome : Except Failure α × List Token} {a : α} {enough : Nat}
    (gives : Gives tokens body stop walk ahead outcome)
    (settles : Settles tokens body stop walk ahead (.ok a, rest) enough) (last : ahead <:+ body)
    (behind : rest <:+ ahead) : outcome = (.ok a, rest) := by
  obtain ⟨left, least, given⟩ := gives last
  have first := given.answers (max least enough) (Nat.le_max_left _ _)
  have second := settles.answers (max least enough) (Nat.le_max_right _ _)
  rw [first] at second
  obtain ⟨result, place⟩ := Prod.mk.inj second
  obtain ⟨result', middle⟩ := outcome
  have inside := (left.trans last).length_le
  have inside' := (behind.trans last).length_le
  have same : body.length - middle.length = body.length - rest.length :=
    congrArg Cursor.index place
  have equal : middle.length = rest.length := by
    simp only at inside
    omega
  obtain rfl := (List.suffix_of_suffix_length_le left behind equal.le).eq_of_length equal
  cases result' with
  | error failure => cases result
  | ok b => rw [Except.ok.inj result]

end Cursor

namespace Parser

open Cursor

variable {tokens rest : List Token}

/-- The end token of a text is one. -/
theorem ends_text : (TokenStream.endToken {}).kind = .eof :=
  rfl

/-- Valid tokens that spell a statement are parsed as it, up to what cannot go on its last
expression. -/
theorem statement_of_spelled {s : Stmt} (spelled : Statement tokens s) (valid : AllValid tokens)
    (solid : ∀ token ∈ rest, token.kind ≠ .eof) (ends : Ends 0 rest) :
    statement (tokens ++ rest) = (.ok s, rest) := by
  obtain ⟨calls, taken⟩ := spelled.exists_takes
  have splits := Splits.of_solid (List.forall_mem_append.mpr ⟨spelled.kind_ne_eof, solid⟩) ends_text
  have patient := Nat.lt_succ_self (tokens ++ rest).length
  have whole := List.suffix_refl (tokens ++ rest)
  exact (Gives.statement splits patient).eq_of_settles
    (settles_statement splits patient taken valid whole ends) whole (List.suffix_append _ _)

/-- Tokens are parsed as a program exactly if they spell it, and all of them are read. -/
theorem program_eq_ok_iff {p : Program} (valid : AllValid tokens) :
    program tokens = (.ok p, rest) ↔ rest = [] ∧ Spells tokens p := by
  constructor
  · intro parsed
    rw [program] at parsed
    split at parsed
    · next found left read =>
      obtain ⟨rfl, rfl⟩ := pure_eq_ok.mp parsed
      exact statements_sound (Nat.le_refl _) valid read
    · simp at parsed
  · rintro ⟨rfl, spelled⟩
    obtain ⟨calls, taken⟩ := Statements.exists_takes spelled
    have splits := Splits.of_solid (Statements.kind_ne_eof spelled) ends_text
    have patient := Nat.lt_succ_self tokens.length
    have whole := List.suffix_refl tokens
    exact (Gives.program splits patient).eq_of_settles
      (settles_program splits patient taken valid whole) whole List.nil_suffix

/-- Tokens are parsed as a whole expression exactly if they spell it. -/
theorem wholeExpression_eq_ok_iff {e : Expr} (valid : AllValid tokens) :
    wholeExpression tokens = (.ok e, rest) ↔ rest = [] ∧ Derives 0 tokens e := by
  constructor
  · intro parsed
    obtain ⟨found, middle, read, behind⟩ := bind_eq_ok.mp parsed
    obtain ⟨_, last, ended, done⟩ := bind_eq_ok.mp behind
    obtain ⟨used, rfl, spelled⟩ := sound_expression _ _ _ valid read
    obtain ⟨rfl, rfl⟩ := pure_eq_ok.mp done
    cases middle with
    | nil =>
      cases ended
      exact ⟨rfl, by simpa using spelled⟩
    | cons token ahead => simp [expectEnd] at ended
  · rintro ⟨rfl, spelled⟩
    obtain ⟨calls, taken⟩ := spelled.exists_takes
    have splits := Splits.of_solid spelled.kind_ne_eof ends_text
    have patient := Nat.lt_succ_self tokens.length
    have whole := List.suffix_refl tokens
    exact (Gives.wholeExpression splits patient).eq_of_settles
      (settles_wholeExpression splits patient taken valid whole) whole List.nil_suffix

end Parser

end FlatIL
