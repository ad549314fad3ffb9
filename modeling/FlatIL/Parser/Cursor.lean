import FlatIL.Source

/-!
# The parser with a cursor

The parser that reads source texts keeps an index into a list of tokens, and its
rules call one another. Only so many of these calls may be under way at a time: one
more stops the parser where it stands. Looking at a token and moving the cursor are
not counted, since they call no rule and are done at once. The rows of operators and
of statements are read in rounds, which need no further calls. An index may turn out
to be outside of the list, and rounds may turn out not to end; that neither happens
is for a proof.
-/

namespace FlatIL

/-- Where a parser stands in a list, and the indices where it stood before, the last one first. -/
structure Cursor where
  index : Nat := 0
  earlier : List Nat := []
  deriving DecidableEq, Repr

namespace Cursor

/-- The cursor one token further. -/
def next (cursor : Cursor) : Cursor :=
  { index := cursor.index + 1, earlier := cursor.index :: cursor.earlier }

/-- What can stop the parser. -/
inductive Mishap where
  /-- The tokens are refused. -/
  | refused (error : ParseError)
  /-- There is no token at the index. -/
  | outside (index : Nat)
  /-- More calls would be under way than may be. -/
  | tooDeep
  /-- There are more rounds than were looked ahead. -/
  | unending
  deriving Repr

/-- The text of what stopped the parser. -/
def Mishap.message : Mishap → String
  | refused error => error.message
  | outside _ => "list index out of range"
  | tooDeep => "maximum recursion depth exceeded"
  | unending => "no end in sight"

/-- A computation that looks into a list of tokens and moves a cursor, which stays where it is when
the computation is stopped. -/
abbrev Walk := ExceptT Mishap (StateT Cursor (ReaderT (Array Token) Id))

/-- Carries out a computation over some tokens from a cursor on. -/
def Walk.run {α : Type} (walk : Walk α) (tokens : List Token) (cursor : Cursor) :
    Except Mishap α × Cursor :=
  ((ExceptT.run walk).run cursor).run tokens.toArray

/-! ## Tokens -/

/-- The token at the cursor. -/
def peek : Walk Token :=
  ExceptT.mk fun cursor tokens =>
    match tokens[cursor.index]? with
    | some token => (.ok token, cursor)
    | none => (.error (.outside cursor.index), cursor)

/-- Moves the cursor on. -/
def move : Walk Unit :=
  ExceptT.mk fun cursor _ => (.ok (), cursor.next)

/-- The token at the cursor, which is moved behind it unless it is an end token. -/
def advance : Walk Token := do
  let token ← peek
  if token.kind ≠ .eof then move
  return token

/-- Whether the token at the cursor is of a kind. -/
def check (kind : TokenKind) : Walk Bool :=
  return (← peek).kind = kind

/-- Moves behind a token of a kind, if one is at the cursor. -/
def accept (kind : TokenKind) : Walk Bool := do
  if ← check kind then
    let _ ← advance
    return true
  else return false

/-- Refuses a token. -/
def refuse {α : Type} (expected : Expectation) (token : Token) : Walk α :=
  throw (.refused (.unexpected expected (if token.kind = .eof then none else some token)
    token.location))

/-- Moves behind a token of a kind, or refuses what is at the cursor instead. -/
def expect (kind : TokenKind) (expected : Expectation) : Walk Token := do
  if ← check kind then advance
  else refuse expected (← peek)

/-- A checked part of a node. -/
def checked {α : Type} (field : String) : Except Model.Problem α → Walk α
  | .ok a => pure a
  | .error problem => throw (.refused (.invalid { problem, path := [.field field] }))

/-! ## Expressions -/

/-- Extends `left` by the operators of a level that follow, in no more than `patience` rounds;
`operand` reads what stands behind each. -/
def row (operand : Walk Expr) (level : Nat) : (patience : Nat) → (left : Expr) → Walk Expr
  | 0, _ => throw .unending
  | patience + 1, left => do
    let token ← peek
    match Parser.operatorAt (level + 1) token with
    | none => return left
    | some op =>
      let _ ← advance
      let right ← operand
      row operand level patience (.binary op left right)

mutual

/-- Parses an expression; as many calls as `depth` may be under way at a time. -/
def expression (patience : Nat) : (depth : Nat) → Walk Expr
  | 0 => throw .tooDeep
  | depth + 1 => binary patience depth 0

/-- Parses a level of binary operators, from the loosest one at `0` on. -/
def binary (patience : Nat) : (depth level : Nat) → Walk Expr
  | 0, _ => throw .tooDeep
  | depth + 1, level =>
    if level = Parser.levels then unary patience depth
    else do
      let left ← binary patience depth (level + 1)
      row (binary patience depth (level + 1)) level patience left

/-- Parses any number of unary operators and the operand behind them. -/
def unary (patience : Nat) : (depth : Nat) → Walk Expr
  | 0 => throw .tooDeep
  | depth + 1 => do
    let token ← peek
    match token.kind.unaryOp? with
    | none => primary patience depth
    | some op =>
      let _ ← advance
      let operand ← unary patience depth
      return .unary op operand

/-- Parses a literal, a name, a memory or input read, or a group in parentheses. -/
def primary (patience : Nat) : (depth : Nat) → Walk Expr
  | 0 => throw .tooDeep
  | depth + 1 => do
    let token ← advance
    match token.kind with
    | .integer => return .lit (← checked "value" (Model.literal token.value))
    | .identifier => return .var (← checked "name" (Model.nameOfText token.lexeme))
    | .load =>
      let _ ← expect .leftParen .loadOpen
      let address ← expression patience depth
      let _ ← expect .rightParen .loadClose
      return .load address
    | .getInput =>
      if ← accept .leftParen then
        let source ← expect .identifier .sourceName
        let _ ← expect .rightParen .inputClose
        return .input (← checked "source" (Model.nameOfText source.lexeme))
      else return .input Expr.defaultSource
    | .leftParen =>
      let inner ← expression patience depth
      let _ ← expect .rightParen .groupClose
      return inner
    | _ => refuse .expression token

end

/-- Refuses what is at the cursor unless it is an end token. -/
def expectEnd : Walk Unit := do
  if ← check .eof then return ()
  else refuse .endOfExpression (← peek)

/-- Parses an expression with nothing behind it. -/
def wholeExpression (patience depth : Nat) : Walk Expr := do
  let e ← expression patience depth
  expectEnd
  return e

/-! ## Statements -/

/-- Parses a statement. -/
def statement (patience : Nat) : (depth : Nat) → Walk Stmt
  | 0 => throw .tooDeep
  | depth + 1 => do
    let token ← advance
    match token.kind with
    | .identifier =>
      let _ ← expect .assign .assignSign
      let value ← expression patience depth
      return .assign (← checked "target" (Model.nameOfText token.lexeme)) value
    | .store =>
      let _ ← expect .leftParen .storeOpen
      let address ← expression patience depth
      let _ ← expect .comma .storeComma
      let value ← expression patience depth
      let _ ← expect .rightParen .storeClose
      return .store address value
    | .goto => return .goto (← expression patience depth)
    | .assert => return .assert (← expression patience depth)
    | .ifWord =>
      let condition ← expression patience depth
      let _ ← expect .thenWord .thenWord
      let _ ← accept .goto
      let thenTarget ← expression patience depth
      let _ ← expect .elseWord .elseWord
      let _ ← accept .goto
      let elseTarget ← expression patience depth
      return .branch condition thenTarget elseTarget
    | _ => refuse .statement token

/-- Parses statements up to an end token in no more than `patience` rounds, behind those found so
far, the last one first. -/
def statementsOnto (one : Walk Stmt) : (patience : Nat) → (found : List Stmt) → Walk (List Stmt)
  | 0, _ => throw .unending
  | patience + 1, found => do
    if ← check .eof then return found.reverse
    else
      let next ← one
      statementsOnto one patience (next :: found)

/-- Parses a program. -/
def program (patience : Nat) : (depth : Nat) → Walk Program
  | 0 => throw .tooDeep
  | depth + 1 => return { statements := ← statementsOnto (statement patience depth) patience [] }

/-! ## Lists and texts -/

/-- Parses a list of tokens from its start on, with as many rounds in a row as there are tokens. -/
def ofTokens {α : Type} (walk : (patience : Nat) → Walk α) (tokens : List Token) :
    Except Mishap α :=
  ((walk tokens.length).run tokens {}).1

/-- Scans a text and parses its tokens. -/
def ofText {α : Type} (walk : (patience : Nat) → Walk α) (text : String) : Except Mishap α :=
  match TokenStream.scan text with
  | .error error => .error (.refused (.lexical error))
  | .ok stream => ofTokens walk stream.toList

end Cursor

/-- The program a text spells, if the calls that may be under way are enough. -/
def Program.parseWithin (depth : Nat) (text : String) : Except Cursor.Mishap Program :=
  Cursor.ofText (Cursor.program · depth) text

/-- The expression a text spells, with nothing behind it, if the calls that may be under way are
enough. -/
def Expr.parseWithin (depth : Nat) (text : String) : Except Cursor.Mishap Expr :=
  Cursor.ofText (Cursor.wholeExpression · depth) text

end FlatIL
