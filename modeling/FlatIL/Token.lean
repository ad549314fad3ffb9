import FlatIL.Json
import FlatIL.Operator

/-!
# Tokens

A token is the smallest piece of source text that means something, together with
the place where it starts.
-/

namespace FlatIL

/-- A place in a text: lines and columns count from one, and columns count code points. -/
structure Location where
  line : Nat := 1
  column : Nat := 1
  deriving DecidableEq, Repr

namespace Location

/-- The place after one more character; only a line feed starts a new line. -/
def next (place : Location) (c : Char) : Location :=
  if c == '\n' then { line := place.line + 1, column := 1 }
  else { place with column := place.column + 1 }

/-- The place after some more characters. -/
def advance (place : Location) (cs : List Char) : Location :=
  cs.foldl next place

end Location

/-- The kinds of tokens. -/
inductive TokenKind where
  | leftParen | rightParen | comma
  | plus | minus | star | slash | percent
  | equal | ampersand | pipe | caret | tilde | bang | less
  | assign | lessEqual | notEqual
  | integer | identifier
  | store | goto | assert | ifWord | thenWord | elseWord | load | getInput
  /-- The end of the text. -/
  | eof
  deriving DecidableEq, Repr

namespace TokenKind

/-- Every kind of token once. -/
def all : List TokenKind :=
  [leftParen, rightParen, comma, plus, minus, star, slash, percent, equal, ampersand, pipe,
    caret, tilde, bang, less, assign, lessEqual, notEqual, integer, identifier, store, goto,
    assert, ifWord, thenWord, elseWord, load, getInput, eof]

/-- The name of a kind of token in listings. -/
def name : TokenKind → String
  | leftParen => "LEFT_PAREN"
  | rightParen => "RIGHT_PAREN"
  | comma => "COMMA"
  | plus => "PLUS"
  | minus => "MINUS"
  | star => "STAR"
  | slash => "SLASH"
  | percent => "PERCENT"
  | equal => "EQUAL"
  | ampersand => "AMPERSAND"
  | pipe => "PIPE"
  | caret => "CARET"
  | tilde => "TILDE"
  | bang => "BANG"
  | less => "LESS"
  | assign => "ASSIGN"
  | lessEqual => "LESS_EQUAL"
  | notEqual => "NOT_EQUAL"
  | integer => "INTEGER"
  | identifier => "IDENTIFIER"
  | store => "STORE"
  | goto => "GOTO"
  | assert => "ASSERT"
  | ifWord => "IF"
  | thenWord => "THEN"
  | elseWord => "ELSE"
  | load => "LOAD"
  | getInput => "GET_INPUT"
  | eof => "EOF"

/-- The kind of token with a given name. -/
def ofName? (text : String) : Option TokenKind :=
  all.find? (·.name = text)

/-- The binary operator that a token stands for between two operands. -/
def binaryOp? : TokenKind → Option BinaryOp
  | plus => some .add
  | minus => some .sub
  | star => some .mul
  | slash => some .div
  | percent => some .mod
  | equal => some .eq
  | notEqual => some .ne
  | less => some .lt
  | lessEqual => some .le
  | ampersand => some .and
  | pipe => some .or
  | caret => some .xor
  | _ => none

/-- The unary operator that a token stands for in front of an operand. -/
def unaryOp? : TokenKind → Option UnaryOp
  | minus => some .neg
  | tilde => some .not
  | bang => some .lnot
  | _ => none

/-- The token that a word of letters, digits and underscores is. -/
def ofWord (word : String) : TokenKind :=
  match word with
  | "store" => store
  | "goto" => goto
  | "assert" => assert
  | "if" => ifWord
  | "then" => thenWord
  | "else" => elseWord
  | "load" => load
  | "get_input" => getInput
  | _ => identifier

/-- The token that a character is when no longer one starts with it. -/
def ofChar? : Char → Option TokenKind
  | '(' => some leftParen
  | ')' => some rightParen
  | ',' => some comma
  | '+' => some plus
  | '-' => some minus
  | '*' => some star
  | '/' => some slash
  | '%' => some percent
  | '=' => some equal
  | '&' => some ampersand
  | '|' => some pipe
  | '^' => some caret
  | '~' => some tilde
  | '!' => some bang
  | '<' => some less
  | _ => none

end TokenKind

/-- A token: its kind, its text, where it starts, and the number it denotes if any. -/
structure Token where
  kind : TokenKind
  lexeme : String
  location : Location := {}
  value : Json := .null
  deriving Repr

/-- The tokens of a text and the place where the text ends. -/
structure TokenStream where
  body : List Token
  stop : Location
  deriving Repr

namespace TokenStream

/-- The token that stands for the end of a text. -/
def endToken (stop : Location) : Token :=
  { kind := .eof, lexeme := "", location := stop }

/-- The tokens with the end of the text as the last one. -/
def toList (stream : TokenStream) : List Token :=
  stream.body ++ [endToken stream.stop]

/-- The stream a list of tokens gives. The list must close with an end token, and
nothing after its first end token is ever looked at. -/
def ofList? (tokens : List Token) : Option TokenStream :=
  match tokens.getLast? with
  | some last =>
    if last.kind = .eof then
      let body := tokens.takeWhile (·.kind ≠ .eof)
      let stop := (tokens.dropWhile (·.kind ≠ .eof)).head?.getD last
      some { body, stop := stop.location }
    else none
  | none => none

/-- The refusal of a list of tokens that does not close with an end token. -/
def noEndMessage : String :=
  "Token list must end with an EOF token"

end TokenStream

end FlatIL
