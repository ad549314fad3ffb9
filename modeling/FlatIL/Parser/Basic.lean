import FlatIL.Model.Issue
import FlatIL.Text.Quoted
import FlatIL.Token

/-!
# Parsers over tokens

A parser takes the tokens still to be read and gives a result or a failure, in
both cases with the tokens it has left. A failure does not give back what was
read before it, so reading can go on behind the mistake.
-/

namespace FlatIL

/-- What had to stand at a place. -/
inductive Expectation where
  | statement
  | expression
  /-- Nothing more, after a whole expression. -/
  | endOfExpression
  | assignSign
  | storeOpen
  | storeComma
  | storeClose
  | thenWord
  | elseWord
  | loadOpen
  | loadClose
  | sourceName
  | inputClose
  | groupClose
  deriving DecidableEq, Repr

namespace Expectation

/-- The words for what had to stand at a place. -/
def text : Expectation → String
  | statement => "statement"
  | expression => "expression"
  | endOfExpression => "end of input"
  | assignSign => "':=' after variable name"
  | storeOpen => "'(' after 'store'"
  | storeComma => "',' between store address and value"
  | storeClose => "')' to close 'store'"
  | thenWord => "'then' after if condition"
  | elseWord => "'else' after then target"
  | loadOpen => "'(' after 'load'"
  | loadClose => "')' to close 'load'"
  | sourceName => "input source name"
  | inputClose => "')' to close 'get_input'"
  | groupClose => "')'"

/-- How a token, or the end of the text, is spoken of. -/
def describe : Option Token → String
  | none => "end of input"
  | some token => Text.quoted token.lexeme

/-- The complaint about what stands at a place instead. -/
def complaint (expected : Expectation) (found : Option Token) : String :=
  match expected with
  | endOfExpression => "Unexpected " ++ describe found ++ " after expression"
  | _ => "Expected " ++ expected.text ++ ", found " ++ describe found

end Expectation

/-- Why a parser stopped. -/
inductive Failure where
  /-- Another token had to stand here; nothing found means the end of the text. -/
  | unexpected (expected : Expectation) (found : Option Token)
  /-- A token carries a name or number that no node may have. -/
  | invalid (issue : Model.Issue)
  deriving Repr

/-- A parser: from the tokens ahead to a result or failure and the tokens left. -/
def Parser (α : Type) : Type :=
  List Token → Except Failure α × List Token

namespace Parser

instance : Monad Parser where
  pure a := fun tokens => (.ok a, tokens)
  bind p f := fun tokens =>
    match p tokens with
    | (.ok a, rest) => f a rest
    | (.error failure, rest) => (.error failure, rest)

/-- Fails without reading anything. -/
def fail {α : Type} (failure : Failure) : Parser α :=
  fun tokens => (.error failure, tokens)

/-- Reads a token; at the end of the text there is none to read. -/
def next : Parser (Option Token)
  | [] => (.ok none, [])
  | token :: rest => (.ok (some token), rest)

/-- Reads a token of a kind, if one comes next. -/
def accept (kind : TokenKind) : Parser Bool
  | [] => (.ok false, [])
  | token :: rest => if token.kind = kind then (.ok true, rest) else (.ok false, token :: rest)

/-- Reads a token of a kind, or fails in front of whatever comes next. -/
def expect (kind : TokenKind) (expected : Expectation) : Parser Token
  | [] => (.error (.unexpected expected none), [])
  | token :: rest =>
    if token.kind = kind then (.ok token, rest)
    else (.error (.unexpected expected (some token)), token :: rest)

/-- A checked part of a node, reported under the field it belongs to. -/
def checked {α : Type} (field : String) (part : Except Model.Problem α) : Parser α :=
  match part with
  | .ok a => pure a
  | .error problem => fail (.invalid { problem, path := [.field field] })

end Parser

end FlatIL
