import FlatIL.Parser.Expr
import FlatIL.Program

/-!
# Parsing statements and programs

Statements follow each other without separators: a statement ends where its last
expression cannot go on.
-/

namespace FlatIL.Parser

/-- Parses a statement. -/
def statement : Parser Stmt := do
  match ← next with
  | none => fail (.unexpected .statement none)
  | some token =>
    match token.kind with
    | .identifier =>
      let _ ← expect .assign .assignSign
      let value ← expression
      return .assign (← checked "target" (Model.nameOfText token.lexeme)) value
    | .store =>
      let _ ← expect .leftParen .storeOpen
      let address ← expression
      let _ ← expect .comma .storeComma
      let value ← expression
      let _ ← expect .rightParen .storeClose
      return .store address value
    | .goto => return .goto (← expression)
    | .assert => return .assert (← expression)
    | .ifWord =>
      let condition ← expression
      let _ ← expect .thenWord .thenWord
      let _ ← accept .goto
      let thenTarget ← expression
      let _ ← expect .elseWord .elseWord
      let _ ← accept .goto
      let elseTarget ← expression
      return .branch condition thenTarget elseTarget
    | _ => fail (.unexpected .statement (some token))

/-- Parses statements up to the end of the text; the count bounds them. -/
def statements : Nat → Parser (List Stmt)
  | 0, tokens => (.ok [], tokens)
  | _ + 1, [] => (.ok [], [])
  | count + 1, tokens =>
    match statement tokens with
    | (.error failure, rest) => (.error failure, rest)
    | (.ok first, rest) =>
      match statements count rest with
      | (.ok others, rest) => (.ok (first :: others), rest)
      | (.error failure, rest) => (.error failure, rest)

/-- Parses a program, which takes all tokens. -/
def program : Parser Program :=
  fun tokens =>
    match statements tokens.length tokens with
    | (.ok found, rest) => (.ok { statements := found }, rest)
    | (.error failure, rest) => (.error failure, rest)

end FlatIL.Parser
