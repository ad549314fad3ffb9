import FlatIL.Expr
import FlatIL.Model.Ident
import FlatIL.Model.Literal
import FlatIL.Parser.Basic

/-!
# Parsing expressions

Seven levels of binary operators, all grouping to the left, stand above the
unary operators, which stand above literals, names, reads and groups. Nesting is
bounded by the number of tokens, which is what the recursion descends on.
-/

namespace FlatIL.Parser

/-- Parses a literal, a name, a memory or input read, or a group in parentheses;
`nested` parses the expressions inside. -/
def primary (nested : Parser Expr) : Parser Expr := do
  match ← next with
  | none => fail (.unexpected .expression none)
  | some token =>
    match token.kind with
    | .integer => return .lit (← checked "value" (Model.literal token.value))
    | .identifier => return .var (← checked "name" (Model.nameOfText token.lexeme))
    | .load =>
      let _ ← expect .leftParen .loadOpen
      let address ← nested
      let _ ← expect .rightParen .loadClose
      return .load address
    | .getInput =>
      if ← accept .leftParen then
        let source ← expect .identifier .sourceName
        let _ ← expect .rightParen .inputClose
        return .input (← checked "source" (Model.nameOfText source.lexeme))
      else return .input Expr.defaultSource
    | .leftParen =>
      let inner ← nested
      let _ ← expect .rightParen .groupClose
      return inner
    | _ => fail (.unexpected .expression (some token))

/-- Parses any number of unary operators and the operand behind them. -/
def unary (operand : Parser Expr) : Parser Expr
  | [] => operand []
  | token :: rest =>
    match token.kind.unaryOp? with
    | none => operand (token :: rest)
    | some op =>
      match unary operand rest with
      | (.ok inner, rest) => (.ok (.unary op inner), rest)
      | (.error failure, rest) => (.error failure, rest)

/-- The operator of a given strength that a token stands for. -/
def operatorAt (strength : Nat) (token : Token) : Option BinaryOp :=
  token.kind.binaryOp?.filter fun op => op.precedence == strength

/-- Extends `left` by the operators of one strength that follow; the count bounds them. -/
def chainOnto (strength : Nat) (operand : Parser Expr) : Nat → Expr → Parser Expr
  | 0, left, tokens => (.ok left, tokens)
  | _ + 1, left, [] => (.ok left, [])
  | count + 1, left, token :: rest =>
    match operatorAt strength token with
    | none => (.ok left, token :: rest)
    | some op =>
      match operand rest with
      | (.ok right, rest) => chainOnto strength operand count (.binary op left right) rest
      | (.error failure, rest) => (.error failure, rest)

/-- Parses operands joined by at most `bound` operators of one strength, grouping to the left. -/
def chain (bound strength : Nat) (operand : Parser Expr) : Parser Expr :=
  fun tokens =>
    match operand tokens with
    | (.ok left, rest) => chainOnto strength operand bound left rest
    | (.error failure, rest) => (.error failure, rest)

/-- The number of levels of binary operators. -/
def levels : Nat := 7

/-- Parses the tightest `count` levels of binary operators above an operand. -/
def climb (bound : Nat) (operand : Parser Expr) : (count : Nat) → Parser Expr
  | 0 => operand
  | count + 1 => chain bound (levels - count) (climb bound operand count)

/-- Parses an expression that takes at most `size` tokens, a bound on the operators in a
row and on the nesting of parentheses alike. -/
def boundedExpression : (size : Nat) → Parser Expr
  | 0 => primary (fail (.unexpected .expression none))
  | size + 1 => climb size (unary (primary (boundedExpression size))) levels

/-- Parses an expression. -/
def expression : Parser Expr :=
  fun tokens => boundedExpression tokens.length tokens

/-- Fails unless the text ends here; reads nothing. -/
def expectEnd : Parser Unit
  | [] => (.ok (), [])
  | token :: rest => (.error (.unexpected .endOfExpression (some token)), token :: rest)

/-- Parses an expression with nothing behind it. -/
def wholeExpression : Parser Expr := do
  let e ← expression
  expectEnd
  return e

end FlatIL.Parser
