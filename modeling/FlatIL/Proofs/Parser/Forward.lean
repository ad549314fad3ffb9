import FlatIL.Source

/-!
# Parsers only move forward

Whether it succeeds or fails, a parser leaves the last ones of the tokens that it was given. This
holds of any tokens, valid or not, since putting parsers in order keeps it. A parser of expressions
or statements that succeeds has also read a token.
-/

namespace FlatIL

namespace Parser

variable {α β : Type}

/-- The tokens that a parser leaves are the last ones of those it was given. -/
def Forward (parser : Parser α) : Prop :=
  ∀ tokens, (parser tokens).2 <:+ tokens

/-- A parser reads a token if there is one, also if it fails. -/
def Eager (parser : Parser α) : Prop :=
  ∀ token ahead, (parser (token :: ahead)).2 <:+ ahead

/-- A parser that succeeds leaves fewer tokens than it was given. -/
def Consumes (parser : Parser α) : Prop :=
  ∀ tokens a rest, parser tokens = (.ok a, rest) → rest.length < tokens.length

namespace Eager

/-- What starts with reading a token reads it. -/
theorem next {f : Option Token → Parser α} (behind : ∀ token, Forward (f (some token))) :
    Eager (next >>= f) :=
  fun token ahead => behind token ahead

variable {parser : Parser α} (eager : Eager parser)

include eager

/-- A parser that reads a token moves forward. -/
theorem forward (atEnd : (parser []).2 = []) : Forward parser := by
  intro tokens
  cases tokens with
  | nil => simp [atEnd]
  | cons token ahead => exact (eager token ahead).trans (List.suffix_cons token ahead)

/-- A parser that reads a token, and fails where there is none, does not succeed without. -/
theorem consumes {failure : Failure} (atEnd : (parser []).1 = .error failure) :
    Consumes parser := by
  intro tokens a rest read
  cases tokens with
  | nil =>
    rw [read] at atEnd
    cases atEnd
  | cons token ahead =>
    have behind := eager token ahead
    rw [read] at behind
    exact Nat.lt_succ_of_le behind.length_le

end Eager

namespace Forward

/-- A result without reading moves nowhere. -/
theorem pure (a : α) : Forward (Pure.pure a : Parser α) :=
  fun tokens => List.suffix_refl tokens

/-- A failure without reading moves nowhere. -/
theorem fail (failure : Failure) : Forward (Parser.fail failure : Parser α) :=
  fun tokens => List.suffix_refl tokens

/-- Two parsers in order move forward if both do. -/
theorem bind {p : Parser α} {f : α → Parser β} (first : Forward p)
    (second : ∀ a, Forward (f a)) : Forward (p >>= f) := by
  intro tokens
  have before := first tokens
  simp only [Bind.bind]
  rcases outcome : p tokens with ⟨failure | a, rest⟩ <;> rw [outcome] at before
  · exact before
  · exact (second a rest).trans before

/-- Reading an optional token moves behind it or nowhere. -/
theorem accept (kind : TokenKind) : Forward (accept kind) := by
  intro tokens
  cases tokens with
  | nil => exact List.suffix_refl []
  | cons token rest =>
    rw [Parser.accept]
    split
    · exact List.suffix_cons token rest
    · exact List.suffix_refl _

/-- Reading a token that must stand there moves behind it or nowhere. -/
theorem expect (kind : TokenKind) (expected : Expectation) : Forward (expect kind expected) := by
  intro tokens
  cases tokens with
  | nil => exact List.suffix_refl []
  | cons token rest =>
    rw [Parser.expect]
    split
    · exact List.suffix_cons token rest
    · exact List.suffix_refl _

/-- Checking a part of a node moves nowhere. -/
theorem checked (field : String) (part : Except Model.Problem α) :
    Forward (checked field part) := by
  cases part with
  | ok a => exact .pure a
  | error problem => exact .fail _

end Forward

/-- Primaries read a token and then move forward if the expressions inside them do. -/
theorem Eager.primary {nested : Parser Expr} (inner : Forward nested) : Eager (primary nested) := by
  refine .next fun token => ?_
  obtain ⟨kind, lexeme, location, value⟩ := token
  cases kind with
  | integer => exact .bind (.checked _ _) fun _ => .pure _
  | identifier => exact .bind (.checked _ _) fun _ => .pure _
  | load =>
    exact .bind (.expect _ _) fun _ => .bind inner fun _ => .bind (.expect _ _) fun _ => .pure _
  | getInput =>
    refine .bind (.accept _) fun found => ?_
    cases found with
    | false => exact .pure _
    | true =>
      exact .bind (.expect _ _) fun _ => .bind (.expect _ _) fun _ =>
        .bind (.checked _ _) fun _ => .pure _
  | leftParen => exact .bind inner fun _ => .bind (.expect _ _) fun _ => .pure _
  | _ => exact .fail _

namespace Forward

/-- Primaries move forward if the expressions inside them do. -/
theorem primary {nested : Parser Expr} (inner : Forward nested) : Forward (primary nested) :=
  (Eager.primary inner).forward rfl

/-- Unary operators in front of operands that move forward do so as well. -/
theorem unary {operand : Parser Expr} (inner : Forward operand) : Forward (unary operand) := by
  intro tokens
  induction tokens with
  | nil => exact inner []
  | cons token rest ih =>
    rw [Parser.unary]
    split
    · exact inner (token :: rest)
    · have behind := ih.trans (List.suffix_cons token rest)
      rcases outcome : Parser.unary operand rest with ⟨failure | e, left⟩ <;>
        rw [outcome] at behind <;> exact behind

/-- Going on with the operators of one strength moves forward if the operands do. -/
theorem chainOnto (strength : Nat) {operand : Parser Expr} (inner : Forward operand) (count : Nat)
    (left : Expr) : Forward (chainOnto strength operand count left) := by
  induction count generalizing left with
  | zero => exact .pure left
  | succ count ih =>
    intro tokens
    cases tokens with
    | nil => exact List.suffix_refl []
    | cons token rest =>
      rw [Parser.chainOnto]
      split
      · exact List.suffix_refl _
      · have behind := (inner rest).trans (List.suffix_cons token rest)
        rcases outcome : operand rest with ⟨failure | right, middle⟩ <;> rw [outcome] at behind
        · exact behind
        · exact (ih _ middle).trans behind

/-- A level of operators moves forward if the operands do. -/
theorem chain (bound strength : Nat) {operand : Parser Expr} (inner : Forward operand) :
    Forward (chain bound strength operand) := by
  intro tokens
  have before := inner tokens
  rw [Parser.chain]
  rcases outcome : operand tokens with ⟨failure | left, rest⟩ <;> rw [outcome] at before
  · exact before
  · exact (Forward.chainOnto strength inner bound left rest).trans before

/-- All levels of operators move forward if the operands do. -/
theorem climb (bound : Nat) {operand : Parser Expr} (inner : Forward operand) (count : Nat) :
    Forward (climb bound operand count) := by
  induction count with
  | zero => exact inner
  | succ count ih => exact .chain bound _ ih

/-- Expressions within a bound move forward. -/
theorem boundedExpression (size : Nat) : Forward (boundedExpression size) := by
  induction size with
  | zero => exact .primary (.fail _)
  | succ size ih => exact .climb size (.unary (.primary ih)) levels

/-- Expressions move forward. -/
theorem expression : Forward expression :=
  fun tokens => Forward.boundedExpression tokens.length tokens

end Forward

/-- Statements read a token and then move forward. -/
theorem Eager.statement : Eager statement := by
  refine .next fun token => ?_
  obtain ⟨kind, lexeme, location, value⟩ := token
  cases kind with
  | identifier =>
    exact .bind (.expect _ _) fun _ => .bind .expression fun _ => .bind (.checked _ _) fun _ =>
      .pure _
  | store =>
    exact .bind (.expect _ _) fun _ => .bind .expression fun _ => .bind (.expect _ _) fun _ =>
      .bind .expression fun _ => .bind (.expect _ _) fun _ => .pure _
  | goto => exact .bind .expression fun _ => .pure _
  | assert => exact .bind .expression fun _ => .pure _
  | ifWord =>
    exact .bind .expression fun _ => .bind (.expect _ _) fun _ => .bind (.accept _) fun _ =>
      .bind .expression fun _ => .bind (.expect _ _) fun _ => .bind (.accept _) fun _ =>
        .bind .expression fun _ => .pure _
  | _ => exact .fail _

namespace Forward

end Forward

namespace Consumes

/-- What starts with a parser that reads a token reads one. -/
theorem bind {p : Parser α} {f : α → Parser β} (first : Consumes p)
    (second : ∀ a, Forward (f a)) : Consumes (p >>= f) := by
  intro tokens b rest read
  simp only [Bind.bind] at read
  rcases outcome : p tokens with ⟨failure | a, middle⟩ <;> rw [outcome] at read
  · cases read
  · have others := second a middle
    simp only [read] at others
    exact Nat.lt_of_le_of_lt others.length_le (first tokens a middle outcome)

/-- Unary operators in front of operands that read a token do so as well. -/
theorem unary {operand : Parser Expr} (inner : Consumes operand) : Consumes (unary operand) := by
  intro tokens e rest read
  induction tokens generalizing e with
  | nil => exact inner [] e rest read
  | cons token ahead ih =>
    rw [Parser.unary] at read
    split at read
    · exact inner (token :: ahead) e rest read
    · rcases outcome : Parser.unary operand ahead with ⟨failure | operand, left⟩ <;>
        rw [outcome] at read <;> cases read
      exact Nat.lt_succ_of_lt (ih operand outcome)

/-- A level of operators reads a token if the operands do. -/
theorem chain (bound strength : Nat) {operand : Parser Expr} (inner : Consumes operand)
    (forward : Forward operand) : Consumes (chain bound strength operand) := by
  intro tokens e rest read
  rw [Parser.chain] at read
  rcases outcome : operand tokens with ⟨failure | left, middle⟩ <;> rw [outcome] at read
  · cases read
  · have others := Forward.chainOnto strength forward bound left middle
    simp only [read] at others
    exact Nat.lt_of_le_of_lt others.length_le (inner tokens left middle outcome)

/-- All levels of operators read a token if the operands do. -/
theorem climb (bound : Nat) {operand : Parser Expr} (inner : Consumes operand)
    (forward : Forward operand) (count : Nat) : Consumes (climb bound operand count) := by
  induction count with
  | zero => exact inner
  | succ count ih => exact .chain bound _ ih (.climb bound forward count)

/-- Primaries read a token. -/
theorem primary {nested : Parser Expr} (inner : Forward nested) : Consumes (primary nested) :=
  (Eager.primary inner).consumes rfl

/-- Expressions within a bound read a token. -/
theorem boundedExpression (size : Nat) : Consumes (boundedExpression size) := by
  cases size with
  | zero => exact .primary (.fail _)
  | succ size =>
    have nested := Forward.boundedExpression size
    exact .climb size (.unary (.primary nested)) (.unary (.primary nested)) levels

/-- Expressions read a token. -/
theorem expression : Consumes expression :=
  fun tokens e rest read => Consumes.boundedExpression tokens.length tokens e rest read

/-- Statements read a token. -/
theorem statement : Consumes statement :=
  Eager.statement.consumes rfl

end Consumes

end Parser

end FlatIL
