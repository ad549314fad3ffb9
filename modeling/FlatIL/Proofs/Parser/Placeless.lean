import FlatIL.Proofs.Parser.Recursion
import FlatIL.Proofs.Relocation

/-!
# Parsers do not look at places

On tokens that differ in their places only, a parser comes to the same: the same result, or the same
complaint about the token of the same number, with as many tokens left. It is enough to see this of
the parsers that read one token, since putting parsers in order keeps it.
-/

namespace FlatIL

/-- Tokens that are the same but for their places. -/
def SameTokens (tokens others : List Token) : Prop :=
  others.map Token.unplaced = tokens.map Token.unplaced

namespace SameTokens

variable {tokens others : List Token}

/-- Tokens that are the same are as many. -/
theorem length_eq (same : SameTokens tokens others) : others.length = tokens.length := by
  have lengths := congrArg List.length same
  simpa only [List.length_map] using lengths

/-- Tokens that are the same stay so when equally many of them are left out. -/
theorem drop (same : SameTokens tokens others) (used : Nat) :
    SameTokens (tokens.drop used) (others.drop used) := by
  rw [SameTokens, List.map_drop, List.map_drop, same]

/-- Tokens with the same number are the same. -/
theorem getElem? (same : SameTokens tokens others) (index : Nat) :
    others[index]?.map Token.unplaced = tokens[index]?.map Token.unplaced := by
  rw [← List.getElem?_map, same, List.getElem?_map]

/-- What is the same as no token is none. -/
theorem eq_nil (same : SameTokens [] others) : others = [] :=
  List.map_eq_nil_iff.mp same

/-- What is the same as a token and others behind it starts with that token in some place. -/
theorem exists_cons {kind : TokenKind} {lexeme : String} {place : Location} {value : Json}
    (same : SameTokens (⟨kind, lexeme, place, value⟩ :: tokens) others) :
    ∃ place' rest, others = ⟨kind, lexeme, place', value⟩ :: rest ∧ SameTokens tokens rest := by
  obtain ⟨⟨kind', lexeme', place', value'⟩, rest, rfl, here, behind⟩ := List.map_eq_cons_iff.mp same
  obtain ⟨rfl, rfl, -, rfl⟩ := Token.mk.inj here
  exact ⟨place', rest, rfl, behind⟩

end SameTokens

namespace Parser

variable {α β : Type}

/-- `Alike tokens others outcome outcome'`: what comes of the tokens and what comes of the others is
the same result, or a failure for the same reason at the token of the same number, and equally many
tokens are left. -/
inductive Alike (tokens others : List Token) :
    Except Failure α × List Token → Except Failure α × List Token → Prop where
  | ok (a : α) (used : Nat) :
      Alike tokens others (.ok a, tokens.drop used) (.ok a, others.drop used)
  | unexpected (expected : Expectation) (index used : Nat) :
      Alike tokens others (.error (.unexpected expected tokens[index]?), tokens.drop used)
        (.error (.unexpected expected others[index]?), others.drop used)
  | invalid (issue : Model.Issue) (used : Nat) :
      Alike tokens others (.error (.invalid issue), tokens.drop used)
        (.error (.invalid issue), others.drop used)

/-- What comes of tokens behind others that are read first comes of them all. -/
theorem Alike.behind {tokens others : List Token} {outcome outcome' : Except Failure α × List Token}
    (read : Nat) (alike : Alike (tokens.drop read) (others.drop read) outcome outcome') :
    Alike tokens others outcome outcome' := by
  cases alike with
  | ok a used =>
    rw [List.drop_drop, List.drop_drop]
    exact .ok a (read + used)
  | unexpected expected index used =>
    rw [List.drop_drop, List.drop_drop, List.getElem?_drop, List.getElem?_drop]
    exact .unexpected expected (read + index) (read + used)
  | invalid issue used =>
    rw [List.drop_drop, List.drop_drop]
    exact .invalid issue (read + used)

/-- The parser comes to the same on tokens that differ in their places only. -/
def Placeless (parser : Parser α) : Prop :=
  ∀ tokens others, SameTokens tokens others → Alike tokens others (parser tokens) (parser others)

/-- What comes of tokens is gone on from in the same way by parsers that look at no place. -/
theorem Alike.bind {tokens others : List Token} {p : Parser α} {f : α → Parser β}
    (here : Alike tokens others (p tokens) (p others)) (same : SameTokens tokens others)
    (after : ∀ a, Placeless (f a)) :
    Alike tokens others ((p >>= f) tokens) ((p >>= f) others) := by
  simp only [Bind.bind]
  generalize p tokens = outcome at here ⊢
  generalize p others = outcome' at here ⊢
  cases here with
  | ok a used => exact .behind used (after a _ _ (same.drop used))
  | unexpected expected index used => exact .unexpected expected index used
  | invalid issue used => exact .invalid issue used

namespace Placeless

/-- A result without reading is the same. -/
theorem pure (a : α) : Placeless (Pure.pure a : Parser α) :=
  fun _ _ _ => .ok a 0

/-- A part of a node is checked in the same way. -/
theorem checked (field : String) (part : Except Model.Problem α) :
    Placeless (checked field part) := by
  cases part with
  | ok a => exact .pure a
  | error problem => exact fun _ _ _ => .invalid _ 0

/-- To miss something at the end of the text is the same. -/
theorem missing (expected : Expectation) :
    Placeless (fail (.unexpected expected none) : Parser α) := by
  intro tokens others same
  have atEnd : tokens[tokens.length]? = none := List.getElem?_eq_none (Nat.le_refl _)
  have atEnd' : others[tokens.length]? = none := by
    rw [← same.length_eq]
    exact List.getElem?_eq_none (Nat.le_refl _)
  have alike : Alike (α := α) tokens others _ _ := .unexpected expected tokens.length 0
  rw [atEnd, atEnd'] at alike
  exact alike

/-- Two parsers in order look at no place if neither does. -/
theorem bind {p : Parser α} {f : α → Parser β} (first : Placeless p)
    (second : ∀ a, Placeless (f a)) : Placeless (p >>= f) :=
  fun tokens others same => (first tokens others same).bind same second

/-- Reading an optional token is the same. -/
theorem accept (kind : TokenKind) : Placeless (accept kind) := by
  intro tokens others same
  cases tokens with
  | nil =>
    obtain rfl := same.eq_nil
    exact .ok false 0
  | cons token rest =>
    obtain ⟨place', rest', rfl, -⟩ := same.exists_cons
    rw [Parser.accept, Parser.accept]
    by_cases found : token.kind = kind
    · rw [if_pos found, if_pos found]
      exact .ok true 1
    · rw [if_neg found, if_neg found]
      exact .ok false 0

/-- Reading a token that must stand there is the same, if what follows does not look at its
place. -/
theorem expect (kind : TokenKind) (expected : Expectation) {f : Token → Parser β}
    (blind : ∀ token token', token'.unplaced = token.unplaced → f token' = f token)
    (behind : ∀ token, Placeless (f token)) : Placeless (Parser.expect kind expected >>= f) := by
  intro tokens others same
  cases tokens with
  | nil =>
    obtain rfl := same.eq_nil
    exact .unexpected expected 0 0
  | cons token rest =>
    obtain ⟨place', rest', rfl, sameRest⟩ := same.exists_cons
    simp only [Bind.bind, Parser.expect]
    by_cases found : token.kind = kind
    · rw [if_pos found, if_pos found]
      dsimp only
      rw [blind token { token with location := place' } rfl]
      exact .behind 1 (behind token rest rest' sameRest)
    · rw [if_neg found, if_neg found]
      exact .unexpected expected 0 0

/-- Reading a token, if there is one, is the same if what comes of it does not depend on where it
stands. -/
theorem next {f : Option Token → Parser β} (atEnd : Alike [] [] (f none []) (f none []))
    (reads : ∀ kind lexeme value place place' rest rest', SameTokens rest rest' →
      Alike (⟨kind, lexeme, place, value⟩ :: rest) (⟨kind, lexeme, place', value⟩ :: rest')
        (f (some ⟨kind, lexeme, place, value⟩) rest)
        (f (some ⟨kind, lexeme, place', value⟩) rest')) :
    Placeless (Parser.next >>= f) := by
  intro tokens others same
  cases tokens with
  | nil =>
    obtain rfl := same.eq_nil
    exact atEnd
  | cons token rest =>
    obtain ⟨place', rest', rfl, sameRest⟩ := same.exists_cons
    exact reads _ _ _ _ _ rest rest' sameRest

/-- Primaries look at no place if the expressions inside them do not. -/
theorem primary {nested : Parser Expr} (inner : Placeless nested) :
    Placeless (primary nested) := by
  refine .next (.unexpected .expression 0 0) ?_
  intro kind lexeme value place place' rest rest' same
  have behind {body : Parser Expr} (placeless : Placeless body) :
      Alike (⟨kind, lexeme, place, value⟩ :: rest) (⟨kind, lexeme, place', value⟩ :: rest')
        (body rest) (body rest') :=
    .behind 1 (placeless rest rest' same)
  cases kind with
  | integer => exact behind (.bind (.checked _ _) fun _ => .pure _)
  | identifier => exact behind (.bind (.checked _ _) fun _ => .pure _)
  | load =>
    exact behind (.expect _ _ (fun _ _ _ => rfl) fun _ => .bind inner fun _ =>
      .expect _ _ (fun _ _ _ => rfl) fun _ => .pure _)
  | getInput =>
    refine behind (.bind (.accept _) fun found => ?_)
    cases found with
    | false => exact .pure _
    | true =>
      refine .expect _ _ ?_ fun _ => .expect _ _ (fun _ _ _ => rfl) fun _ =>
        .bind (.checked _ _) fun _ => .pure _
      intro token token' same
      rw [Token.lexeme_of_unplaced same]
  | leftParen =>
    exact behind (.bind inner fun _ => .expect _ _ (fun _ _ _ => rfl) fun _ => .pure _)
  | _ => exact .unexpected .expression 0 1

/-- Unary operators in front of operands look at no place if the operands do not. -/
theorem unary {operand : Parser Expr} (inner : Placeless operand) : Placeless (unary operand) := by
  intro tokens others same
  induction tokens generalizing others with
  | nil =>
    obtain rfl := same.eq_nil
    exact inner [] [] rfl
  | cons token rest ih =>
    have whole := inner _ _ same
    obtain ⟨place', rest', rfl, sameRest⟩ := same.exists_cons
    cases sign : token.kind.unaryOp? with
    | none =>
      rw [Parser.unary, Parser.unary, sign]
      exact whole
    | some op =>
      have sign' : { token with location := place' }.kind.unaryOp? = some op := sign
      rw [unary_cons sign, unary_cons sign']
      exact .behind 1 ((ih rest' sameRest).bind sameRest fun e => .pure (Expr.unary op e))

/-- Going on with the operators of one strength looks at no place if the operands do not. -/
theorem chainOnto (strength : Nat) {operand : Parser Expr} (inner : Placeless operand) (count : Nat)
    (left : Expr) : Placeless (chainOnto strength operand count left) := by
  induction count generalizing left with
  | zero => exact .pure left
  | succ count ih =>
    intro tokens others same
    cases tokens with
    | nil =>
      obtain rfl := same.eq_nil
      exact .ok left 0
    | cons token rest =>
      obtain ⟨place', rest', rfl, sameRest⟩ := same.exists_cons
      have sameSign : operatorAt strength { token with location := place' } =
          operatorAt strength token := rfl
      cases sign : operatorAt strength token with
      | none =>
        rw [Parser.chainOnto, Parser.chainOnto, sameSign, sign]
        exact .ok left 0
      | some op =>
        rw [chainOnto_cons sign, chainOnto_cons (sameSign.trans sign)]
        exact .behind 1 ((inner rest rest' sameRest).bind sameRest fun right =>
          ih (.binary op left right))

/-- A level of operators looks at no place if the operands do not. -/
theorem chain (bound strength : Nat) {operand : Parser Expr} (inner : Placeless operand) :
    Placeless (chain bound strength operand) := by
  rw [chain_eq]
  exact .bind inner fun left => .chainOnto strength inner bound left

/-- All levels of operators look at no place if the operands do not. -/
theorem climb (bound : Nat) {operand : Parser Expr} (inner : Placeless operand) (count : Nat) :
    Placeless (climb bound operand count) := by
  induction count with
  | zero => exact inner
  | succ count ih => exact .chain bound _ ih

/-- Expressions within a bound look at no place. -/
theorem boundedExpression (size : Nat) : Placeless (boundedExpression size) := by
  induction size with
  | zero => exact .primary (.missing .expression)
  | succ size ih => exact .climb size (.unary (.primary ih)) levels

/-- Expressions look at no place. -/
theorem expression : Placeless expression := by
  intro tokens others same
  rw [Parser.expression, Parser.expression, same.length_eq]
  exact Placeless.boundedExpression tokens.length tokens others same

/-- Statements look at no place. -/
theorem statement : Placeless statement := by
  refine .next (.unexpected .statement 0 0) ?_
  intro kind lexeme value place place' rest rest' same
  have behind {body : Parser Stmt} (placeless : Placeless body) :
      Alike (⟨kind, lexeme, place, value⟩ :: rest) (⟨kind, lexeme, place', value⟩ :: rest')
        (body rest) (body rest') :=
    .behind 1 (placeless rest rest' same)
  cases kind with
  | identifier =>
    exact behind (.expect _ _ (fun _ _ _ => rfl) fun _ => .bind .expression fun _ =>
      .bind (.checked _ _) fun _ => .pure _)
  | store =>
    exact behind (.expect _ _ (fun _ _ _ => rfl) fun _ => .bind .expression fun _ =>
      .expect _ _ (fun _ _ _ => rfl) fun _ => .bind .expression fun _ =>
        .expect _ _ (fun _ _ _ => rfl) fun _ => .pure _)
  | goto => exact behind (.bind .expression fun _ => .pure _)
  | assert => exact behind (.bind .expression fun _ => .pure _)
  | ifWord =>
    exact behind (.bind .expression fun _ => .expect _ _ (fun _ _ _ => rfl) fun _ =>
      .bind (.accept _) fun _ => .bind .expression fun _ => .expect _ _ (fun _ _ _ => rfl) fun _ =>
        .bind (.accept _) fun _ => .bind .expression fun _ => .pure _)
  | _ => exact .unexpected .statement 0 1

/-- Statements one after the other look at no place. -/
theorem statements (count : Nat) : Placeless (statements count) := by
  induction count with
  | zero => exact .pure []
  | succ count ih =>
    intro tokens others same
    cases tokens with
    | nil =>
      obtain rfl := same.eq_nil
      exact .ok [] 0
    | cons token rest =>
      have sequence : Placeless (Parser.statement >>= fun first => Parser.statements count >>=
          fun others => (Pure.pure (first :: others) : Parser (List Stmt))) :=
        .bind .statement fun first => .bind ih fun others => .pure (first :: others)
      have whole := sequence _ _ same
      obtain ⟨place', rest', rfl, -⟩ := same.exists_cons
      rw [statements_cons, statements_cons]
      exact whole

/-- Programs look at no place. -/
theorem program : Placeless program := by
  intro tokens others same
  have whole := (Placeless.statements tokens.length).bind
    (fun found => .pure ({ statements := found } : Program)) tokens others same
  rw [program_eq]
  simp only [Bind.bind, sequence, same.length_eq] at whole ⊢
  exact whole

end Placeless

end Parser

end FlatIL
