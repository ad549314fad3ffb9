import FlatIL.Proofs.Parser.Sound

/-!
# Parsing without bounds

The bounds that the parsers of expressions and statements descend on never show. On valid tokens, an
expression is parsed as levels of operators above primaries with expressions inside
(`expression_eq`), and statements are parsed one after the other (`sequence_cons`), with no bound in
sight: a bound is at least the number of tokens ahead, and every parser that succeeds has read one.
-/

namespace FlatIL.Parser

open Grammar

/-- Two parsers do the same on valid tokens up to a number. -/
def AgreeTo {α : Type} (n : Nat) (p q : Parser α) : Prop :=
  ∀ tokens, AllValid tokens → tokens.length ≤ n → p tokens = q tokens

/-- Extends `left` by all operators of one strength that follow. -/
def extend (strength : Nat) (operand : Parser Expr) (left : Expr) : Parser Expr :=
  fun tokens => chainOnto strength operand tokens.length left tokens

/-- Parses the tightest `count` levels of binary operators above an operand, in rows of any
length. -/
def tower (operand : Parser Expr) : (count : Nat) → Parser Expr
  | 0 => operand
  | count + 1 => tower operand count >>= extend (levels - count) (tower operand count)

namespace AgreeTo

variable {α β : Type} {n : Nat}

/-- Parsers that agree are gone on from in the same way. -/
theorem bind {p q : Parser α} (agree : AgreeTo n p q) (f : α → Parser β) :
    AgreeTo n (p >>= f) (q >>= f) := by
  intro tokens valid within
  simp only [Bind.bind, agree tokens valid within]

/-- Behind a token that must stand there, fewer tokens are ahead. -/
theorem behind (kind : TokenKind) (expected : Expectation) {f g : Token → Parser α}
    (agree : ∀ token, AgreeTo n (f token) (g token)) :
    AgreeTo (n + 1) (expect kind expected >>= f) (expect kind expected >>= g) := by
  intro tokens valid within
  cases tokens with
  | nil => rfl
  | cons token ahead =>
    by_cases same : token.kind = kind
    · simp only [Bind.bind, expect, if_pos same]
      exact agree token ahead valid.tail (Nat.le_of_succ_le_succ within)
    · simp only [Bind.bind, expect, if_neg same]

/-- A primary reads a token before the expressions inside it. -/
theorem primary {p q : Parser Expr} (agree : AgreeTo n p q) :
    AgreeTo (n + 1) (primary p) (primary q) := by
  intro tokens valid within
  cases tokens with
  | nil => rfl
  | cons token ahead =>
    have withinAhead : ahead.length ≤ n := Nat.le_of_succ_le_succ within
    obtain ⟨kind, lexeme, location, value⟩ := token
    cases kind with
    | load =>
      have opened := behind .leftParen .loadOpen fun _ => agree.bind fun address =>
        expect .rightParen .loadClose >>= fun _ => pure (Expr.load address)
      exact opened ahead valid.tail (Nat.le_succ_of_le withinAhead)
    | leftParen =>
      have held := agree.bind fun inner => expect .rightParen .groupClose >>= fun _ => pure inner
      exact held ahead valid.tail withinAhead
    | _ => rfl

/-- Unary operators do the same in front of operands that do. -/
theorem unary {p q : Parser Expr} (agree : AgreeTo n p q) : AgreeTo n (unary p) (unary q) := by
  intro tokens valid within
  induction tokens with
  | nil => exact agree [] valid within
  | cons token ahead ih =>
    have later := ih valid.tail (Nat.le_of_succ_le within)
    rw [Parser.unary, Parser.unary, later, agree (token :: ahead) valid within]

/-- A row of operators is parsed in the same way within any bounds that allow for all tokens. -/
theorem chainOnto {level : Nat} {p q : Parser Expr} (agree : AgreeTo n p q)
    (sound : Sound p (Derives (level + 1))) {count bound : Nat} {left : Expr} {tokens : List Token}
    (valid : AllValid tokens) (within : tokens.length ≤ n) (enough : tokens.length ≤ count)
    (enough' : tokens.length ≤ bound) :
    chainOnto (level + 1) p count left tokens = chainOnto (level + 1) q bound left tokens := by
  induction count generalizing bound left tokens with
  | zero =>
    obtain rfl : tokens = [] := List.length_eq_zero_iff.mp (by omega)
    cases bound <;> rfl
  | succ count ih =>
    cases tokens with
    | nil => cases bound <;> rfl
    | cons token ahead =>
      rw [List.length_cons] at within enough enough'
      obtain ⟨fewer, rfl⟩ : ∃ fewer, bound = fewer + 1 := ⟨bound - 1, by omega⟩
      rw [Parser.chainOnto, Parser.chainOnto]
      cases operatorAt (level + 1) token with
      | none => rfl
      | some op =>
        rw [← agree ahead valid.tail (by omega)]
        cases read : p ahead with
        | mk result rest =>
          cases result with
          | error failure => rfl
          | ok right =>
            obtain ⟨used, rfl, -⟩ := sound _ _ _ valid.tail read
            rw [List.length_append] at within enough enough'
            exact ih valid.tail.right (by omega) (by omega) (by omega)

/-- Levels of operators are parsed in the same way without a bound as within one that allows for
all tokens but the first. -/
theorem tower {p q : Parser Expr} (agree : AgreeTo (n + 1) p q)
    (sound : Sound p (Derives unaryLevel)) {count : Nat} (few : count ≤ levels) :
    AgreeTo (n + 1) (climb n p count) (tower q count) := by
  induction count with
  | zero => exact agree
  | succ count ih =>
    intro tokens valid within
    have inner := ih (by omega)
    have soundInner := sound_climb n sound (show count ≤ levels by omega)
    have strength : levels - count = levels - (count + 1) + 1 := by omega
    rw [strength] at soundInner
    rw [climb, Parser.tower, chain, strength]
    simp only [Bind.bind, ← inner tokens valid within]
    cases read : climb n p count tokens with
    | mk result rest =>
      cases result with
      | error failure => rfl
      | ok left =>
        obtain ⟨used, rfl, spelled⟩ := soundInner _ _ _ valid read
        have progress := List.length_pos_iff.mpr spelled.tokens_ne_nil
        rw [List.length_append] at within
        exact inner.chainOnto soundInner valid.right (by omega) (by omega) (Nat.le_refl _)

end AgreeTo

/-- With one more token allowed for than inside, an expression is parsed as without a bound. -/
theorem agreeTo_tower {size : Nat} (agree : AgreeTo size (boundedExpression size) expression) :
    AgreeTo (size + 1) (boundedExpression (size + 1))
      (tower (unary (primary expression)) levels) :=
  agree.primary.unary.tower (sound_unary (sound_primary (sound_boundedExpression size)))
    (Nat.le_refl levels)

/-- Within any bound that allows for all tokens, an expression is parsed in the same way. -/
theorem agreeTo_expression (size : Nat) :
    AgreeTo size (boundedExpression size) expression := by
  induction size using Nat.strongRecOn with
  | ind size ih =>
    intro tokens valid within
    cases size with
    | zero =>
      obtain rfl : tokens = [] := List.length_eq_zero_iff.mp (by omega)
      rfl
    | succ size =>
      have bounded := agreeTo_tower (ih size (by omega)) tokens valid within
      rw [bounded]
      cases tokens with
      | nil => rfl
      | cons token ahead =>
        rw [List.length_cons] at within
        exact (agreeTo_tower (ih ahead.length (by omega)) _ valid (Nat.le_refl _)).symm

/-- On valid tokens, an expression is parsed as levels of operators above primaries with
expressions inside. -/
theorem expression_eq {tokens : List Token} (valid : AllValid tokens) :
    expression tokens = tower (unary (primary expression)) levels tokens := by
  have whole := agreeTo_tower (agreeTo_expression tokens.length) tokens valid (Nat.le_succ _)
  rw [← whole]
  exact (agreeTo_expression (tokens.length + 1) tokens valid (Nat.le_succ _)).symm

/-- Levels of binary operators in rows of any length are sound above sound unary operators. -/
theorem sound_tower {operand : Parser Expr} (sound : Sound operand (Derives unaryLevel))
    {count : Nat} (few : count ≤ levels) :
    Sound (tower operand count) (Derives (levels - count)) := by
  induction count with
  | zero => exact sound
  | succ count ih =>
    intro tokens e rest valid parsed
    have strength : levels - count = levels - (count + 1) + 1 := by omega
    have inner := ih (by omega)
    rw [strength] at inner
    obtain ⟨left, middle, read, extended⟩ := bind_eq_ok.mp parsed
    obtain ⟨first, rfl, tight⟩ := inner _ _ _ valid read
    rw [extend, strength] at extended
    have loose : levels - (count + 1) < primaryLevel := by
      simp only [levels, primaryLevel]
      omega
    obtain ⟨used, rfl, whole⟩ :=
      sound_chainOnto inner _ _ _ (.tighter loose tight) _ _ _ valid.right extended
    exact ⟨first ++ used, by simp, whole⟩

/-- Behind a unary operator, the unary level goes on. -/
theorem unary_cons {operand : Parser Expr} {token : Token} {op : UnaryOp}
    (sign : token.kind.unaryOp? = some op) (ahead : List Token) :
    unary operand (token :: ahead) =
      (unary operand >>= fun inner => pure (.unary op inner)) ahead := by
  simp only [unary, sign, Bind.bind]
  cases unary operand ahead with
  | mk result rest => cases result <;> rfl

/-- A level of operators is an operand and what follows it. -/
theorem chain_eq (bound strength : Nat) (operand : Parser Expr) :
    chain bound strength operand = operand >>= chainOnto strength operand bound := by
  funext tokens
  simp only [chain, Bind.bind]
  cases operand tokens with
  | mk result rest => cases result <;> rfl

/-- A row within a bound goes on with the first operator that follows, if it is of the strength of
the row. -/
theorem chainOnto_cons {strength : Nat} {operand : Parser Expr} {token : Token} {op : BinaryOp}
    (sign : operatorAt strength token = some op) (count : Nat) (left : Expr) (ahead : List Token) :
    chainOnto strength operand (count + 1) left (token :: ahead) =
      (operand >>= fun right =>
        chainOnto strength operand count (.binary op left right)) ahead := by
  simp only [chainOnto, sign, Bind.bind]
  cases operand ahead with
  | mk result rest => cases result <;> rfl

/-- A row of operators goes on with the first that follows, if it is of the strength of the row. -/
theorem extend_cons {level : Nat} {operand : Parser Expr}
    (sound : Sound operand (Derives (level + 1))) {left : Expr} {token : Token} {op : BinaryOp}
    (sign : operatorAt (level + 1) token = some op) {ahead : List Token} (valid : AllValid ahead) :
    extend (level + 1) operand left (token :: ahead) =
      (operand >>= fun right => extend (level + 1) operand (.binary op left right)) ahead := by
  rw [extend, List.length_cons, chainOnto_cons sign]
  simp only [extend, Bind.bind]
  cases read : operand ahead with
  | mk result rest =>
    cases result with
    | error failure => rfl
    | ok right =>
      obtain ⟨used, rfl, -⟩ := sound _ _ _ valid read
      have same : AgreeTo (used ++ rest).length operand operand := fun _ _ _ => rfl
      exact same.chainOnto sound valid.right (by simp) (by simp) (Nat.le_refl _)

/-- A statement leaves fewer tokens, which are valid. -/
theorem length_lt_of_statement {tokens rest : List Token} {s : Stmt} (valid : AllValid tokens)
    (read : statement tokens = (.ok s, rest)) : rest.length < tokens.length ∧ AllValid rest := by
  obtain ⟨used, rfl, spelled⟩ := sound_statement _ _ _ valid read
  have progress := List.length_pos_iff.mpr spelled.tokens_ne_nil
  exact ⟨by rw [List.length_append]; omega, valid.right⟩

/-- Statements are parsed in the same way within any bounds that allow for all tokens. -/
theorem statements_eq {count bound : Nat} {tokens : List Token} (valid : AllValid tokens)
    (enough : tokens.length ≤ count) (enough' : tokens.length ≤ bound) :
    statements count tokens = statements bound tokens := by
  induction count generalizing bound tokens with
  | zero =>
    obtain rfl : tokens = [] := List.length_eq_zero_iff.mp (by omega)
    cases bound <;> rfl
  | succ count ih =>
    cases tokens with
    | nil => cases bound <;> rfl
    | cons token ahead =>
      rw [List.length_cons] at enough enough'
      obtain ⟨fewer, rfl⟩ : ∃ fewer, bound = fewer + 1 := ⟨bound - 1, by omega⟩
      simp only [statements]
      cases read : statement (token :: ahead) with
      | mk result rest =>
        cases result with
        | error failure => rfl
        | ok first =>
          obtain ⟨shorter, validRest⟩ := length_lt_of_statement valid read
          rw [List.length_cons] at shorter
          simp only [ih validRest (show rest.length ≤ count by omega)
            (show rest.length ≤ fewer by omega)]

/-- Parses statements up to the end of the text. -/
def sequence : Parser (List Stmt) :=
  fun tokens => statements tokens.length tokens

/-- Statements within a bound are a statement and the statements behind it. -/
theorem statements_cons (count : Nat) (token : Token) (ahead : List Token) :
    statements (count + 1) (token :: ahead) =
      (statement >>= fun first => statements count >>= fun others => pure (first :: others))
        (token :: ahead) := by
  simp only [statements, Bind.bind]
  cases statement (token :: ahead) with
  | mk result rest =>
    cases result with
    | error failure => rfl
    | ok first =>
      dsimp only
      cases statements count rest with
      | mk result left => cases result <;> rfl

/-- Statements behind others are a statement behind them and the statements behind it. -/
theorem statements_bind_cons (bound : Nat) (found : List Stmt) (token : Token)
    (ahead : List Token) :
    (statements (bound + 1) >>= fun others => pure (found ++ others)) (token :: ahead) =
      (statement >>= fun first => statements bound >>= fun others =>
        pure (found ++ [first] ++ others)) (token :: ahead) := by
  simp only [Bind.bind, statements_cons]
  cases statement (token :: ahead) with
  | mk result middle =>
    cases result with
    | error failure => rfl
    | ok first =>
      dsimp only
      cases statements bound middle with
      | mk result left => cases result <;> simp [pure]

/-- Where there are tokens, a statement is parsed and then those behind it. -/
theorem sequence_cons {token : Token} {ahead : List Token} (valid : AllValid (token :: ahead)) :
    sequence (token :: ahead) =
      (statement >>= fun first => sequence >>= fun others => pure (first :: others))
        (token :: ahead) := by
  rw [sequence, List.length_cons, statements_cons]
  simp only [sequence, Bind.bind]
  cases read : statement (token :: ahead) with
  | mk result rest =>
    cases result with
    | error failure => rfl
    | ok first =>
      obtain ⟨shorter, validRest⟩ := length_lt_of_statement valid read
      rw [List.length_cons] at shorter
      simp only [statements_eq validRest (show rest.length ≤ ahead.length by omega) (Nat.le_refl _)]

/-- A program is the statements up to the end of the text. -/
theorem program_eq : program = sequence >>= fun found => pure { statements := found } := by
  funext tokens
  simp only [program, Bind.bind, sequence]
  cases statements tokens.length tokens with
  | mk result rest => cases result <;> rfl

end FlatIL.Parser
