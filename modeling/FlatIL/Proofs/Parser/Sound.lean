import FlatIL.Parser.Program
import FlatIL.Proofs.Parser

/-!
# What is parsed is spelled

A parser is sound for a part of the grammar when the tokens it reads spell its result.
Each level of expressions is sound if the level below it is, whatever bounds the
parsers carry, and statements and programs are sound on top of expressions.
-/

namespace FlatIL.Parser

open Grammar

/-- All tokens of a list are valid. -/
abbrev AllValid (tokens : List Token) : Prop :=
  ∀ token ∈ tokens, token.Valid

/-- On valid tokens, a parser that succeeds has read tokens that spell its result. -/
def Sound {α : Type} (parser : Parser α) (spells : List Token → α → Prop) : Prop :=
  ∀ tokens a rest, AllValid tokens → parser tokens = (.ok a, rest) →
    ∃ used, tokens = used ++ rest ∧ spells used a

/-- What is read of valid tokens is valid. -/
theorem AllValid.left {used rest : List Token} (valid : AllValid (used ++ rest)) :
    AllValid used :=
  fun token inside => valid token (List.mem_append_left rest inside)

/-- What is left of valid tokens is valid. -/
theorem AllValid.right {used rest : List Token} (valid : AllValid (used ++ rest)) :
    AllValid rest :=
  fun token inside => valid token (List.mem_append_right used inside)

/-- What is behind the first of valid tokens is valid. -/
theorem AllValid.tail {token : Token} {rest : List Token} (valid : AllValid (token :: rest)) :
    AllValid rest :=
  fun other inside => valid other (List.mem_cons_of_mem token inside)

/-- A parser that always fails is sound for anything. -/
theorem sound_fail {α : Type} (failure : Failure) (spells : List Token → α → Prop) :
    Sound (fail failure) spells := by
  intro tokens a rest _ parsed
  simp [fail] at parsed

/-- Primaries are sound if the expressions inside them are. -/
theorem sound_primary {nested : Parser Expr} (sound : Sound nested (Derives 0)) :
    Sound (primary nested) (Derives primaryLevel) := by
  intro tokens e rest valid whole
  obtain ⟨found, ahead, read, parsed⟩ := bind_eq_ok.mp whole
  cases tokens with
  | nil =>
    cases read
    simp [fail] at parsed
  | cons token others =>
    cases read
    have here : token.Valid := valid token List.mem_cons_self
    have validAhead : AllValid ahead := valid.tail
    obtain ⟨kind, lexeme, location, value⟩ := token
    cases kind with
    | integer =>
      obtain ⟨word, middle, passed, done⟩ := bind_eq_ok.mp parsed
      obtain ⟨accepted, rfl⟩ := checked_eq_ok.mp passed
      obtain ⟨rfl, rfl⟩ := pure_eq_ok.mp done
      exact ⟨[_], rfl, .integer rfl ((here.literal_eq_ok rfl).mp accepted)⟩
    | identifier =>
      obtain ⟨name, middle, passed, done⟩ := bind_eq_ok.mp parsed
      obtain ⟨accepted, rfl⟩ := checked_eq_ok.mp passed
      obtain ⟨rfl, rfl⟩ := pure_eq_ok.mp done
      rw [here.nameOfText_eq rfl] at accepted
      obtain rfl := Except.ok.inj accepted
      exact ⟨[_], rfl, .name rfl⟩
    | load =>
      obtain ⟨opening, first, opened, behindOpening⟩ := bind_eq_ok.mp parsed
      obtain ⟨address, second, inner, behindAddress⟩ := bind_eq_ok.mp behindOpening
      obtain ⟨closing, third, closed, done⟩ := bind_eq_ok.mp behindAddress
      obtain ⟨rfl, opens⟩ := expect_eq_ok.mp opened
      obtain ⟨rfl, closes⟩ := expect_eq_ok.mp closed
      obtain ⟨rfl, rfl⟩ := pure_eq_ok.mp done
      obtain ⟨used, rfl, spelled⟩ := sound _ _ _ validAhead.tail inner
      exact ⟨⟨.load, lexeme, location, value⟩ :: opening :: (used ++ [closing]), by simp,
        .load rfl opens spelled closes⟩
    | getInput =>
      obtain ⟨found, first, optional, behindWord⟩ := bind_eq_ok.mp parsed
      obtain ⟨rfl, opening, opens, rfl⟩ | ⟨rfl, rfl⟩ := accept_eq_ok optional
      · obtain ⟨source, second, named, behindSource⟩ := bind_eq_ok.mp behindWord
        obtain ⟨closing, third, closed, behindClosing⟩ := bind_eq_ok.mp behindSource
        obtain ⟨name, fourth, passed, done⟩ := bind_eq_ok.mp behindClosing
        obtain ⟨rfl, isName⟩ := expect_eq_ok.mp named
        obtain ⟨rfl, closes⟩ := expect_eq_ok.mp closed
        obtain ⟨accepted, rfl⟩ := checked_eq_ok.mp passed
        obtain ⟨rfl, rfl⟩ := pure_eq_ok.mp done
        have sourceValid : source.Valid := validAhead source (by simp)
        rw [sourceValid.nameOfText_eq isName] at accepted
        obtain rfl := Except.ok.inj accepted
        exact ⟨[_, opening, source, closing], rfl, .inputFrom rfl opens isName closes⟩
      · obtain ⟨rfl, rfl⟩ := pure_eq_ok.mp behindWord
        exact ⟨[_], rfl, .input rfl⟩
    | leftParen =>
      obtain ⟨inner, first, grouped, behindInner⟩ := bind_eq_ok.mp parsed
      obtain ⟨closing, second, closed, done⟩ := bind_eq_ok.mp behindInner
      obtain ⟨rfl, closes⟩ := expect_eq_ok.mp closed
      obtain ⟨rfl, rfl⟩ := pure_eq_ok.mp done
      obtain ⟨used, rfl, spelled⟩ := sound _ _ _ validAhead grouped
      exact ⟨⟨.leftParen, lexeme, location, value⟩ :: (used ++ [closing]), by simp,
        .group rfl spelled closes⟩
    | _ => simp [fail] at parsed

/-- Unary operators in front of sound primaries are sound. -/
theorem sound_unary {operand : Parser Expr} (sound : Sound operand (Derives primaryLevel)) :
    Sound (unary operand) (Derives unaryLevel) := by
  intro tokens
  induction tokens with
  | nil =>
    intro e rest valid parsed
    obtain ⟨used, split, spelled⟩ := sound _ _ _ valid parsed
    exact ⟨used, split, .tighter (by decide) spelled⟩
  | cons token ahead ih =>
    intro e rest valid parsed
    rw [unary] at parsed
    split at parsed
    · obtain ⟨used, split, spelled⟩ := sound _ _ _ valid parsed
      exact ⟨used, split, .tighter (by decide) spelled⟩
    · next op sign =>
      split at parsed
      · next inner left read =>
        obtain ⟨rfl, rfl⟩ := pure_eq_ok.mp parsed
        obtain ⟨used, rfl, spelled⟩ := ih _ _ valid.tail read
        exact ⟨token :: used, rfl, .unary (mem_unarySigns.mpr sign) spelled⟩
      · simp at parsed

/-- The operator of a strength that a token stands for is listed on the level of that strength. -/
theorem operatorAt_eq_some {level : Nat} {token : Token} {op : BinaryOp} :
    operatorAt (level + 1) token = some op ↔ (token.kind, op) ∈ binaryLevels.getD level [] := by
  rw [mem_binaryLevels, operatorAt, Option.filter_eq_some_iff]
  simp

/-- Going on with the operators of one level keeps what was read before on that level. -/
theorem sound_chainOnto {level : Nat} {operand : Parser Expr}
    (sound : Sound operand (Derives (level + 1))) (count : Nat) :
    ∀ (left : Expr) (read : List Token), Derives level read left →
      ∀ tokens e rest, AllValid tokens →
        chainOnto (level + 1) operand count left tokens = (.ok e, rest) →
          ∃ used, tokens = used ++ rest ∧ Derives level (read ++ used) e := by
  induction count with
  | zero =>
    intro left read before tokens e rest _ parsed
    obtain ⟨rfl, rfl⟩ := pure_eq_ok.mp parsed
    exact ⟨[], rfl, by simpa using before⟩
  | succ count ih =>
    intro left read before tokens e rest valid parsed
    cases tokens with
    | nil =>
      obtain ⟨rfl, rfl⟩ := pure_eq_ok.mp parsed
      exact ⟨[], rfl, by simpa using before⟩
    | cons token ahead =>
      rw [chainOnto] at parsed
      split at parsed
      · obtain ⟨rfl, rfl⟩ := pure_eq_ok.mp parsed
        exact ⟨[], rfl, by simpa using before⟩
      · next op sign =>
        split at parsed
        · next right middle found =>
          have validAhead : AllValid ahead := valid.tail
          obtain ⟨second, rfl, tight⟩ := sound _ _ _ validAhead found
          have both := Derives.binary (operatorAt_eq_some.mp sign) before tight
          obtain ⟨used, rfl, whole⟩ := ih _ _ both _ _ _ validAhead.right parsed
          exact ⟨token :: (second ++ used), by simp, by simpa using whole⟩
        · simp at parsed

/-- A level of binary operators is sound if the next tighter level is. -/
theorem sound_chain {level : Nat} {operand : Parser Expr} (bound : Nat)
    (loose : level < primaryLevel) (sound : Sound operand (Derives (level + 1))) :
    Sound (chain bound (level + 1) operand) (Derives level) := by
  intro tokens e rest valid parsed
  rw [chain] at parsed
  split at parsed
  · next left middle found =>
    obtain ⟨first, rfl, tight⟩ := sound _ _ _ valid found
    obtain ⟨used, rfl, whole⟩ :=
      sound_chainOnto sound bound _ _ (.tighter loose tight) _ _ _ valid.right parsed
    exact ⟨first ++ used, by simp, whole⟩
  · simp at parsed

/-- The tightest levels of binary operators are sound above sound unary operators. -/
theorem sound_climb {operand : Parser Expr} (bound : Nat)
    (sound : Sound operand (Derives unaryLevel)) {count : Nat} (within : count ≤ levels) :
    Sound (climb bound operand count) (Derives (levels - count)) := by
  induction count with
  | zero => exact sound
  | succ count ih =>
    have tighter : levels - count = levels - (count + 1) + 1 := by omega
    have inner := ih (by omega)
    rw [tighter] at inner
    rw [climb, tighter]
    exact sound_chain bound (by simp only [levels, primaryLevel]; omega) inner

/-- Whatever its bound, a parsed expression is spelled by the tokens read. -/
theorem sound_boundedExpression (size : Nat) : Sound (boundedExpression size) (Derives 0) := by
  induction size with
  | zero =>
    intro tokens e rest valid parsed
    obtain ⟨used, split, spelled⟩ := sound_primary (sound_fail _ _) _ _ _ valid parsed
    exact ⟨used, split, spelled.loosen (by decide) (by decide)⟩
  | succ size ih => exact sound_climb size (sound_unary (sound_primary ih)) (Nat.le_refl levels)

/-- A parsed expression is spelled by the tokens read. -/
theorem sound_expression : Sound expression (Derives 0) :=
  fun tokens => sound_boundedExpression tokens.length tokens

/-- An optional `goto` and the expression behind it are a target. -/
theorem target_of_parsed {tokens middle rest : List Token} {found : Bool} {e : Expr}
    (valid : AllValid tokens) (optional : accept .goto tokens = (.ok found, middle))
    (parsed : expression middle = (.ok e, rest)) :
    ∃ used, tokens = used ++ rest ∧ Target used e := by
  obtain ⟨-, word, isGoto, rfl⟩ | ⟨-, rfl⟩ := accept_eq_ok optional
  · obtain ⟨used, rfl, spelled⟩ := sound_expression _ _ _ valid.tail parsed
    exact ⟨word :: used, rfl, .goto isGoto spelled⟩
  · obtain ⟨used, rfl, spelled⟩ := sound_expression _ _ _ valid parsed
    exact ⟨used, rfl, .bare spelled⟩

/-- A parsed statement is spelled by the tokens read. -/
theorem sound_statement : Sound statement Statement := by
  intro tokens s rest valid whole
  obtain ⟨found, ahead, read, parsed⟩ := bind_eq_ok.mp whole
  cases tokens with
  | nil =>
    cases read
    simp [fail] at parsed
  | cons token others =>
    cases read
    have here : token.Valid := valid token List.mem_cons_self
    have validAhead : AllValid ahead := valid.tail
    obtain ⟨kind, lexeme, location, value⟩ := token
    cases kind with
    | identifier =>
      obtain ⟨sign, first, assigned, behindSign⟩ := bind_eq_ok.mp parsed
      obtain ⟨e, second, bound, behindValue⟩ := bind_eq_ok.mp behindSign
      obtain ⟨target, third, passed, done⟩ := bind_eq_ok.mp behindValue
      obtain ⟨rfl, isAssign⟩ := expect_eq_ok.mp assigned
      obtain ⟨accepted, rfl⟩ := checked_eq_ok.mp passed
      obtain ⟨rfl, rfl⟩ := pure_eq_ok.mp done
      rw [here.nameOfText_eq rfl] at accepted
      obtain rfl := Except.ok.inj accepted
      obtain ⟨used, rfl, spelled⟩ := sound_expression _ _ _ validAhead.tail bound
      exact ⟨_ :: sign :: used, rfl, .assign rfl isAssign spelled⟩
    | store =>
      obtain ⟨opening, first, opened, behindOpening⟩ := bind_eq_ok.mp parsed
      obtain ⟨a, second, address, behindAddress⟩ := bind_eq_ok.mp behindOpening
      obtain ⟨comma, third, separated, behindComma⟩ := bind_eq_ok.mp behindAddress
      obtain ⟨v, fourth, contents, behindValue⟩ := bind_eq_ok.mp behindComma
      obtain ⟨closing, fifth, closed, done⟩ := bind_eq_ok.mp behindValue
      obtain ⟨rfl, opens⟩ := expect_eq_ok.mp opened
      obtain ⟨rfl, isComma⟩ := expect_eq_ok.mp separated
      obtain ⟨rfl, closes⟩ := expect_eq_ok.mp closed
      obtain ⟨rfl, rfl⟩ := pure_eq_ok.mp done
      have validAddress := validAhead.tail
      obtain ⟨used, rfl, spelled⟩ := sound_expression _ _ _ validAddress address
      have validValue := validAddress.right.tail
      obtain ⟨others, rfl, spelledValue⟩ := sound_expression _ _ _ validValue contents
      exact ⟨⟨.store, lexeme, location, value⟩ :: opening ::
        (used ++ comma :: (others ++ [closing])), by simp,
        .store rfl opens spelled isComma spelledValue closes⟩
    | goto =>
      obtain ⟨e, first, target, done⟩ := bind_eq_ok.mp parsed
      obtain ⟨rfl, rfl⟩ := pure_eq_ok.mp done
      obtain ⟨used, rfl, spelled⟩ := sound_expression _ _ _ validAhead target
      exact ⟨_ :: used, rfl, .goto rfl spelled⟩
    | assert =>
      obtain ⟨e, first, condition, done⟩ := bind_eq_ok.mp parsed
      obtain ⟨rfl, rfl⟩ := pure_eq_ok.mp done
      obtain ⟨used, rfl, spelled⟩ := sound_expression _ _ _ validAhead condition
      exact ⟨_ :: used, rfl, .assert rfl spelled⟩
    | ifWord =>
      obtain ⟨c, first, condition, behindCondition⟩ := bind_eq_ok.mp parsed
      obtain ⟨thenWord, second, thenRead, behindThen⟩ := bind_eq_ok.mp behindCondition
      obtain ⟨thenGoto, third, thenOptional, behindThenGoto⟩ := bind_eq_ok.mp behindThen
      obtain ⟨t, fourth, thenTarget, behindThenTarget⟩ := bind_eq_ok.mp behindThenGoto
      obtain ⟨elseWord, fifth, elseRead, behindElse⟩ := bind_eq_ok.mp behindThenTarget
      obtain ⟨elseGoto, sixth, elseOptional, behindElseGoto⟩ := bind_eq_ok.mp behindElse
      obtain ⟨e, seventh, elseTarget, done⟩ := bind_eq_ok.mp behindElseGoto
      obtain ⟨rfl, isThen⟩ := expect_eq_ok.mp thenRead
      obtain ⟨rfl, isElse⟩ := expect_eq_ok.mp elseRead
      obtain ⟨rfl, rfl⟩ := pure_eq_ok.mp done
      obtain ⟨used, rfl, spelled⟩ := sound_expression _ _ _ validAhead condition
      have validThen := validAhead.right.tail
      obtain ⟨thenUsed, rfl, thenSpelled⟩ := target_of_parsed validThen thenOptional thenTarget
      have validElse := validThen.right.tail
      obtain ⟨elseUsed, rfl, elseSpelled⟩ := target_of_parsed validElse elseOptional elseTarget
      exact ⟨⟨.ifWord, lexeme, location, value⟩ ::
        (used ++ thenWord :: (thenUsed ++ elseWord :: elseUsed)), by simp,
        .branch rfl spelled isThen thenSpelled isElse elseSpelled⟩
    | _ => simp [fail] at parsed

/-- Parsed statements take all tokens, which spell them, if as many are allowed as there are
tokens. -/
theorem statements_sound {count : Nat} {tokens rest : List Token} {found : List Stmt}
    (enough : tokens.length ≤ count) (valid : AllValid tokens)
    (parsed : statements count tokens = (.ok found, rest)) :
    rest = [] ∧ Statements tokens found := by
  induction count generalizing tokens rest found with
  | zero =>
    obtain rfl : tokens = [] := List.length_eq_zero_iff.mp (by omega)
    obtain ⟨rfl, rfl⟩ := pure_eq_ok.mp parsed
    exact ⟨rfl, .nil⟩
  | succ count ih =>
    cases tokens with
    | nil =>
      obtain ⟨rfl, rfl⟩ := pure_eq_ok.mp parsed
      exact ⟨rfl, .nil⟩
    | cons token ahead =>
      rw [statements] at parsed
      · split at parsed
        · simp at parsed
        · next first middle read =>
          split at parsed
          · next others left later =>
            obtain ⟨rfl, rfl⟩ := pure_eq_ok.mp parsed
            obtain ⟨used, split, spelled⟩ := sound_statement _ _ _ valid read
            have progress : used ≠ [] := spelled.tokens_ne_nil
            rw [split] at valid enough ⊢
            have shorter := List.length_pos_iff.mpr progress
            rw [List.length_append] at enough
            obtain ⟨rfl, rest⟩ := ih (by omega) valid.right later
            exact ⟨rfl, .cons spelled rest⟩
          · simp at parsed
      · simp

end FlatIL.Parser
