import FlatIL.Parser.Basic
import FlatIL.Model.Ident
import FlatIL.Model.Literal
import FlatIL.Proofs.Grammar

/-!
# Laws of parsers

What each of the small parsers reads when it succeeds, and what a valid token gives.
-/

namespace FlatIL.Parser

variable {α β : Type}

/-- Two parsers in order succeed exactly if both do, the second behind the first. -/
theorem bind_eq_ok {p : Parser α} {f : α → Parser β} {tokens rest : List Token} {b : β} :
    (p >>= f) tokens = (.ok b, rest) ↔
      ∃ a middle, p tokens = (.ok a, middle) ∧ f a middle = (.ok b, rest) := by
  simp only [Bind.bind]
  rcases p tokens with ⟨failure | a, middle⟩
  · simp
  · constructor
    · intro second
      exact ⟨a, middle, rfl, second⟩
    · rintro ⟨_, _, ⟨rfl, rfl⟩, second⟩
      exact second

/-- A parser that reads nothing succeeds with its result. -/
theorem pure_eq_ok {a b : α} {tokens rest : List Token} :
    (pure a : Parser α) tokens = (.ok b, rest) ↔ a = b ∧ tokens = rest := by
  change (Except.ok a, tokens) = _ ↔ _
  simp

/-- A token of a kind is read exactly if it comes next. -/
theorem expect_eq_ok {kind : TokenKind} {expected : Expectation} {tokens rest : List Token}
    {token : Token} :
    expect kind expected tokens = (.ok token, rest) ↔
      tokens = token :: rest ∧ token.kind = kind := by
  cases tokens with
  | nil => simp [expect]
  | cons first others =>
    by_cases same : first.kind = kind
    · simp only [expect, if_pos same, Prod.mk.injEq, Except.ok.injEq, List.cons.injEq]
      constructor
      · rintro ⟨rfl, rfl⟩
        exact ⟨⟨rfl, rfl⟩, same⟩
      · exact And.left
    · simp only [expect, if_neg same, Prod.mk.injEq, reduceCtorEq, false_and, List.cons.injEq,
        false_iff, not_and]
      rintro ⟨rfl, -⟩
      exact same

/-- An optional token is read if it comes next. -/
theorem accept_of_eq {kind : TokenKind} {token : Token} (rest : List Token)
    (same : token.kind = kind) : accept kind (token :: rest) = (.ok true, rest) := by
  simp [accept, same]

/-- An optional token that does not come next is passed over. -/
theorem accept_of_ne {kind : TokenKind} {tokens : List Token}
    (other : ∀ token ∈ tokens.head?, token.kind ≠ kind) :
    accept kind tokens = (.ok false, tokens) := by
  cases tokens with
  | nil => rfl
  | cons token rest => simp [accept, other token rfl]

/-- Reading an optional token leaves what is behind it, if it comes next. -/
theorem accept_eq_ok {kind : TokenKind} {tokens rest : List Token} {found : Bool} :
    accept kind tokens = (.ok found, rest) →
      (found = true ∧ ∃ token, token.kind = kind ∧ tokens = token :: rest) ∨
        (found = false ∧ tokens = rest) := by
  intro accepted
  cases tokens with
  | nil =>
    simp only [accept, Prod.mk.injEq, Except.ok.injEq] at accepted
    exact .inr ⟨accepted.1.symm, accepted.2⟩
  | cons first others =>
    simp only [accept] at accepted
    split at accepted
    · next same =>
      simp only [Prod.mk.injEq, Except.ok.injEq] at accepted
      obtain ⟨rfl, rfl⟩ := accepted
      exact .inl ⟨rfl, first, same, rfl⟩
    · simp only [Prod.mk.injEq, Except.ok.injEq] at accepted
      exact .inr ⟨accepted.1.symm, accepted.2⟩

/-- A checked part is there exactly if it passes its check, and nothing is read for it. -/
theorem checked_eq_ok {field : String} {part : Except Model.Problem α} {a : α}
    {tokens rest : List Token} :
    checked field part tokens = (.ok a, rest) ↔ part = .ok a ∧ tokens = rest := by
  cases part with
  | ok found => simpa [checked] using pure_eq_ok
  | error problem => simp [checked, fail]

end FlatIL.Parser

namespace FlatIL.Token.Valid

variable {token : Token}

/-- The text of a valid identifier is accepted as a name. -/
theorem nameOfText_eq (valid : token.Valid) (isName : token.kind = .identifier) :
    Model.nameOfText token.lexeme = .ok token.lexeme := by
  have named : Name.isName token.lexeme = true := valid.1 isName
  simp only [Name.isName, Bool.and_eq_true, Bool.not_eq_true'] at named
  simp [Model.nameOfText, named.1, named.2]

/-- The value of a valid integer is accepted as exactly the word it is. -/
theorem literal_eq_ok (valid : token.Valid) (isInteger : token.kind = .integer) {w : Word} :
    Model.literal token.value = .ok w ↔ token.value = .int w.toNat := by
  obtain ⟨n, small, denoted⟩ := valid.2 isInteger
  have word : Word.ofInt? n = some (UInt32.ofNat n) := by
    have : (n : Int) < Word.bound := by omega
    simp [Word.ofInt?, this]
  rw [denoted]
  simp only [Model.literal, Model.literalBy, Model.integerOf, show ¬ (n : Int) < 0 by omega,
    if_false, word, Except.ok.injEq, Json.int.injEq, Int.ofNat_inj]
  have exact : (UInt32.ofNat n).toNat = n :=
    UInt32.toNat_ofNat_of_lt small
  constructor
  · rintro rfl
    exact exact.symm
  · rintro rfl
    exact UInt32.toNat_inj.mp exact

end FlatIL.Token.Valid
