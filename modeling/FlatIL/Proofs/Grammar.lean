import FlatIL.Name
import FlatIL.Program
import FlatIL.Token
import FlatIL.Word

/-!
# The grammar of programs

The grammar relates runs of tokens to the trees they spell, without saying how a tree
is found. Expressions have nine levels: seven of binary operators, all grouping to the
left, from the loosest (`0`) to the tightest (`6`), then the unary operators (`7`) and
the primaries (`8`). Statements follow each other without separators.

The tables of signs here are the grammar's own. `mem_binaryLevels` and
`mem_unarySigns` say that the signs and strengths of the operators agree with them.
-/

namespace FlatIL

/-- A token that carries what its kind promises: an identifier a name of the language, and
an integer a word. -/
def Token.Valid (token : Token) : Prop :=
  (token.kind = .identifier → Name.isName token.lexeme) ∧
    (token.kind = .integer → ∃ n : Nat, n < Word.bound ∧ token.value = .int n)

namespace Grammar

/-- The signs of the binary operators, from the loosest level to the tightest. -/
def binaryLevels : List (List (TokenKind × BinaryOp)) :=
  [[(.pipe, .or)],
    [(.caret, .xor)],
    [(.ampersand, .and)],
    [(.equal, .eq), (.notEqual, .ne)],
    [(.less, .lt), (.lessEqual, .le)],
    [(.plus, .add), (.minus, .sub)],
    [(.star, .mul), (.slash, .div), (.percent, .mod)]]

/-- The signs of the unary operators. -/
def unarySigns : List (TokenKind × UnaryOp) :=
  [(.minus, .neg), (.tilde, .not), (.bang, .lnot)]

/-- The level of the unary operators. -/
def unaryLevel : Nat := 7

/-- The level of literals, names, reads and groups. -/
def primaryLevel : Nat := 8

/-- `Derives level tokens e`: at a level, the tokens spell the expression. -/
inductive Derives : Nat → List Token → Expr → Prop where
  /-- Every level holds what the next tighter one does. -/
  | tighter {level : Nat} {tokens : List Token} {e : Expr} (loose : level < primaryLevel)
      (inner : Derives (level + 1) tokens e) : Derives level tokens e
  /-- A binary operator stands between an operand of its own level and a tighter one. -/
  | binary {level : Nat} {left right : List Token} {sign : Token} {op : BinaryOp} {l r : Expr}
      (listed : (sign.kind, op) ∈ binaryLevels.getD level []) (first : Derives level left l)
      (second : Derives (level + 1) right r) :
      Derives level (left ++ sign :: right) (.binary op l r)
  /-- A unary operator stands in front of its operand. -/
  | unary {sign : Token} {op : UnaryOp} {tokens : List Token} {e : Expr}
      (listed : (sign.kind, op) ∈ unarySigns) (operand : Derives unaryLevel tokens e) :
      Derives unaryLevel (sign :: tokens) (.unary op e)
  | integer {token : Token} {value : Word} (isInteger : token.kind = .integer)
      (denoted : token.value = .int value.toNat) : Derives primaryLevel [token] (.lit value)
  | name {token : Token} (isName : token.kind = .identifier) :
      Derives primaryLevel [token] (.var token.lexeme)
  | load {word opening closing : Token} {tokens : List Token} {e : Expr}
      (isLoad : word.kind = .load) (opens : opening.kind = .leftParen)
      (address : Derives 0 tokens e) (closes : closing.kind = .rightParen) :
      Derives primaryLevel (word :: opening :: (tokens ++ [closing])) (.load e)
  /-- An input read without a source reads the standard one. -/
  | input {word : Token} (isInput : word.kind = .getInput) :
      Derives primaryLevel [word] (.input "stdin")
  | inputFrom {word opening source closing : Token} (isInput : word.kind = .getInput)
      (opens : opening.kind = .leftParen) (isName : source.kind = .identifier)
      (closes : closing.kind = .rightParen) :
      Derives primaryLevel [word, opening, source, closing] (.input source.lexeme)
  /-- Parentheses group and leave no trace in the tree. -/
  | group {opening closing : Token} {tokens : List Token} {e : Expr}
      (opens : opening.kind = .leftParen) (inner : Derives 0 tokens e)
      (closes : closing.kind = .rightParen) :
      Derives primaryLevel (opening :: (tokens ++ [closing])) e

/-- `Target tokens e`: the tokens spell the target of a branch, where `goto` may be left out. -/
inductive Target : List Token → Expr → Prop where
  | bare {tokens : List Token} {e : Expr} (target : Derives 0 tokens e) : Target tokens e
  | goto {word : Token} {tokens : List Token} {e : Expr} (isGoto : word.kind = .goto)
      (target : Derives 0 tokens e) : Target (word :: tokens) e

/-- `Statement tokens s`: the tokens spell the statement. -/
inductive Statement : List Token → Stmt → Prop where
  | assign {target sign : Token} {tokens : List Token} {e : Expr}
      (isName : target.kind = .identifier) (isAssign : sign.kind = .assign)
      (value : Derives 0 tokens e) : Statement (target :: sign :: tokens) (.assign target.lexeme e)
  | store {word opening comma closing : Token} {first second : List Token} {a v : Expr}
      (isStore : word.kind = .store) (opens : opening.kind = .leftParen)
      (address : Derives 0 first a) (isComma : comma.kind = .comma) (value : Derives 0 second v)
      (closes : closing.kind = .rightParen) :
      Statement (word :: opening :: (first ++ comma :: (second ++ [closing]))) (.store a v)
  | goto {word : Token} {tokens : List Token} {e : Expr} (isGoto : word.kind = .goto)
      (target : Derives 0 tokens e) : Statement (word :: tokens) (.goto e)
  | assert {word : Token} {tokens : List Token} {e : Expr} (isAssert : word.kind = .assert)
      (condition : Derives 0 tokens e) : Statement (word :: tokens) (.assert e)
  | branch {ifWord thenWord elseWord : Token} {tokens first second : List Token} {c t e : Expr}
      (isIf : ifWord.kind = .ifWord) (condition : Derives 0 tokens c)
      (isThen : thenWord.kind = .thenWord) (thenTarget : Target first t)
      (isElse : elseWord.kind = .elseWord) (elseTarget : Target second e) :
      Statement (ifWord :: (tokens ++ thenWord :: (first ++ elseWord :: second))) (.branch c t e)

/-- `Statements tokens ss`: the tokens spell the statements one after the other. -/
inductive Statements : List Token → List Stmt → Prop where
  | nil : Statements [] []
  | cons {tokens others : List Token} {s : Stmt} {ss : List Stmt} (first : Statement tokens s)
      (rest : Statements others ss) : Statements (tokens ++ others) (s :: ss)

/-- `Spells tokens p`: the tokens spell the program. -/
def Spells (tokens : List Token) (p : Program) : Prop :=
  Statements tokens p.statements

/-- The strengths of the binary operators are numbered from one to seven. -/
theorem precedence_bounds (op : BinaryOp) : 1 ≤ op.precedence ∧ op.precedence ≤ 7 := by
  cases op <;> decide

/-- A sign stands on a level exactly if it is the sign of an operator of that strength. -/
theorem mem_binaryLevels {level : Nat} {kind : TokenKind} {op : BinaryOp} :
    (kind, op) ∈ binaryLevels.getD level [] ↔
      kind.binaryOp? = some op ∧ op.precedence = level + 1 := by
  constructor
  · intro listed
    have table : ∀ l < 7, ∀ pair ∈ binaryLevels.getD l [],
        pair.1.binaryOp? = some pair.2 ∧ pair.2.precedence = l + 1 := by decide
    by_cases inside : level < 7
    · exact table level inside (kind, op) listed
    · have outside : binaryLevels[level]? = none :=
        List.getElem?_eq_none (show 7 ≤ level by omega)
      simp [List.getD_eq_getElem?_getD, outside] at listed
  · rintro ⟨sign, strength⟩
    obtain rfl : level = op.precedence - 1 := by omega
    cases kind <;> cases sign <;> decide

/-- The unary signs are the signs of the unary operators. -/
theorem mem_unarySigns {kind : TokenKind} {op : UnaryOp} :
    (kind, op) ∈ unarySigns ↔ kind.unaryOp? = some op := by
  constructor
  · intro listed
    have table : ∀ pair ∈ unarySigns, pair.1.unaryOp? = some pair.2 := by decide
    exact table (kind, op) listed
  · intro sign
    cases kind <;> cases sign <;> decide

namespace Derives

/-- What a level holds, every looser level holds too. -/
theorem loosen {level tight : Nat} {tokens : List Token} {e : Expr}
    (derived : Derives tight tokens e) (looser : level ≤ tight) (bounded : tight ≤ primaryLevel) :
    Derives level tokens e := by
  obtain ⟨steps, rfl⟩ := Nat.le.dest looser
  clear looser
  induction steps with
  | zero => exact derived
  | succ steps ih => exact ih (.tighter (by omega) derived) (by omega)

/-- An expression is spelled by at least one token. -/
theorem tokens_ne_nil {level : Nat} {tokens : List Token} {e : Expr}
    (derived : Derives level tokens e) : tokens ≠ [] := by
  induction derived with
  | tighter _ _ ih => exact ih
  | _ => simp

/-- No expression holds an end token. -/
theorem kind_ne_eof {level : Nat} {tokens : List Token} {e : Expr}
    (derived : Derives level tokens e) : ∀ token ∈ tokens, token.kind ≠ .eof := by
  induction derived with
  | tighter _ _ ih => exact ih
  | binary listed _ _ ihFirst ihSecond =>
    obtain ⟨stands, _⟩ := mem_binaryLevels.mp listed
    refine List.forall_mem_append.mpr ⟨ihFirst, List.forall_mem_cons.mpr ⟨?_, ihSecond⟩⟩
    intro atEnd
    simp [atEnd, TokenKind.binaryOp?] at stands
  | unary listed _ ih =>
    have stands := mem_unarySigns.mp listed
    refine List.forall_mem_cons.mpr ⟨?_, ih⟩
    intro atEnd
    simp [atEnd, TokenKind.unaryOp?] at stands
  | integer isInteger _ => simp [isInteger]
  | name isName => simp [isName]
  | load isLoad opens _ closes ih => simpa [isLoad, opens, closes, or_imp, forall_and] using ih
  | input isInput => simp [isInput]
  | inputFrom isInput opens isName closes => simp [isInput, opens, isName, closes]
  | group opens _ closes ih => simpa [opens, closes, or_imp, forall_and] using ih

end Derives

/-- No target holds an end token. -/
theorem Target.kind_ne_eof {tokens : List Token} {e : Expr} (target : Target tokens e) :
    ∀ token ∈ tokens, token.kind ≠ .eof := by
  cases target with
  | bare target => exact target.kind_ne_eof
  | goto isGoto target => exact List.forall_mem_cons.mpr ⟨by simp [isGoto], target.kind_ne_eof⟩

/-- No statement holds an end token. -/
theorem Statement.kind_ne_eof {tokens : List Token} {s : Stmt} (spelled : Statement tokens s) :
    ∀ token ∈ tokens, token.kind ≠ .eof := by
  cases spelled with
  | assign isName isAssign value =>
    simpa [isName, isAssign] using value.kind_ne_eof
  | store isStore opens address isComma value closes =>
    simpa [isStore, opens, isComma, closes, or_imp, forall_and] using
      ⟨address.kind_ne_eof, value.kind_ne_eof⟩
  | goto isGoto target => simpa [isGoto] using target.kind_ne_eof
  | assert isAssert condition => simpa [isAssert] using condition.kind_ne_eof
  | branch isIf condition isThen thenTarget isElse elseTarget =>
    simpa [isIf, isThen, isElse, or_imp, forall_and] using
      ⟨condition.kind_ne_eof, thenTarget.kind_ne_eof, elseTarget.kind_ne_eof⟩

/-- No statements hold an end token. -/
theorem Statements.kind_ne_eof {tokens : List Token} {ss : List Stmt}
    (spelled : Statements tokens ss) : ∀ token ∈ tokens, token.kind ≠ .eof := by
  induction spelled with
  | nil => simp
  | cons first _ ih => exact List.forall_mem_append.mpr ⟨first.kind_ne_eof, ih⟩

/-- A statement is spelled by at least one token. -/
theorem Statement.tokens_ne_nil {tokens : List Token} {s : Stmt} (spelled : Statement tokens s) :
    tokens ≠ [] := by
  cases spelled <;> simp

end Grammar

end FlatIL
