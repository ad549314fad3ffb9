import FlatIL.Parser.Expr
import FlatIL.Proofs.Grammar
import Mathlib.Order.MinMax

/-!
# How deep trees are nested

Reading an expression calls the rules of the grammar one inside the other. How many of these calls
are under way at a time depends on how the tokens are grouped: every memory read and every group
leads from a primary to one inside of it, and so does every unary operator by one call. The grammar
is repeated here with this number beside each tree. A tree has a least one, which is that of the
text that groups only what it must.
-/

namespace FlatIL

namespace Grammar

/-- The calls that lead from a primary to one inside of it: an expression, the levels of operators
and one more below them, the unary operators, and the primary. -/
def descent : Nat :=
  Parser.levels + 4

/-- `Takes level tokens e calls`: at a level, the tokens spell the expression, and reading them has
`calls` calls under way at a time beside those that lead from the level to a primary. -/
inductive Takes : Nat → List Token → Expr → Nat → Prop where
  | tighter {level calls : Nat} {tokens : List Token} {e : Expr} (loose : level < primaryLevel)
      (inner : Takes (level + 1) tokens e calls) : Takes level tokens e calls
  | binary {level m n : Nat} {left right : List Token} {sign : Token} {op : BinaryOp} {l r : Expr}
      (listed : (sign.kind, op) ∈ binaryLevels.getD level []) (first : Takes level left l m)
      (second : Takes (level + 1) right r n) :
      Takes level (left ++ sign :: right) (.binary op l r) (max m n)
  | unary {calls : Nat} {sign : Token} {op : UnaryOp} {tokens : List Token} {e : Expr}
      (listed : (sign.kind, op) ∈ unarySigns) (operand : Takes unaryLevel tokens e calls) :
      Takes unaryLevel (sign :: tokens) (.unary op e) (calls + 1)
  | integer {token : Token} {value : Word} (isInteger : token.kind = .integer)
      (denoted : token.value = .int value.toNat) : Takes primaryLevel [token] (.lit value) 1
  | name {token : Token} (isName : token.kind = .identifier) :
      Takes primaryLevel [token] (.var token.lexeme) 1
  | load {calls : Nat} {word opening closing : Token} {tokens : List Token} {e : Expr}
      (isLoad : word.kind = .load) (opens : opening.kind = .leftParen)
      (address : Takes 0 tokens e calls) (closes : closing.kind = .rightParen) :
      Takes primaryLevel (word :: opening :: (tokens ++ [closing])) (.load e) (calls + descent)
  | input {word : Token} (isInput : word.kind = .getInput) :
      Takes primaryLevel [word] (.input "stdin") 1
  | inputFrom {word opening source closing : Token} (isInput : word.kind = .getInput)
      (opens : opening.kind = .leftParen) (isName : source.kind = .identifier)
      (closes : closing.kind = .rightParen) :
      Takes primaryLevel [word, opening, source, closing] (.input source.lexeme) 1
  | group {calls : Nat} {opening closing : Token} {tokens : List Token} {e : Expr}
      (opens : opening.kind = .leftParen) (inner : Takes 0 tokens e calls)
      (closes : closing.kind = .rightParen) :
      Takes primaryLevel (opening :: (tokens ++ [closing])) e (calls + descent)

/-- `TargetTakes tokens e calls`: the tokens spell the target of a branch. -/
inductive TargetTakes : List Token → Expr → Nat → Prop where
  | bare {calls : Nat} {tokens : List Token} {e : Expr} (target : Takes 0 tokens e calls) :
      TargetTakes tokens e calls
  | goto {calls : Nat} {word : Token} {tokens : List Token} {e : Expr} (isGoto : word.kind = .goto)
      (target : Takes 0 tokens e calls) : TargetTakes (word :: tokens) e calls

/-- `StatementTakes tokens s calls`: the tokens spell the statement, and reading them has `calls`
calls under way at a time. -/
inductive StatementTakes : List Token → Stmt → Nat → Prop where
  | assign {calls : Nat} {target sign : Token} {tokens : List Token} {e : Expr}
      (isName : target.kind = .identifier) (isAssign : sign.kind = .assign)
      (value : Takes 0 tokens e calls) :
      StatementTakes (target :: sign :: tokens) (.assign target.lexeme e) (calls + descent)
  | store {m n : Nat} {word opening comma closing : Token} {first second : List Token} {a v : Expr}
      (isStore : word.kind = .store) (opens : opening.kind = .leftParen)
      (address : Takes 0 first a m) (isComma : comma.kind = .comma) (value : Takes 0 second v n)
      (closes : closing.kind = .rightParen) :
      StatementTakes (word :: opening :: (first ++ comma :: (second ++ [closing]))) (.store a v)
        (max m n + descent)
  | goto {calls : Nat} {word : Token} {tokens : List Token} {e : Expr} (isGoto : word.kind = .goto)
      (target : Takes 0 tokens e calls) :
      StatementTakes (word :: tokens) (.goto e) (calls + descent)
  | assert {calls : Nat} {word : Token} {tokens : List Token} {e : Expr}
      (isAssert : word.kind = .assert) (condition : Takes 0 tokens e calls) :
      StatementTakes (word :: tokens) (.assert e) (calls + descent)
  | branch {k m n : Nat} {ifWord thenWord elseWord : Token} {tokens first second : List Token}
      {c t e : Expr} (isIf : ifWord.kind = .ifWord) (condition : Takes 0 tokens c k)
      (isThen : thenWord.kind = .thenWord) (thenTarget : TargetTakes first t m)
      (isElse : elseWord.kind = .elseWord) (elseTarget : TargetTakes second e n) :
      StatementTakes (ifWord :: (tokens ++ thenWord :: (first ++ elseWord :: second)))
        (.branch c t e) (max k (max m n) + descent)

/-- `StatementsTake tokens ss calls`: the tokens spell the statements one after the other. -/
inductive StatementsTake : List Token → List Stmt → Nat → Prop where
  | nil : StatementsTake [] [] 0
  | cons {m n : Nat} {tokens others : List Token} {s : Stmt} {ss : List Stmt}
      (first : StatementTakes tokens s m) (rest : StatementsTake others ss n) :
      StatementsTake (tokens ++ others) (s :: ss) (max m n)

/-! ## The number beside the grammar -/

section

variable {level calls : Nat} {tokens : List Token} {e : Expr}

/-- What takes some calls to read is spelled. -/
theorem Takes.derives (taken : Takes level tokens e calls) : Derives level tokens e := by
  induction taken with
  | tighter loose _ ih => exact .tighter loose ih
  | binary listed _ _ ihFirst ihSecond => exact .binary listed ihFirst ihSecond
  | unary listed _ ih => exact .unary listed ih
  | integer isInteger denoted => exact .integer isInteger denoted
  | name isName => exact .name isName
  | load isLoad opens _ closes ih => exact .load isLoad opens ih closes
  | input isInput => exact .input isInput
  | inputFrom isInput opens isName closes => exact .inputFrom isInput opens isName closes
  | group opens _ closes ih => exact .group opens ih closes

/-- What is spelled takes some calls to read. -/
theorem Derives.exists_takes (derived : Derives level tokens e) :
    ∃ calls, Takes level tokens e calls := by
  induction derived with
  | tighter loose _ ih => exact ih.imp fun _ => .tighter loose
  | binary listed _ _ ihFirst ihSecond =>
    obtain ⟨m, first⟩ := ihFirst
    obtain ⟨n, second⟩ := ihSecond
    exact ⟨max m n, .binary listed first second⟩
  | unary listed _ ih =>
    obtain ⟨n, operand⟩ := ih
    exact ⟨n + 1, .unary listed operand⟩
  | integer isInteger denoted => exact ⟨1, .integer isInteger denoted⟩
  | name isName => exact ⟨1, .name isName⟩
  | load isLoad opens _ closes ih =>
    obtain ⟨n, address⟩ := ih
    exact ⟨n + descent, .load isLoad opens address closes⟩
  | input isInput => exact ⟨1, .input isInput⟩
  | inputFrom isInput opens isName closes => exact ⟨1, .inputFrom isInput opens isName closes⟩
  | group opens _ closes ih =>
    obtain ⟨n, inner⟩ := ih
    exact ⟨n + descent, .group opens inner closes⟩

/-- What a level holds, every looser level holds with as many calls. -/
theorem Takes.loosen {tight : Nat} (taken : Takes tight tokens e calls) (looser : level ≤ tight)
    (bounded : tight ≤ primaryLevel) : Takes level tokens e calls := by
  obtain ⟨steps, rfl⟩ := Nat.le.dest looser
  clear looser
  induction steps with
  | zero => exact taken
  | succ steps ih => exact ih (.tighter (by omega) taken) (by omega)

/-- Groups one inside the other take as many calls more as lead from each to the next. -/
theorem Takes.group_replicate {opening closing : Token} (count : Nat)
    (taken : Takes 0 tokens e calls) (opens : opening.kind = .leftParen)
    (closes : closing.kind = .rightParen) :
    Takes 0 (List.replicate count opening ++ (tokens ++ List.replicate count closing)) e
      (calls + count * descent) := by
  induction count with
  | zero => simpa using taken
  | succ count ih =>
    have grouped := (Takes.group opens ih closes).loosen (Nat.zero_le _) (Nat.le_refl _)
    rw [List.replicate_succ, List.replicate_succ', Nat.succ_mul, ← Nat.add_assoc]
    simpa only [List.append_assoc, List.cons_append] using grouped

/-- A target that takes some calls to read is spelled. -/
theorem TargetTakes.target (taken : TargetTakes tokens e calls) : Target tokens e := by
  cases taken with
  | bare target => exact .bare target.derives
  | goto isGoto target => exact .goto isGoto target.derives

/-- A target that is spelled takes some calls to read. -/
theorem Target.exists_takes (target : Target tokens e) : ∃ calls, TargetTakes tokens e calls := by
  cases target with
  | bare target => exact target.exists_takes.imp fun _ => .bare
  | goto isGoto target => exact target.exists_takes.imp fun _ => .goto isGoto

variable {s : Stmt} {ss : List Stmt}

/-- A statement that takes some calls to read is spelled. -/
theorem StatementTakes.statement (taken : StatementTakes tokens s calls) : Statement tokens s := by
  cases taken with
  | assign isName isAssign value => exact .assign isName isAssign value.derives
  | store isStore opens address isComma value closes =>
    exact .store isStore opens address.derives isComma value.derives closes
  | goto isGoto target => exact .goto isGoto target.derives
  | assert isAssert condition => exact .assert isAssert condition.derives
  | branch isIf condition isThen thenTarget isElse elseTarget =>
    exact .branch isIf condition.derives isThen thenTarget.target isElse elseTarget.target

/-- A statement that is spelled takes some calls to read. -/
theorem Statement.exists_takes (spelled : Statement tokens s) :
    ∃ calls, StatementTakes tokens s calls := by
  cases spelled with
  | assign isName isAssign value =>
    obtain ⟨n, value⟩ := value.exists_takes
    exact ⟨_, .assign isName isAssign value⟩
  | store isStore opens address isComma value closes =>
    obtain ⟨m, address⟩ := address.exists_takes
    obtain ⟨n, value⟩ := value.exists_takes
    exact ⟨_, .store isStore opens address isComma value closes⟩
  | goto isGoto target =>
    obtain ⟨n, target⟩ := target.exists_takes
    exact ⟨_, .goto isGoto target⟩
  | assert isAssert condition =>
    obtain ⟨n, condition⟩ := condition.exists_takes
    exact ⟨_, .assert isAssert condition⟩
  | branch isIf condition isThen thenTarget isElse elseTarget =>
    obtain ⟨k, condition⟩ := condition.exists_takes
    obtain ⟨m, thenTarget⟩ := thenTarget.exists_takes
    obtain ⟨n, elseTarget⟩ := elseTarget.exists_takes
    exact ⟨_, .branch isIf condition isThen thenTarget isElse elseTarget⟩

/-- Statements that take some calls to read are spelled. -/
theorem StatementsTake.statements (taken : StatementsTake tokens ss calls) :
    Statements tokens ss := by
  induction taken with
  | nil => exact .nil
  | cons first _ ih => exact .cons first.statement ih

/-- Statements that are spelled take some calls to read. -/
theorem Statements.exists_takes (spelled : Statements tokens ss) :
    ∃ calls, StatementsTake tokens ss calls := by
  induction spelled with
  | nil => exact ⟨0, .nil⟩
  | cons first _ ih =>
    obtain ⟨m, first⟩ := first.exists_takes
    obtain ⟨n, rest⟩ := ih
    exact ⟨max m n, .cons first rest⟩

end

end Grammar

open Grammar

/-! ## The number of a tree -/

namespace Expr

/-- The level of the grammar that an expression is written on. -/
def level (e : Expr) : Nat :=
  e.precedence - 1

/-- Every expression is written on a level of the grammar. -/
theorem level_le (e : Expr) : e.level ≤ primaryLevel := by
  cases e with
  | binary op l r =>
    have bounds := precedence_bounds op
    simp only [level, precedence, primaryLevel]
    omega
  | _ => simp [level, precedence, primaryLevel]

/-- Levels are counted from zero and strengths from one. -/
theorem level_lt_iff {e : Expr} {level : Nat} : e.level < level ↔ e.precedence < level + 1 := by
  have positive : 1 ≤ e.precedence := by
    cases e with
    | binary op l r => exact (precedence_bounds op).1
    | lit _ | var _ | load _ | unary _ _ | input _ => simp [precedence]
  rw [Expr.level]
  omega

/-- The calls that are under way at a time when a tree is read that is grouped only where an operand
binds too loosely for its place, from the call for a primary on. -/
def calls : Expr → Nat
  | lit _ | var _ | input _ => 1
  | load e => e.calls + descent
  | unary _ e => e.calls + (if e.precedence < 8 then descent else 0) + 1
  | binary op l r =>
    max (l.calls + if l.precedence < op.precedence then descent else 0)
      (r.calls + if r.precedence ≤ op.precedence then descent else 0)

end Expr

/-- The calls that are under way at a time when a statement is read. -/
def Stmt.calls : Stmt → Nat
  | assign _ value => value.calls + descent
  | store address value => max address.calls value.calls + descent
  | goto target => target.calls + descent
  | assert condition => condition.calls + descent
  | branch condition thenTarget elseTarget =>
    max condition.calls (max thenTarget.calls elseTarget.calls) + descent

/-- The calls that are under way at a time when statements are read one after the other. -/
def Stmt.callsOf : List Stmt → Nat
  | [] => 0
  | s :: ss => max s.calls (callsOf ss)

/-- The calls that are under way at a time when a program is read. -/
def Program.calls (p : Program) : Nat :=
  Stmt.callsOf p.statements + 1

namespace Grammar

section

variable {level calls : Nat} {tokens : List Token} {e : Expr}

/-- However tokens spell a tree on a level, they take no fewer calls than the tree needs, with a
group around it if it binds too loosely for the level. -/
theorem Takes.calls_le (taken : Takes level tokens e calls) :
    e.calls + (if e.level < level then descent else 0) ≤ calls := by
  induction taken with
  | tighter loose inner ih => split at ih <;> split <;> omega
  | @binary level m n left right sign op l r listed first second ihFirst ihSecond =>
    obtain ⟨stands, strength⟩ := mem_binaryLevels.mp listed
    have own : (Expr.binary op l r).level = level := by
      rw [Expr.level, Expr.precedence, strength, Nat.add_sub_cancel]
    rw [own, if_neg (Nat.lt_irrefl level), Nat.add_zero, Expr.calls]
    simp only [Expr.level_lt_iff, ← strength, Nat.lt_add_one_iff] at ihFirst ihSecond
    exact max_le_max ihFirst ihSecond
  | @unary n sign op tokens e listed operand ih =>
    have own : (Expr.unary op e).level = unaryLevel := rfl
    rw [own, if_neg (Nat.lt_irrefl unaryLevel), Nat.add_zero, Expr.calls]
    simp only [Expr.level_lt_iff] at ih
    exact Nat.succ_le_succ ih
  | integer isInteger denoted => simp [Expr.calls, Expr.level, Expr.precedence, primaryLevel]
  | name isName => simp [Expr.calls, Expr.level, Expr.precedence, primaryLevel]
  | load isLoad opens address closes ih =>
    simpa [Expr.calls, Expr.level, Expr.precedence, primaryLevel] using ih
  | input isInput => simp [Expr.calls, Expr.level, Expr.precedence, primaryLevel]
  | inputFrom isInput opens isName closes =>
    simp [Expr.calls, Expr.level, Expr.precedence, primaryLevel]
  | group opens inner closes ih => split <;> omega

/-- On the loosest level, a tree needs no group around it. -/
theorem Takes.calls_le_of_loosest (taken : Takes 0 tokens e calls) : e.calls ≤ calls := by
  have least := taken.calls_le
  omega

/-- However tokens spell a target, they take no fewer calls than its tree needs. -/
theorem TargetTakes.calls_le (taken : TargetTakes tokens e calls) : e.calls ≤ calls := by
  cases taken with
  | bare target => exact target.calls_le_of_loosest
  | goto isGoto target => exact target.calls_le_of_loosest

variable {s : Stmt} {ss : List Stmt}

/-- However tokens spell a statement, they take no fewer calls than its trees need. -/
theorem StatementTakes.calls_le (taken : StatementTakes tokens s calls) : s.calls ≤ calls := by
  cases taken with
  | assign isName isAssign value => exact Nat.add_le_add_right value.calls_le_of_loosest _
  | store isStore opens address isComma value closes =>
    exact Nat.add_le_add_right
      (max_le_max address.calls_le_of_loosest value.calls_le_of_loosest) _
  | goto isGoto target => exact Nat.add_le_add_right target.calls_le_of_loosest _
  | assert isAssert condition => exact Nat.add_le_add_right condition.calls_le_of_loosest _
  | branch isIf condition isThen thenTarget isElse elseTarget =>
    exact Nat.add_le_add_right (max_le_max condition.calls_le_of_loosest
      (max_le_max thenTarget.calls_le elseTarget.calls_le)) _

/-- However tokens spell statements, they take no fewer calls than their trees need. -/
theorem StatementsTake.calls_le (taken : StatementsTake tokens ss calls) :
    Stmt.callsOf ss ≤ calls := by
  induction taken with
  | nil => exact Nat.le_refl 0
  | cons first _ ih => exact max_le_max first.calls_le ih

end

end Grammar

end FlatIL
