import FlatIL.Expr

/-!
# Statements and programs

Control flow is flat. A program is a sequence of statements numbered from zero,
and every jump names a statement by a number that is computed when the jump is
taken.
-/

namespace FlatIL

/-- A statement. -/
inductive Stmt where
  /-- Bind a variable to a value. -/
  | assign (target : String) (value : Expr)
  /-- Write a memory cell; the address is evaluated before the value. -/
  | store (address value : Expr)
  /-- Continue at a computed statement. -/
  | goto (target : Expr)
  /-- Continue only if the condition is not zero. -/
  | assert (condition : Expr)
  /-- Continue at one of two computed statements; the other target is not evaluated. -/
  | branch (condition thenTarget elseTarget : Expr)
  deriving DecidableEq, Repr

namespace Stmt

/-- The tag of a statement in a stored model. -/
def kind : Stmt → String
  | assign .. => "assignment"
  | store .. => "store"
  | goto _ => "goto"
  | assert _ => "assert"
  | branch .. => "if_goto"

/-- The number of nodes on the longest way down a statement, itself included. -/
def depth : Stmt → Nat
  | assign _ e => e.depth + 1
  | store a v => max a.depth v.depth + 1
  | goto t => t.depth + 1
  | assert c => c.depth + 1
  | branch c t e => max c.depth (max t.depth e.depth) + 1

/-- Every name in the statement is a name of the language. -/
def WellFormed : Stmt → Prop
  | assign x e => Name.isName x ∧ e.WellFormed
  | store a v => a.WellFormed ∧ v.WellFormed
  | goto t => t.WellFormed
  | assert c => c.WellFormed
  | branch c t e => c.WellFormed ∧ t.WellFormed ∧ e.WellFormed

/-- Being well formed can be decided. -/
instance (s : Stmt) : Decidable s.WellFormed := by
  cases s <;> unfold WellFormed <;> infer_instance

/-- The names in the statement in the order they are written. -/
def names : Stmt → List String
  | assign x e => x :: e.names
  | store a v => a.names ++ v.names
  | goto t => t.names
  | assert c => c.names
  | branch c t e => c.names ++ t.names ++ e.names

end Stmt

/-- A program: its statements, each numbered by its position. -/
structure Program where
  statements : List Stmt := []
  deriving DecidableEq, Repr

namespace Program

/-- The number of statements. -/
def size (p : Program) : Nat :=
  p.statements.length

/-- Every name in the program is a name of the language. -/
def WellFormed (p : Program) : Prop :=
  ∀ s ∈ p.statements, s.WellFormed

/-- Being well formed can be decided. -/
instance (p : Program) : Decidable p.WellFormed :=
  inferInstanceAs (Decidable (∀ s ∈ p.statements, s.WellFormed))

/-- The statement at a position; a negative position counts from the end. -/
def at? (p : Program) (position : Int) : Option Stmt :=
  let index := if position < 0 then position + p.size else position
  if index < 0 then none else p.statements[index.toNat]?

end Program

end FlatIL
