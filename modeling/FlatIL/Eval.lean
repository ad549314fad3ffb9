import FlatIL.Expr.Fold
import FlatIL.State

/-!
# Evaluating expressions

Operands are evaluated from left to right before their operator, all of them. An
evaluation reads variables and memory, moves the cursors of the input sources it
reads, and changes nothing else; a fault keeps the cursors where it found them.
-/

namespace FlatIL

/-- A computation that may read input and may fault; input read before a fault stays read. -/
abbrev Reading := ExceptT Fault (StateM Inputs)

namespace Reading

/-- The next value of an input source. -/
def next (source : String) : Reading Word :=
  ExceptT.mk fun inputs => inputs.read source

/-- A result that may be a fault. -/
def ofExcept {α : Type} (result : Except Fault α) : Reading α :=
  ExceptT.mk (pure result)

/-- Runs a computation on input sources. -/
def run {α : Type} (reading : Reading α) (inputs : Inputs) : Except Fault α × Inputs :=
  (ExceptT.run reading).run inputs

end Reading

/-- The value bound to a variable. -/
def Env.lookup (env : Env) (name : String) : Except Fault Word :=
  match env.get? name with
  | some value => .ok value
  | none => .error (.undefinedVariable name)

/-- The contents of a memory cell. -/
def Memory.lookup (memory : Memory) (address : Word) : Except Fault Word :=
  match memory.get? address with
  | some value => .ok value
  | none => .error (.unwrittenAddress address)

namespace Expr

/-- How each kind of node is evaluated. -/
def evalAlgebra (env : Env) (memory : Memory) : Algebra Reading Word where
  lit value := pure value
  var name := Reading.ofExcept (env.lookup name)
  input source := Reading.next source
  load _ address := Reading.ofExcept (memory.lookup address)
  unary op _ operand := pure (op.apply operand)
  binary op _ _ left right := Reading.ofExcept (op.apply left right)

/-- The value of an expression. -/
def eval (e : Expr) (env : Env) (memory : Memory) : Reading Word :=
  e.traverse (evalAlgebra env memory)

/-- The meaning of an expression: its value, or the first fault met from left to right,
and the input sources as they are then. -/
def denote (env : Env) (memory : Memory) : Expr → Inputs → Except Fault Word × Inputs
  | .lit value, inputs => (.ok value, inputs)
  | .var name, inputs => (env.lookup name, inputs)
  | .input source, inputs => inputs.read source
  | .load address, inputs =>
    match denote env memory address inputs with
    | (.ok a, inputs) => (memory.lookup a, inputs)
    | (.error fault, inputs) => (.error fault, inputs)
  | .unary op operand, inputs =>
    match denote env memory operand inputs with
    | (.ok v, inputs) => (.ok (op.apply v), inputs)
    | (.error fault, inputs) => (.error fault, inputs)
  | .binary op left right, inputs =>
    match denote env memory left inputs with
    | (.error fault, inputs) => (.error fault, inputs)
    | (.ok l, inputs) =>
      match denote env memory right inputs with
      | (.error fault, inputs) => (.error fault, inputs)
      | (.ok r, inputs) => (op.apply l r, inputs)

end Expr

namespace State

/-- Evaluates an expression in a state, which keeps the cursors that moved. -/
def evaluate (s : State) (e : Expr) : Except Fault Word × State :=
  let (result, inputs) := (e.eval s.env s.memory).run s.inputs
  (result, { s with inputs })

end State

end FlatIL
