import FlatIL.Draft.Walk
import FlatIL.Run

/-!
# Executing drafts

A draft is executed by the tags of its nodes. A tag or an operator that does not
exist is no fault of the run: it stops the execution at that point, with the
statement already counted and the input already read.
-/

namespace FlatIL

/-- What cannot be executed at all. -/
inductive Unsupported where
  | statementTag (tag : String)
  | expressionTag (tag : String)
  | binaryOperator (name : String)
  | unaryOperator (name : String)
  /-- A draft lacks a field that is asked for. -/
  | noField (name : String)
  deriving DecidableEq, Repr

/-- The text of an error. -/
def Unsupported.message : Unsupported → String
  | statementTag tag => "Unsupported statement kind: " ++ tag
  | expressionTag tag => "Unsupported expression kind: " ++ tag
  | binaryOperator name => "Unsupported binary op: " ++ name
  | unaryOperator name => "Unsupported unary op: " ++ name
  | noField name => name

/-- Why an execution stops. -/
inductive Trap where
  | fault (fault : Fault)
  | unsupported (error : Unsupported)
  deriving DecidableEq, Repr

/-- Why a run cannot go on although nothing is wrong with its state. -/
inductive EngineError where
  /-- The budget is below zero. -/
  | negativeBudget (budget : Int)
  /-- The run has left the program. -/
  | counter (error : CounterError)
  /-- The run has come to something that cannot be executed. -/
  | unsupported (error : Unsupported)
  deriving DecidableEq, Repr

/-- The text of an error. -/
def EngineError.message : EngineError → String
  | negativeBudget budget => (RunError.negativeBudget budget).message
  | counter error => error.message
  | unsupported error => error.message

/-- A computation that may read input and may be stopped. -/
abbrev Trapping := ExceptT Trap (StateM Inputs)

namespace Trapping

/-- A result that may be a fault. -/
def ofExcept {α : Type} (result : Except Fault α) : Trapping α :=
  ExceptT.mk (pure (result.mapError Trap.fault))

/-- Stops at something that cannot be executed. -/
def unsupported {α : Type} (error : Unsupported) : Trapping α :=
  ExceptT.mk (pure (.error (.unsupported error)))

/-- The next value of an input source. -/
def next (source : String) : Trapping Word :=
  ExceptT.mk fun inputs =>
    let (result, inputs) := inputs.read source
    (result.mapError Trap.fault, inputs)

/-- Runs a computation on input sources. -/
def run {α : Type} (trapping : Trapping α) (inputs : Inputs) : Except Trap α × Inputs :=
  (ExceptT.run trapping).run inputs

end Trapping

namespace Draft

/-- The word that a literal holds. -/
def literalWord (draft : Draft) : Trapping Word :=
  match draft.plainField? "value" with
  | some (.int n) => pure (Word.wrap n)
  | _ => .unsupported (.noField "value")

/-- The form that the tag of a draft names. -/
def taggedForm (draft : Draft) : Option NodeForm :=
  draft.tag?.bind NodeForm.ofTag?

/-- The value of a draft in the place of an expression, from one value for each operand. -/
def evalNode (env : Env) (memory : Memory) (draft : Draft) (values : List Word)
    (fits : values.length = (operandNames draft.taggedForm).length) : Trapping Word :=
  match draft.taggedForm, values, fits with
  | some .literal, _, _ => draft.literalWord
  | some .variableRef, _, _ => .ofExcept (env.lookup (draft.textField "name"))
  | some .getInput, _, _ => .next (draft.textField "source")
  | some .load, [address], _ => .ofExcept (memory.lookup address)
  | some .unary, [operand], _ =>
    match UnaryOp.ofName? (draft.textField "op") with
    | some op => pure (op.apply operand)
    | none => .unsupported (.unaryOperator (draft.textField "op"))
  | some .binary, [left, right], _ =>
    match BinaryOp.ofName? (draft.textField "op") with
    | some op => .ofExcept (op.apply left right)
    | none => .unsupported (.binaryOperator (draft.textField "op"))
  | some .assignment, _, _ | some .store, _, _ | some .goto, _, _ | some .assert, _, _
  | some .ifGoto, _, _ | none, _, _ =>
    .unsupported ((draft.tag?.map .expressionTag).getD (.noField "kind"))

/-- What each node of a draft computes in the place of an expression. -/
def evalAlgebra (env : Env) (memory : Memory) : Algebra Trapping Word where
  form := taggedForm
  missing name := .unsupported (.noField name)
  node := evalNode env memory

/-- The value of a draft in the place of an expression. -/
def eval (env : Env) (memory : Memory) (draft : Draft) : Trapping Word :=
  draft.traverse (evalAlgebra env memory)

/-- The value of a field that holds an expression. -/
def evalField (env : Env) (memory : Memory) (draft : Draft) (name : String) : Trapping Word :=
  match draft.field? name with
  | none => .unsupported (.noField name)
  | some value => value.eval env memory

/-- What a draft in the place of a statement does. -/
def action (size : Nat) (pc : Int) (env : Env) (memory : Memory) (draft : Draft) :
    Trapping Change := do
  match draft.taggedForm with
  | some .assignment =>
    let value ← draft.evalField env memory "value"
    return .bind (draft.textField "target") value
  | some .store =>
    let address ← draft.evalField env memory "address"
    let value ← draft.evalField env memory "value"
    return .write address value
  | some .goto =>
    let target ← draft.evalField env memory "target"
    .ofExcept (Change.jumpTo size target)
  | some .assert =>
    let condition ← draft.evalField env memory "condition"
    .ofExcept (Change.assertion pc condition)
  | some .ifGoto =>
    let condition ← draft.evalField env memory "condition"
    let name := if condition.truth then "then_target" else "else_target"
    let target ← draft.evalField env memory name
    .ofExcept (Change.jumpTo size target)
  | _ => .unsupported ((draft.tag?.map .statementTag).getD (.noField "kind"))

/-- Executes the next of some drafts, as `Program.step` does with statements. -/
def step (drafts : List Draft) (s : State) : State × Option EngineError :=
  let size := drafts.length
  if s.isHalted then (s, none)
  else if s.pc < 0 ∨ size < s.pc then (s, some (.counter { pc := s.pc, size }))
  else
    match drafts[s.pc.toNat]? with
    | none => (s.succeed, none)
    | some draft =>
      match (draft.action size s.pc s.env s.memory).run s.inputs with
      | (.error (.fault fault), inputs) => ((s.count inputs).fail fault, none)
      | (.error (.unsupported error), inputs) => (s.count inputs, some (.unsupported error))
      | (.ok change, inputs) => (((s.count inputs).apply change).settle size, none)

/-- Runs drafts for at most a number of steps, or until the run ends or stops. The
result is absent if the run goes on after that many steps. -/
def runWithin (drafts : List Draft) :
    (patience : Nat) → State → State × Option (Option EngineError)
  | 0, s => (s, if s.isRunning then none else some none)
  | patience + 1, s =>
    if s.isRunning then
      match step drafts s with
      | (t, some error) => (t, some (some error))
      | (t, none) => runWithin drafts patience t
    else (s, some none)

end Draft

end FlatIL
