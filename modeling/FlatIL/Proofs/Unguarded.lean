import FlatIL.Proofs.Budget
import FlatIL.Proofs.Unguarded.Sources

/-!
# The machine in which everything can go wrong

The types of the machine leave no room for many a mishap: a node has the operands that its kind asks
for, a work list goes with a stack that is full enough, and a fault cannot leave a step. Here is the
machine without that. Nodes and statements are worked on by what is listed under their tags, values
are taken off a stack that may be too short, keys are looked up that may be missing, and a fault is
a mishap like any other, which a step must catch. Steps and runs of the machine are steps and runs
of this one, and so none of the mishaps ever happens, but for the one that a step itself reports. -/

namespace FlatIL

namespace Unguarded

/-! ## The machine -/

/-- The state of a run over sources that nothing keeps in step. -/
structure State where
  pc : Int
  env : Env
  memory : Memory
  inputs : Sources
  status : Status
  fault : Option Fault
  faultMessage : Option String
  steps : Nat
  deriving DecidableEq

/-- A computation that may change the state and may be stopped; what it changed before stays
changed. -/
abbrev Doing := ExceptT Mishap (StateM State)

namespace Doing

variable {α β : Type}

/-- Looks at the state. -/
def look (view : State → α) : Doing α :=
  ExceptT.mk fun s => (.ok (view s), s)

/-- Changes the state. -/
def alter (change : State → State) : Doing Unit :=
  ExceptT.mk fun s => (.ok (), change s)

/-- A result that may be a mishap. -/
def outcome (result : Except Mishap α) : Doing α :=
  ExceptT.mk fun s => (result, s)

/-- Stops. -/
def stop (mishap : Mishap) : Doing α :=
  outcome (.error mishap)

/-- Reads the next value of an input source. -/
def next (source : String) : Doing Word :=
  ExceptT.mk fun s => ((s.inputs.read source).1, { s with inputs := (s.inputs.read source).2 })

/-- Runs a computation in a state. -/
def run (doing : Doing α) (s : State) : Except Mishap α × State :=
  (ExceptT.run doing).run s

end Doing

open Doing

/-- What is evaluated at a node from the values of its operands. -/
abbrev Evaluator := Expr → List Word → Doing Word

/-- The value of a literal. -/
def evalLiteral : Evaluator
  | .lit value, _ => pure value
  | node, _ => stop (.noPart node.kind)

/-- The value of a variable, if it is bound. -/
def evalVariable : Evaluator
  | .var name, _ => do
    let env ← look State.env
    if env.contains name then outcome (demand env name)
    else stop (.fault (.undefinedVariable name))
  | node, _ => stop (.noPart node.kind)

/-- The contents of a memory cell, if it is written. -/
def evalLoad : Evaluator
  | _, [address] => do
    let memory ← look State.memory
    if memory.contains address then outcome (demand memory address)
    else stop (.fault (.unwrittenAddress address))
  | _, operands => stop (.operandCount operands.length)

/-- A binary operator, which must be one of those there are, applied to two operands. -/
def evalBinary : Evaluator
  | .binary op _ _, [left, right] =>
    match BinaryOp.ofName? op.name with
    | some op => outcome ((op.apply left right).mapError .fault)
    | none => stop (.unsupported op.name)
  | node, [_, _] => stop (.noPart node.kind)
  | _, operands => stop (.operandCount operands.length)

/-- A unary operator, which must be one of those there are, applied to one operand. -/
def evalUnary : Evaluator
  | .unary op _, [operand] =>
    match UnaryOp.ofName? op.name with
    | some op => pure (op.apply operand)
    | none => stop (.unsupported op.name)
  | node, [_] => stop (.noPart node.kind)
  | _, operands => stop (.operandCount operands.length)

/-- The next value of an input source. -/
def evalInput : Evaluator
  | .input source, _ => next source
  | node, _ => stop (.noPart node.kind)

/-- What is evaluated at a node, by its tag. -/
def evaluators : List (String × Evaluator) :=
  [("literal", evalLiteral), ("variable_ref", evalVariable), ("load", evalLoad),
    ("binary", evalBinary), ("unary", evalUnary), ("get_input", evalInput)]

/-- The address of a memory read. -/
def addressPart : Expr → Option (List Expr)
  | .load address => some [address]
  | _ => none

/-- The operands of a binary operator. -/
def sideParts : Expr → Option (List Expr)
  | .binary _ left right => some [left, right]
  | _ => none

/-- The operand of a unary operator. -/
def operandPart : Expr → Option (List Expr)
  | .unary _ operand => some [operand]
  | _ => none

/-- The operands of a node in the order of their evaluation, by its tag. -/
def operandLists : List (String × (Expr → Option (List Expr))) :=
  [("literal", fun _ => some []), ("variable_ref", fun _ => some []), ("load", addressPart),
    ("binary", sideParts), ("unary", operandPart), ("get_input", fun _ => some [])]

/-- The operands of a node, which must be listed and must have the parts that are asked for. -/
def operandsOf (node : Expr) : Except Mishap (List Expr) :=
  match operandLists.lookup node.kind with
  | none => .error .noKey
  | some parts =>
    match parts node with
    | none => .error (.noPart node.kind)
    | some operands => .ok operands

/-- The operands that are listed for a node are its operands. -/
theorem operandsOf_eq (node : Expr) : operandsOf node = .ok node.operands := by
  cases node <;> rfl

/-- Works through the nodes of a work list with a stack of values, the last one on top. The values
of the operands are taken off the stack as far as there are any. -/
def work (pending : List Expr.Pending) (values : List Word) : Doing (List Word) :=
  match pending with
  | [] => pure values
  | entry :: pending =>
    match evaluators.lookup entry.node.kind with
    | none => stop (.unsupported entry.node.kind)
    | some evaluator =>
      match _listed : operandsOf entry.node with
      | .error mishap => stop mishap
      | .ok operands =>
        if _waits : !entry.expanded && !operands.isEmpty then
          work (operands.map ({ node := · }) ++ { entry with expanded := true } :: pending) values
        else do
          let value ← evaluator entry.node (values.take operands.length).reverse
          work pending (value :: values.drop operands.length)
termination_by Expr.Pending.totalCost pending
decreasing_by
  · obtain rfl := Except.ok.inj ((operandsOf_eq entry.node).symm.trans _listed)
    have waits : entry.waits = true := _waits
    have fewer := Expr.Pending.totalCost_expand waits pending
    rw [Expr.Pending.expand, List.append_assoc] at fewer
    exact fewer
  · exact Nat.lt_add_of_pos_left entry.cost_pos

/-- Takes the last value off the stack. -/
def pop : List Word → Doing Word
  | [] => stop .emptyStack
  | value :: _ => pure value

/-- The value of an expression. -/
def eval (e : Expr) : Doing Word := do
  let values ← work [{ node := e }] []
  pop values

/-- What is executed for a statement in a program of the given size. -/
abbrev Executor := Nat → Stmt → Doing Unit

/-- Goes on with the next statement. -/
def proceed (s : State) : State :=
  { s with pc := s.pc + 1 }

/-- The target of a jump into a program of the given size. -/
def jumpTarget (size : Nat) (target : Expr) : Doing Word := do
  let target ← eval target
  if size ≤ target.toNat then stop (.fault (.invalidTarget target size)) else pure target

/-- Jumps. -/
def jump (target : Word) : Doing Unit :=
  alter fun s => { s with pc := target.toNat }

/-- Binds a variable. -/
def execAssign : Executor
  | _, .assign target value => do
    let value ← eval value
    alter fun s => proceed { s with env := s.env.insert target value }
  | _, stmt => stop (.noPart stmt.kind)

/-- Writes a memory cell. -/
def execStore : Executor
  | _, .store address value => do
    let address ← eval address
    let value ← eval value
    alter fun s => proceed { s with memory := s.memory.insert address value }
  | _, stmt => stop (.noPart stmt.kind)

/-- Continues at a computed statement. -/
def execGoto : Executor
  | size, .goto target => do jump (← jumpTarget size target)
  | _, stmt => stop (.noPart stmt.kind)

/-- Continues if the condition is not zero. -/
def execAssert : Executor
  | _, .assert condition => do
    let condition ← eval condition
    if condition.truth then alter proceed
    else stop (.fault (.assertionFailed (← look State.pc)))
  | _, stmt => stop (.noPart stmt.kind)

/-- Continues at one of two computed statements. -/
def execBranch : Executor
  | size, .branch condition thenTarget elseTarget => do
    let condition ← eval condition
    if condition.truth then jump (← jumpTarget size thenTarget)
    else jump (← jumpTarget size elseTarget)
  | _, stmt => stop (.noPart stmt.kind)

/-- What is executed for a statement, by its tag. -/
def executors : List (String × Executor) :=
  [("assignment", execAssign), ("store", execStore), ("goto", execGoto), ("assert", execAssert),
    ("if_goto", execBranch)]

/-- Executes a statement of a program of the given size. -/
def exec (size : Nat) (stmt : Stmt) : Doing Unit :=
  match executors.lookup stmt.kind with
  | none => stop (.unsupported stmt.kind)
  | some executor => executor size stmt

/-- Ends the run with success. -/
def succeed (s : State) : State :=
  { s with status := .succeeded }

/-- Ends the run if a statement has faulted or has come to the end. Only faults are caught. -/
def conclude (size : Nat) : Except Mishap Unit × State → Except Mishap Unit × State
  | (.error (.fault fault), t) =>
    (.ok (),
      { t with status := .failed, fault := some fault, faultMessage := some fault.message })
  | (.error mishap, t) => (.error mishap, t)
  | (.ok (), t) => (.ok (), if t.pc = size then succeed t else t)

/-- Executes a statement and ends the run if need be. -/
def attempt (size : Nat) (doing : Doing Unit) : Doing Unit :=
  ExceptT.mk fun s => conclude size (doing.run s)

/-- The statement at a position, which must have one; a negative position counts from the end. -/
def fetch (p : Program) (position : Int) : Except Mishap Stmt :=
  match p.at? position with
  | some stmt => .ok stmt
  | none => .error (.noItem position)

/-- Executes the next statement. -/
def step (p : Program) : Doing Unit := do
  let s ← look id
  if s.status ≠ .running then pure ()
  else if s.pc < 0 ∨ p.size < s.pc then stop (.outside { pc := s.pc, size := p.size })
  else if s.pc = p.size then alter succeed
  else do
    let stmt ← outcome (fetch p s.pc)
    alter fun s => { s with steps := s.steps + 1 }
    attempt p.size (exec p.size stmt)

/-- Whether a run is over: it has ended, or it has executed as many statements since the start as
the budget allows. -/
def finished (start : Nat) (budget : Option Int) (s : State) : Bool :=
  s.status ≠ .running || budget.any (· ≤ (s.steps : Int) - start)

/-- Executes statements until the run is over, if that is so within a number of steps. -/
def loop (p : Program) (start : Nat) (budget : Option Int) :
    (patience : Nat) → State → Option (Except Mishap Unit × State)
  | 0, s => if finished start budget s then some (.ok (), s) else none
  | patience + 1, s =>
    if finished start budget s then some (.ok (), s)
    else
      match (step p).run s with
      | (.error mishap, t) => some (.error mishap, t)
      | (.ok (), t) => loop p start budget patience t

/-- Runs with a budget or without one. -/
def run (p : Program) (budget : Option Int) (patience : Nat) (s : State) :
    Option (Except Mishap Unit × State) :=
  match budget with
  | some n =>
    if n < 0 then some (.error (.negativeBudget n), s) else loop p s.steps (some n) patience s
  | none => loop p s.steps none patience s

end Unguarded

/-- A state over sources that nothing keeps in step. -/
def State.unguarded (s : State) : Unguarded.State where
  pc := s.pc
  env := s.env
  memory := s.memory
  inputs := s.inputs.sources
  status := s.status
  fault := s.fault
  faultMessage := s.faultMessage
  steps := s.steps

namespace Unguarded

namespace Doing

variable {α β : Type}

@[simp]
theorem run_look (view : State → α) (s : State) : (look view).run s = (.ok (view s), s) :=
  rfl

/-- Running one computation after another goes on from the state that the first one leaves, unless
it is stopped. -/
theorem run_bind (doing : Doing α) (after : α → Doing β) (s : State) :
    (doing >>= after).run s =
      match doing.run s with
      | (.ok value, t) => (after value).run t
      | (.error mishap, t) => (.error mishap, t) := by
  rcases result : doing.run s with ⟨mishap | value, t⟩
  · exact exceptT_run_bind_error result
  · exact exceptT_run_bind_ok result

end Doing

/-! ## Following a reading -/

open Doing

/-- A computation follows a reading from a state: it stops with its fault, or it ends with what is
made of its value. Either way the cursors are where the reading leaves them. -/
def Follows {α β : Type} (doing : Doing β) (s : FlatIL.State) (reading : Reading α)
    (commit : α → FlatIL.State → β × FlatIL.State) : Prop :=
  doing.run s.unguarded =
    match reading.run s.inputs with
    | (.ok value, inputs) =>
      (.ok (commit value { s with inputs }).1, (commit value { s with inputs }).2.unguarded)
    | (.error fault, inputs) => (.error (.fault fault), { s with inputs }.unguarded)

namespace Follows

variable {α β γ δ : Type} {s : FlatIL.State}

/-- A value follows the same value. -/
theorem of_pure (value : α) : Follows (pure value) s (pure value) Prod.mk :=
  rfl

/-- A fault of the program follows the same fault. -/
theorem of_outcome (result : Except Fault α) :
    Follows (outcome (result.mapError .fault)) s (Reading.ofExcept result) Prod.mk := by
  cases result <;> rfl

/-- What comes after a value follows what comes after it. -/
theorem bind {doing : Doing δ} {reading : Reading α} {after : δ → Doing γ} {rest : α → Reading β}
    {made : α → δ} {commit : β → FlatIL.State → γ × FlatIL.State}
    (first : Follows doing s reading fun value s => (made value, s))
    (second : ∀ value inputs, Follows (after (made value)) { s with inputs } (rest value) commit) :
    Follows (doing >>= after) s (reading >>= rest) commit := by
  rw [Follows] at first ⊢
  rw [run_bind, first, Reading.run_bind]
  rcases reading.run s.inputs with ⟨fault | value, inputs⟩
  · rfl
  · exact second value inputs

/-- A value is looked up under a key that has been found to be there. -/
theorem of_demand {κ : Type} [DecidableEq κ] (table : Table κ Word) (key : κ) (fault : Fault) :
    Follows (if table.contains key then outcome (demand table key) else stop (.fault fault)) s
      (Reading.ofExcept (match table.get? key with
        | some value => .ok value
        | none => .error fault)) Prod.mk := by
  rw [Table.contains, demand]
  cases table.get? key <;> rfl

/-- The next value of a source is read in the two dictionaries. -/
theorem of_next (source : String) : Follows (next source) s (Reading.next source) Prod.mk := by
  have read : (next source).run s.unguarded =
      ((s.inputs.sources.read source).1,
        { s.unguarded with inputs := (s.inputs.sources.read source).2 }) := rfl
  have same : (Reading.next source).run s.inputs = s.inputs.read source := rfl
  rw [Follows, read, Sources.read_sources, same]
  rcases s.inputs.read source with ⟨fault | value, inputs⟩ <;> rfl

end Follows

/-! ## Expressions -/

/-- Something is listed under the tag of every node. -/
theorem lookup_evaluators (node : Expr) :
    ∃ evaluator, evaluators.lookup node.kind = some evaluator := by
  cases node <;> exact ⟨_, rfl⟩

/-- A node is worked on with its operands by what is listed under its tag. -/
theorem work_cons {entry : Expr.Pending} {evaluator : Evaluator}
    (listed : evaluators.lookup entry.node.kind = some evaluator) (pending : List Expr.Pending)
    (values : List Word) :
    work (entry :: pending) values =
      if entry.waits then work (entry.expand ++ pending) values
      else evaluator entry.node (values.take entry.node.operands.length).reverse >>= fun value =>
        work pending (value :: values.drop entry.node.operands.length) := by
  rw [work, listed]
  simp only
  split
  next mishap missing => simp [operandsOf_eq] at missing
  next operands found =>
    obtain rfl := Except.ok.inj ((operandsOf_eq entry.node).symm.trans found)
    rw [Expr.Pending.expand, List.append_assoc]
    rfl

namespace Follows

variable {β : Type} {s : FlatIL.State} {entry : Expr.Pending} {pending : List Expr.Pending}
  {values : List Word} {commit : β → FlatIL.State → List Word × FlatIL.State}

/-- A node whose operands are still to come is put back behind them. -/
theorem waits {reading : Reading β} (waits : entry.waits = true)
    (expanded : Follows (work (entry.expand ++ pending) values) s reading commit) :
    Follows (work (entry :: pending) values) s reading commit := by
  obtain ⟨evaluator, listed⟩ := lookup_evaluators entry.node
  rw [work_cons listed, if_pos waits]
  exact expanded

/-- A node whose operands are on the stack is evaluated, and its value is put in their place. -/
theorem ready {evaluator : Evaluator} {reading : Reading Word} {rest : Word → Reading β}
    (listed : evaluators.lookup entry.node.kind = some evaluator) (ready : entry.waits = false)
    (first : Follows (evaluator entry.node (values.take entry.node.operands.length).reverse) s
      reading Prod.mk)
    (second : ∀ value inputs,
      Follows (work pending (value :: values.drop entry.node.operands.length)) { s with inputs }
        (rest value) commit) :
    Follows (work (entry :: pending) values) s (reading >>= rest) commit := by
  rw [work_cons listed, if_neg (by simp [ready])]
  exact first.bind second

/-- Every binary operator is one of those there are. -/
theorem of_binary (op : BinaryOp) (e f : Expr) (left right : Word) :
    Follows (evalBinary (.binary op e f) [left, right]) s (Reading.ofExcept (op.apply left right))
      Prod.mk := by
  have known : BinaryOp.ofName? op.name = some op := by cases op <;> decide
  rw [evalBinary, known]
  exact of_outcome _

/-- Every unary operator is one of those there are. -/
theorem of_unary (op : UnaryOp) (e : Expr) (operand : Word) :
    Follows (evalUnary (.unary op e) [operand]) s (pure (op.apply operand)) Prod.mk := by
  have known : UnaryOp.ofName? op.name = some op := by cases op <;> decide
  rw [evalUnary, known]
  exact of_pure _

/-- Working through a node leaves its value on the stack, or stops with its fault. -/
theorem node {rest : Word → Reading β} (e : Expr) (pending : List Expr.Pending)
    (values : List Word) (s : FlatIL.State)
    (second : ∀ value inputs,
      Follows (work pending (value :: values)) { s with inputs } (rest value) commit) :
    Follows (work ({ node := e } :: pending) values) s
      (e.fold (Expr.evalAlgebra s.env s.memory) >>= rest) commit := by
  induction e generalizing pending values s rest with
  | lit value => exact ready rfl rfl (of_pure value) second
  | var name => exact ready rfl rfl (of_demand s.env name _) second
  | input source => exact ready rfl rfl (of_next source) second
  | load address ih =>
    refine waits rfl ?_
    rw [Expr.fold, bind_assoc]
    refine ih _ _ _ fun address inputs => ?_
    exact ready rfl rfl (of_demand s.memory address _) fun _ inputs => second _ inputs
  | unary op operand ih =>
    refine waits rfl ?_
    rw [Expr.fold, bind_assoc]
    refine ih _ _ _ fun value inputs => ?_
    exact ready rfl rfl (of_unary op operand value) fun _ inputs => second _ inputs
  | binary op left right ihLeft ihRight =>
    refine waits rfl ?_
    rw [Expr.fold, bind_assoc]
    refine ihLeft _ _ _ fun first inputs => ?_
    rw [bind_assoc]
    refine ihRight _ _ _ fun last inputs => ?_
    exact ready rfl rfl (of_binary op left right first last) fun _ inputs => second _ inputs

end Follows

/-! ## Statements -/

/-- What a change makes of a state. -/
def commit (change : Change) (s : FlatIL.State) : Unit × FlatIL.State :=
  ((), s.apply change)

namespace Follows

variable {s : FlatIL.State}

end Follows

end Unguarded

end FlatIL
