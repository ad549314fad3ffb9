import FlatIL.Eval
import FlatIL.Program

/-!
# Executing one statement

Executing a statement first evaluates everything it needs and only then changes
anything, and it changes one thing at most: a variable, a memory cell, or where the
run continues. A fault therefore leaves variables, memory and the position as they
were.
-/

namespace FlatIL

/-- What a statement does once everything in it is evaluated. -/
inductive Change where
  /-- Bind a variable and go on with the next statement. -/
  | bind (name : String) (value : Word)
  /-- Write a memory cell and go on with the next statement. -/
  | write (address value : Word)
  /-- Continue at a statement. -/
  | jump (target : Word)
  /-- Go on with the next statement. -/
  | proceed
  deriving DecidableEq, Repr

namespace Change

/-- A jump into a program of the given size; a target outside it is a fault. -/
def jumpTo (size : Nat) (target : Word) : Except Fault Change :=
  if target.toNat < size then .ok (.jump target) else .error (.invalidTarget target size)

/-- The outcome of an assertion, given the value of its condition. -/
def assertion (pc : Int) (condition : Word) : Except Fault Change :=
  if condition.truth then .ok .proceed else .error (.assertionFailed pc)

end Change

/-- What a statement at a position of a program of the given size does. -/
def Stmt.action (size : Nat) (pc : Int) (env : Env) (memory : Memory) : Stmt → Reading Change
  | .assign target value => do
    let value ← value.eval env memory
    return .bind target value
  | .store address value => do
    let address ← address.eval env memory
    let value ← value.eval env memory
    return .write address value
  | .goto target => do
    let target ← target.eval env memory
    Reading.ofExcept (Change.jumpTo size target)
  | .assert condition => do
    let condition ← condition.eval env memory
    Reading.ofExcept (Change.assertion pc condition)
  | .branch condition thenTarget elseTarget => do
    let condition ← condition.eval env memory
    let target ← (if condition.truth then thenTarget else elseTarget).eval env memory
    Reading.ofExcept (Change.jumpTo size target)

namespace State

/-- Carries out a change. -/
def apply (s : State) : Change → State
  | .bind name value => { s with env := s.env.insert name value, pc := s.pc + 1 }
  | .write address value => { s with memory := s.memory.insert address value, pc := s.pc + 1 }
  | .jump target => { s with pc := target.toNat }
  | .proceed => { s with pc := s.pc + 1 }

/-- Counts one more statement as executed and keeps the cursors that it moved. -/
def count (s : State) (inputs : Inputs) : State :=
  { s with steps := s.steps + 1, inputs }

/-- Ends the run with a fault. -/
def fail (s : State) (fault : Fault) : State :=
  { s with status := .failed, fault := some fault, faultMessage := some fault.message }

/-- Ends the run with success. -/
def succeed (s : State) : State :=
  { s with status := .succeeded }

/-- Ends the run with success if it has come to the end of a program of the given size. -/
def settle (s : State) (size : Nat) : State :=
  if s.pc = size then s.succeed else s

end State

/-- A position that no program of the given size has. -/
structure CounterError where
  pc : Int
  size : Nat
  deriving DecidableEq, Repr

/-- The text of an error. -/
def CounterError.message (error : CounterError) : String :=
  "Program counter " ++ Decimal.ofInt error.pc ++ " outside program (0.."
    ++ Decimal.ofNat error.size ++ ")"

namespace Program

/-- Executes the next statement. A run that has ended stays as it is, and a run at the
end of the program ends without executing anything. -/
def step (p : Program) (s : State) : Except CounterError State :=
  if s.isHalted then .ok s
  else if s.pc < 0 ∨ p.size < s.pc then .error { pc := s.pc, size := p.size }
  else
    match p.statements[s.pc.toNat]? with
    | none => .ok s.succeed
    | some stmt =>
      match (stmt.action p.size s.pc s.env s.memory).run s.inputs with
      | (.error fault, inputs) => .ok ((s.count inputs).fail fault)
      | (.ok change, inputs) => .ok (((s.count inputs).apply change).settle p.size)

/-- A step of a run that goes on either counts one statement or ends the run uncounted. -/
theorem step_progress {p : Program} {s t : State} (running : s.isRunning)
    (stepped : p.step s = .ok t) :
    t.steps = s.steps + 1 ∨ (t.steps = s.steps ∧ t.isRunning = false) := by
  have notHalted : s.isHalted = false := by
    simpa [State.isRunning, State.isHalted] using running
  have settled (u : State) : (u.settle p.size).steps = u.steps := by
    unfold State.settle State.succeed
    split <;> rfl
  have applied (u : State) (change : Change) : (u.apply change).steps = u.steps := by
    cases change <;> rfl
  unfold step at stepped
  rw [notHalted] at stepped
  simp only [Bool.false_eq_true, if_false] at stepped
  split at stepped
  · simp at stepped
  · split at stepped
    · obtain rfl := Except.ok.inj stepped
      exact .inr ⟨rfl, rfl⟩
    · split at stepped
      · obtain rfl := Except.ok.inj stepped
        exact .inl rfl
      · obtain rfl := Except.ok.inj stepped
        rw [settled, applied]
        exact .inl rfl

end Program

end FlatIL
