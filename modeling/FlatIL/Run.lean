import FlatIL.Step

/-!
# Running a program

A run with a budget stops once it has executed that many statements, and may be
resumed. A run without one goes on until it ends, which it need not ever do:
`runWithin` looks a given number of steps ahead and says nothing if that is not
enough, and `RunsTo` is what it looks for.
-/

namespace FlatIL.Program

/-- Runs until the run ends or the count of executed statements reaches a limit. -/
def runUntil (p : Program) (limit : Nat) (s : State) : Except CounterError State :=
  if _running : s.isRunning then
    if _within : s.steps < limit then
      match _stepped : p.step s with
      | .error error => .error error
      | .ok t => runUntil p limit t
    else .ok s
  else .ok s
termination_by (limit - s.steps) + (if s.isRunning then 1 else 0)
decreasing_by
  simp only [_running, if_true]
  rcases step_progress _running _stepped with counted | ⟨uncounted, ended⟩
  · rw [counted]
    split <;> omega
  · rw [uncounted, ended]
    simp

/-- Runs until the run ends or has executed as many statements as the budget allows. -/
def runFor (p : Program) (budget : Nat) (s : State) : Except CounterError State :=
  p.runUntil (s.steps + budget) s

/-- Runs until the run ends, if it does within a number of steps. -/
def runWithin (p : Program) : (patience : Nat) → State → Option (Except CounterError State)
  | 0, s => if s.isRunning then none else some (.ok s)
  | patience + 1, s =>
    if s.isRunning then
      match p.step s with
      | .error error => some (.error error)
      | .ok t => p.runWithin patience t
    else some (.ok s)

/-- The states that a run without a budget ends in. -/
inductive RunsTo (p : Program) : State → State → Prop where
  | halted {s : State} (ended : s.isRunning = false) : RunsTo p s s
  | step {s t u : State} (running : s.isRunning) (stepped : p.step s = .ok t)
      (rest : RunsTo p t u) : RunsTo p s u

end FlatIL.Program

namespace FlatIL

/-- Why a run cannot be made. -/
inductive RunError where
  /-- The budget is below zero. -/
  | negativeBudget (budget : Int)
  /-- The run has left the program. -/
  | counter (error : CounterError)
  deriving DecidableEq, Repr

/-- The text of an error. -/
def RunError.message : RunError → String
  | negativeBudget budget => "max_steps must be >= 0, got " ++ Decimal.ofInt budget
  | counter error => error.message

/-- Runs with a budget or, without one, until the run ends within the steps looked ahead. -/
def Program.run (p : Program) (budget : Option Int) (patience : Nat) (s : State) :
    Option (Except RunError State) :=
  match budget with
  | none => (p.runWithin patience s).map (Except.mapError RunError.counter)
  | some n =>
    if n < 0 then some (.error (.negativeBudget n))
    else some ((p.runFor n.toNat s).mapError RunError.counter)

end FlatIL
