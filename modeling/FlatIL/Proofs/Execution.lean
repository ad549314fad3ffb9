import FlatIL.Proofs.Evaluation
import FlatIL.Run
import Mathlib.Logic.Relation

/-!
# What steps and runs can do

`Stmt.Performs` says what each kind of statement does when it does not fault, and
`Program.Transition` everything that a step can do. Facts about steps are drawn from these
two, and facts about runs from the steps that a run is made of.
-/

namespace FlatIL

/-- One computation after another gives a value if both do, the second from the sources that the
first one leaves. -/
theorem Reading.run_bind_eq_ok {α β : Type} {reading : Reading α} {after : α → Reading β}
    {inputs rest : Inputs} {result : β} :
    (reading >>= after).run inputs = (.ok result, rest) ↔
      ∃ value between, reading.run inputs = (.ok value, between) ∧
        (after value).run between = (.ok result, rest) := by
  rw [Reading.run_bind]
  rcases reading.run inputs with ⟨fault | value, between⟩
  · simp
  · constructor
    · intro finished
      exact ⟨value, between, rfl, finished⟩
    · rintro ⟨_, _, ⟨rfl, rfl⟩, finished⟩
      exact finished

/-- One computation after another faults if the first one does, or else if the second one does
from the sources that the first one leaves. -/
theorem Reading.run_bind_eq_error {α β : Type} {reading : Reading α} {after : α → Reading β}
    {inputs rest : Inputs} {fault : Fault} :
    (reading >>= after).run inputs = (.error fault, rest) ↔
      reading.run inputs = (.error fault, rest) ∨
        ∃ value between, reading.run inputs = (.ok value, between) ∧
          (after value).run between = (.error fault, rest) := by
  rw [Reading.run_bind]
  rcases reading.run inputs with ⟨fault' | value, between⟩
  · simp
  · constructor
    · intro faulted
      exact .inr ⟨value, between, rfl, faulted⟩
    · rintro (first | ⟨_, _, ⟨rfl, rfl⟩, faulted⟩)
      · cases first
      · exact faulted

/-- What two computations keep is kept by one after the other. -/
theorem Reading.run_bind_keeps {α β : Type} (keeps : Inputs → Inputs → Prop)
    (trans : ∀ {first second third}, keeps first second → keeps second third → keeps first third)
    {reading : Reading α} {after : α → Reading β}
    (before : ∀ inputs, keeps inputs (reading.run inputs).2)
    (behind : ∀ value inputs, keeps inputs ((after value).run inputs).2) (inputs : Inputs) :
    keeps inputs ((reading >>= after).run inputs).2 := by
  have first := before inputs
  rw [Reading.run_bind]
  rcases outcome : reading.run inputs with ⟨fault | value, between⟩ <;> rw [outcome] at first
  · exact first
  · exact trans first (behind value between)

/-- A value is given at once. -/
theorem Reading.run_pure_eq_ok {α : Type} {value result : α} {inputs rest : Inputs} :
    (pure value : Reading α).run inputs = (.ok result, rest) ↔ result = value ∧ inputs = rest := by
  simp [eq_comm]

namespace Change

/-- A jump stays inside the program. -/
theorem jumpTo_eq_ok {size : Nat} {target : Word} {change : Change} {inputs rest : Inputs} :
    (Reading.ofExcept (jumpTo size target)).run inputs = (.ok change, rest) ↔
      (target.toNat < size ∧ change = .jump target) ∧ inputs = rest := by
  rw [Reading.run_ofExcept, jumpTo]
  by_cases inside : target.toNat < size
  · simp [inside, eq_comm]
  · simp [inside]

/-- An assertion passes if its condition is not zero. -/
theorem assertion_eq_ok {pc : Int} {condition : Word} {change : Change} {inputs rest : Inputs} :
    (Reading.ofExcept (assertion pc condition)).run inputs = (.ok change, rest) ↔
      (condition.truth = true ∧ change = .proceed) ∧ inputs = rest := by
  rw [Reading.run_ofExcept, assertion]
  by_cases holds : condition.truth = true
  · simp [holds, eq_comm]
  · simp [holds]

end Change

namespace Stmt

/-- What a statement does when nothing in it faults, in a program of the given size: the change
it makes, and the sources that it leaves. -/
def Performs (size : Nat) (env : Env) (memory : Memory) (inputs : Inputs) (stmt : Stmt)
    (change : Change) (rest : Inputs) : Prop :=
  match stmt with
  | assign target value =>
    ∃ v, value.denote env memory inputs = (.ok v, rest) ∧ change = .bind target v
  | store address value =>
    ∃ a between v, address.denote env memory inputs = (.ok a, between) ∧
      value.denote env memory between = (.ok v, rest) ∧ change = .write a v
  | goto target =>
    ∃ t, target.denote env memory inputs = (.ok t, rest) ∧ t.toNat < size ∧ change = .jump t
  | assert condition =>
    ∃ v, condition.denote env memory inputs = (.ok v, rest) ∧ v.truth = true ∧ change = .proceed
  | branch condition thenTarget elseTarget =>
    ∃ v between t, condition.denote env memory inputs = (.ok v, between) ∧
      (if v.truth then thenTarget else elseTarget).denote env memory between = (.ok t, rest) ∧
        t.toNat < size ∧ change = .jump t

/-- A statement that does not fault does what it performs. -/
theorem action_eq_ok {size : Nat} (pc : Int) {env : Env} {memory : Memory} {inputs rest : Inputs}
    {stmt : Stmt} {change : Change} :
    (stmt.action size pc env memory).run inputs = (.ok change, rest) ↔
      stmt.Performs size env memory inputs change rest := by
  cases stmt with
  | assign target value =>
    simp only [action, Performs, Reading.run_bind_eq_ok, Expr.eval_run, Reading.run_pure_eq_ok,
      exists_eq_right_right]
  | store address value =>
    simp only [action, Performs, Reading.run_bind_eq_ok, Expr.eval_run, Reading.run_pure_eq_ok,
      exists_eq_right_right, exists_and_left]
  | goto target =>
    simp only [action, Performs, Reading.run_bind_eq_ok, Expr.eval_run, Change.jumpTo_eq_ok,
      exists_eq_right_right]
  | assert condition =>
    simp only [action, Performs, Reading.run_bind_eq_ok, Expr.eval_run, Change.assertion_eq_ok,
      exists_eq_right_right]
  | branch condition thenTarget elseTarget =>
    simp only [action, Performs, Reading.run_bind_eq_ok, Expr.eval_run, Change.jumpTo_eq_ok,
      exists_eq_right_right, exists_and_left]

/-- What is kept by every read, and by one step after another, is kept by a statement, also by
one that faults. -/
theorem action_keeps {keeps : Inputs → Inputs → Prop} (refl : ∀ inputs, keeps inputs inputs)
    (trans : ∀ {first second third}, keeps first second → keeps second third → keeps first third)
    (read : ∀ inputs source, keeps inputs (inputs.read source).2) (size : Nat) (pc : Int)
    (env : Env) (memory : Memory) (stmt : Stmt) (inputs : Inputs) :
    keeps inputs ((stmt.action size pc env memory).run inputs).2 := by
  have evaluated (e : Expr) (inputs : Inputs) :
      keeps inputs ((e.eval env memory).run inputs).2 := by
    rw [Expr.eval_run]
    exact Expr.denote_keeps refl trans read env memory e inputs
  have checked (result : Except Fault Change) (inputs : Inputs) :
      keeps inputs ((Reading.ofExcept result).run inputs).2 := refl inputs
  have given (change : Change) (inputs : Inputs) :
      keeps inputs ((pure change : Reading Change).run inputs).2 := refl inputs
  cases stmt with
  | assign target value =>
    exact Reading.run_bind_keeps keeps trans (evaluated value) (fun _ => given _) inputs
  | store address value =>
    refine Reading.run_bind_keeps keeps trans (evaluated address) (fun _ => ?_) inputs
    exact Reading.run_bind_keeps keeps trans (evaluated value) (fun _ => given _)
  | goto target =>
    exact Reading.run_bind_keeps keeps trans (evaluated target) (fun _ => checked _) inputs
  | assert condition =>
    exact Reading.run_bind_keeps keeps trans (evaluated condition) (fun _ => checked _) inputs
  | branch condition thenTarget elseTarget =>
    refine Reading.run_bind_keeps keeps trans (evaluated condition) (fun _ => ?_) inputs
    exact Reading.run_bind_keeps keeps trans (evaluated _) (fun _ => checked _)

end Stmt

/-- A run goes on exactly if its status says so. -/
theorem State.isRunning_iff {s : State} : s.isRunning = true ↔ s.status = .running := by
  simp [isRunning]

/-- A run has ended exactly if it does not go on. -/
theorem State.isHalted_eq (s : State) : s.isHalted = !s.isRunning :=
  rfl

namespace Program

/-- Everything that a step can do. -/
inductive Transition (p : Program) (s : State) : State → Prop where
  /-- A run that has ended stays as it is. -/
  | halted (ended : s.isRunning = false) : Transition p s s
  /-- A run at the end of the program ends there. -/
  | finished (running : s.isRunning = true) (atEnd : s.pc = p.size) : Transition p s s.succeed
  /-- A statement faults, and the run ends where it is. -/
  | faulted {stmt : Stmt} {fault : Fault} {inputs : Inputs} (running : s.isRunning = true)
      (nonneg : 0 ≤ s.pc) (next : p.statements[s.pc.toNat]? = some stmt)
      (acted : (stmt.action p.size s.pc s.env s.memory).run s.inputs = (.error fault, inputs)) :
      Transition p s ((s.count inputs).fail fault)
  /-- A statement makes its change, and the run ends if that takes it to the end. -/
  | executed {stmt : Stmt} {change : Change} {inputs : Inputs} (running : s.isRunning = true)
      (nonneg : 0 ≤ s.pc) (next : p.statements[s.pc.toNat]? = some stmt)
      (performed : stmt.Performs p.size s.env s.memory s.inputs change inputs) :
      Transition p s (((s.count inputs).apply change).settle p.size)

/-- A step does one of these things. -/
theorem transition_of_step {p : Program} {s t : State} (stepped : p.step s = .ok t) :
    p.Transition s t := by
  unfold step at stepped
  cases running : s.isRunning with
  | false =>
    simp only [State.isHalted_eq, running, Bool.not_false, if_true] at stepped
    obtain rfl := Except.ok.inj stepped
    exact .halted running
  | true =>
    simp only [State.isHalted_eq, running, Bool.not_true, Bool.false_eq_true, if_false] at stepped
    by_cases outside : s.pc < 0 ∨ p.size < s.pc
    · simp [outside] at stepped
    · rw [if_neg outside] at stepped
      have nonneg : 0 ≤ s.pc := by omega
      cases next : p.statements[s.pc.toNat]? with
      | none =>
        have past : p.size ≤ s.pc.toNat := List.getElem?_eq_none_iff.mp next
        simp only [next] at stepped
        obtain rfl := Except.ok.inj stepped
        exact .finished running (by omega)
      | some stmt =>
        simp only [next] at stepped
        rcases acted : (stmt.action p.size s.pc s.env s.memory).run s.inputs with
          ⟨fault | change, inputs⟩
        · simp only [acted] at stepped
          obtain rfl := Except.ok.inj stepped
          exact .faulted running nonneg next acted
        · simp only [acted] at stepped
          obtain rfl := Except.ok.inj stepped
          exact .executed running nonneg next ((Stmt.action_eq_ok s.pc).mp acted)

/-- A run that has ended is left as it is. -/
theorem step_of_ended {p : Program} {s : State} (ended : s.isRunning = false) :
    p.step s = .ok s := by
  rw [step, State.isHalted_eq, ended]
  rfl

/-- A position that has a statement is inside the program. -/
theorem lt_size_of_next {p : Program} {s : State} {stmt : Stmt} (nonneg : 0 ≤ s.pc)
    (next : p.statements[s.pc.toNat]? = some stmt) : s.pc < p.size := by
  obtain ⟨inside, -⟩ := List.getElem?_eq_some_iff.mp next
  have bound : s.pc.toNat < p.size := inside
  omega

/-- Each of these things is done by a step. -/
theorem step_of_transition {p : Program} {s t : State} (transition : p.Transition s t) :
    p.step s = .ok t := by
  cases transition with
  | halted ended => exact step_of_ended ended
  | finished running atEnd =>
    have inside : ¬ (s.pc < 0 ∨ p.size < s.pc) := by omega
    have past : p.statements[s.pc.toNat]? = none := by
      have size : p.statements.length = p.size := rfl
      exact List.getElem?_eq_none (by omega)
    simp [step, State.isHalted_eq, running, inside, past]
  | faulted running nonneg next acted =>
    have within := lt_size_of_next nonneg next
    have inside : ¬ (s.pc < 0 ∨ p.size < s.pc) := by omega
    simp [step, State.isHalted_eq, running, inside, next, acted]
  | executed running nonneg next performed =>
    have within := lt_size_of_next nonneg next
    have inside : ¬ (s.pc < 0 ∨ p.size < s.pc) := by omega
    have acted := (Stmt.action_eq_ok s.pc).mpr performed
    simp [step, State.isHalted_eq, running, inside, next, acted]

/-- A step is made from every position of the program and from its end. -/
theorem step_isOk {p : Program} {s : State} (nonneg : 0 ≤ s.pc) (within : s.pc ≤ p.size) :
    ∃ t, p.step s = .ok t := by
  have inside : ¬ (s.pc < 0 ∨ p.size < s.pc) := by omega
  unfold step
  rw [if_neg inside]
  by_cases halted : s.isHalted = true
  · exact ⟨s, if_pos halted⟩
  · rw [if_neg halted]
    cases p.statements[s.pc.toNat]? with
    | none => exact ⟨_, rfl⟩
    | some stmt =>
      dsimp only
      rcases (stmt.action p.size s.pc s.env s.memory).run s.inputs with ⟨fault | change, inputs⟩
      · exact ⟨_, rfl⟩
      · exact ⟨_, rfl⟩

/-- One step after another. -/
def Steps (p : Program) : State → State → Prop :=
  Relation.ReflTransGen fun s t => p.step s = .ok t

/-- A run up to a limit is made of steps. -/
theorem steps_of_runUntil {p : Program} {limit : Nat} {s t : State}
    (ran : p.runUntil limit s = .ok t) : p.Steps s t := by
  fun_induction p.runUntil limit s with
  | case1 s running within error stepped => cases ran
  | case2 s running within u stepped ih => exact .head stepped (ih ran)
  | case3 s running spent =>
    obtain rfl := Except.ok.inj ran
    exact .refl
  | case4 s ended =>
    obtain rfl := Except.ok.inj ran
    exact .refl

/-- A run that is looked ahead for is made of steps. -/
theorem steps_of_runWithin {p : Program} {patience : Nat} {s t : State}
    (ran : p.runWithin patience s = some (.ok t)) : p.Steps s t := by
  fun_induction p.runWithin patience s with
  | case1 s running => cases ran
  | case2 s ended =>
    cases ran
    exact .refl
  | case3 patience s running error stepped => cases ran
  | case4 patience s running u stepped ih => exact .head stepped (ih ran)
  | case5 patience s ended =>
    cases ran
    exact .refl

/-- A run is successful whichever way its error would be reported. -/
theorem mapError_eq_ok {result : Except CounterError State} {t : State} :
    result.mapError RunError.counter = .ok t ↔ result = .ok t := by
  cases result with
  | error error => exact ⟨nofun, nofun⟩
  | ok u =>
    constructor
    · intro mapped
      exact congrArg Except.ok (Except.ok.inj mapped)
    · rintro ⟨rfl⟩
      rfl

/-- A run with a budget or without one is made of steps. -/
theorem steps_of_run {p : Program} {budget : Option Int} {patience : Nat} {s t : State}
    (ran : p.run budget patience s = some (.ok t)) : p.Steps s t := by
  cases budget with
  | none =>
    obtain ⟨result, within, mapped⟩ := Option.map_eq_some_iff.mp ran
    rw [mapError_eq_ok.mp mapped] at within
    exact steps_of_runWithin within
  | some n =>
    rw [Program.run] at ran
    by_cases negative : n < 0
    · simp [negative] at ran
    · simp only [if_neg negative, Option.some.injEq] at ran
      exact steps_of_runUntil (mapError_eq_ok.mp ran)

end Program

end FlatIL
