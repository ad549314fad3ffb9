import FlatIL.Proofs.Execution
import FlatIL.Proofs.Seeding

/-!
# Where a run can be

Whatever steps and runs are made from a fresh state, the position stays inside the
program or at its end, and it tells with the status and the fault how the run stands. The
end is reached by falling off the last statement and never by a jump.
-/

namespace FlatIL

/-- Whether a statement says where the run continues. -/
def Stmt.jumps : Stmt → Bool
  | goto _ | branch .. => true
  | assign .. | store .. | assert _ => false

/-- A statement after which the run goes on with the next one: an assignment, a memory write, or
an assertion whose condition is not zero. -/
def Stmt.Proceeds (s : State) : Stmt → Prop
  | .assign .. | .store .. => True
  | .assert condition => ∃ value, (s.evaluate condition).1 = .ok value ∧ value.truth = true
  | .goto _ | .branch .. => False

/-- A statement that proceeds does not say where the run continues. -/
theorem Stmt.Proceeds.jumps_eq {s : State} {stmt : Stmt} (proceeds : stmt.Proceeds s) :
    stmt.jumps = false := by
  cases stmt with
  | assign target value | store address value | assert condition => rfl
  | goto target | branch condition thenTarget elseTarget => exact proceeds.elim

/-- A state that a run starts in, over sources of its own or over given ones. -/
def State.Fresh (s : State) : Prop :=
  ∃ seeds : Seeds, seeds.start = .ok s ∨ ∃ inputs, seeds.startOn inputs = .ok s

/-- Carrying out a change leaves the status alone. -/
@[simp]
theorem State.status_apply (s : State) (change : Change) : (s.apply change).status = s.status := by
  cases change <;> rfl

/-- Carrying out a change leaves the fault alone. -/
@[simp]
theorem State.fault_apply (s : State) (change : Change) : (s.apply change).fault = s.fault := by
  cases change <;> rfl

/-- Carrying out a change leaves the text of the fault alone. -/
@[simp]
theorem State.faultMessage_apply (s : State) (change : Change) :
    (s.apply change).faultMessage = s.faultMessage := by
  cases change <;> rfl

/-- Carrying out a change leaves the count alone. -/
@[simp]
theorem State.steps_apply (s : State) (change : Change) : (s.apply change).steps = s.steps := by
  cases change <;> rfl

/-- Carrying out a change leaves the sources alone. -/
@[simp]
theorem State.inputs_apply (s : State) (change : Change) : (s.apply change).inputs = s.inputs := by
  cases change <;> rfl

/-- Settling a state sets its status by its position. -/
theorem State.settle_eq (s : State) (size : Nat) :
    s.settle size = { s with status := if s.pc = size then .succeeded else s.status } := by
  unfold settle succeed
  split <;> rfl

/-- A fresh state is one that only variables, memory and sources tell apart. -/
theorem State.Fresh.eq_seeded {s : State} (fresh : s.Fresh) :
    ∃ env memory inputs, s = { env, memory, inputs } := by
  have onSources : ∃ seeds inputs, Seeds.startOn seeds inputs = .ok s := by
    obtain ⟨seeds, started | ⟨inputs, started⟩⟩ := fresh
    · obtain ⟨inputs, -, started⟩ := Seeds.start_eq_ok_iff.mp started
      exact ⟨seeds, inputs, started⟩
    · exact ⟨seeds, inputs, started⟩
  obtain ⟨seeds, inputs, started⟩ := onSources
  obtain ⟨memory, env, -, -, rfl⟩ := Seeds.startOn_eq_ok_iff.mp started
  exact ⟨env, memory, inputs, rfl⟩

/-- A fresh state is at the first statement, and the run goes on there. -/
theorem State.Fresh.control {s : State} (fresh : s.Fresh) :
    s.pc = 0 ∧ s.status = .running ∧ s.fault = none ∧ s.faultMessage = none := by
  obtain ⟨env, memory, inputs, rfl⟩ := fresh.eq_seeded
  exact ⟨rfl, rfl, rfl, rfl⟩

namespace Program

/-- The states that steps and runs reach from a fresh state, made in any order. -/
inductive Reachable (p : Program) : State → Prop where
  /-- A fresh state. -/
  | fresh {s : State} (fresh : s.Fresh) : Reachable p s
  /-- The state after a step. -/
  | step {s t : State} (reached : Reachable p s) (stepped : p.step s = .ok t) : Reachable p t
  /-- The state after a run, with a budget or without one. -/
  | run {s t : State} {budget : Option Int} {patience : Nat} (reached : Reachable p s)
      (ran : p.run budget patience s = some (.ok t)) : Reachable p t

/-- What every step keeps. -/
structure Control (p : Program) (s : State) : Prop where
  /-- The position is not in front of the program. -/
  nonneg : 0 ≤ s.pc
  /-- The position is not behind the end. -/
  within : s.pc ≤ p.size
  /-- A run has failed exactly if it has met a fault. -/
  failed_iff : s.status = .failed ↔ s.fault.isSome
  /-- The text that is kept is that of the fault. -/
  message : s.faultMessage = s.fault.map Fault.message
  /-- A run fails at a statement. -/
  failed : s.status = .failed → s.pc < p.size
  /-- A run succeeds at the end. -/
  succeeded : s.status = .succeeded → s.pc = p.size
  /-- A run that goes on is at a statement, unless there is none. -/
  running : s.status = .running → s.pc < p.size ∨ p.size = 0

/-- The last statement takes a run off the end of the program. -/
structure FallsOff (p : Program) (before after : State) : Prop where
  /-- The run goes on before. -/
  running : before.isRunning = true
  /-- The run is at the last statement. -/
  atLast : before.pc = p.size - 1
  /-- The statement is executed. -/
  stepped : p.step before = .ok after
  /-- The statement is counted. -/
  counted : after.steps = before.steps + 1
  /-- The statement is one that proceeds. -/
  proceeds : ∃ last, p.statements.getLast? = some last ∧ last.Proceeds before

/-! ## What a statement does to the position -/

/-- A statement proceeds to the next position, or jumps inside the program. -/
theorem pc_of_performs {size : Nat} {s : State} {stmt : Stmt} {change : Change} {inputs : Inputs}
    (performed : stmt.Performs size s.env s.memory s.inputs change inputs) :
    (stmt.Proceeds s ∧ ((s.count inputs).apply change).pc = s.pc + 1) ∨
      (0 ≤ ((s.count inputs).apply change).pc ∧ ((s.count inputs).apply change).pc < size) := by
  cases stmt with
  | assign target value =>
    obtain ⟨v, -, rfl⟩ := performed
    exact .inl ⟨trivial, rfl⟩
  | store address value =>
    obtain ⟨a, between, v, -, -, rfl⟩ := performed
    exact .inl ⟨trivial, rfl⟩
  | goto target =>
    obtain ⟨t, -, inside, rfl⟩ := performed
    exact .inr ⟨Int.natCast_nonneg _, Int.ofNat_lt.mpr inside⟩
  | assert condition =>
    obtain ⟨v, tested, holds, rfl⟩ := performed
    have value : (s.evaluate condition).1 = .ok v := by
      rw [← Expr.eval_run] at tested
      exact congrArg Prod.fst tested
    exact .inl ⟨⟨v, value, holds⟩, rfl⟩
  | branch condition thenTarget elseTarget =>
    obtain ⟨v, between, t, -, -, inside, rfl⟩ := performed
    exact .inr ⟨Int.natCast_nonneg _, Int.ofNat_lt.mpr inside⟩

/-! ## What a step keeps -/

namespace Control

/-- A fresh state is in control. -/
theorem of_fresh (p : Program) {s : State} (fresh : s.Fresh) : p.Control s := by
  obtain ⟨start, running, noFault, noMessage⟩ := fresh.control
  refine ⟨?_, ?_, ?_, ?_, ?_, ?_, ?_⟩
  · omega
  · omega
  · simp [running, noFault]
  · simp [noFault, noMessage]
  · simp [running]
  · simp [running]
  · omega

/-- A run that has not failed has met no fault, and keeps no text of one. -/
theorem noFault {p : Program} {s : State} (control : p.Control s)
    (notFailed : s.status ≠ .failed) : s.fault = none ∧ s.faultMessage = none := by
  have none : ¬ s.fault.isSome = true := fun some => notFailed (control.failed_iff.mpr some)
  have noFault : s.fault = .none := by simpa using none
  exact ⟨noFault, by rw [control.message, noFault, Option.map_none]⟩

/-- A state at the end without a fault is in control when it succeeds. -/
theorem succeed {p : Program} {s : State} (atEnd : s.pc = p.size)
    (noFault : s.fault = none ∧ s.faultMessage = none) : p.Control s.succeed := by
  have position : s.succeed.pc = p.size := atEnd
  refine ⟨?_, ?_, ?_, ?_, ?_, ?_, ?_⟩
  · omega
  · omega
  · simp [State.succeed, noFault.1]
  · simp [State.succeed, noFault]
  · simp [State.succeed]
  · exact fun _ => position
  · simp [State.succeed]

/-- A state that goes on without a fault, inside the program or at its end, is in control when
it is settled. -/
theorem settle {p : Program} {s : State} (nonneg : 0 ≤ s.pc) (within : s.pc ≤ p.size)
    (running : s.status = .running) (noFault : s.fault = none ∧ s.faultMessage = none) :
    p.Control (s.settle p.size) := by
  unfold State.settle
  by_cases atEnd : s.pc = p.size
  · rw [if_pos atEnd]
    exact succeed atEnd noFault
  · rw [if_neg atEnd]
    refine ⟨nonneg, within, ?_, ?_, ?_, ?_, ?_⟩
    · simp [running, noFault.1]
    · simp [noFault]
    · simp [running]
    · simp [running]
    · omega

/-- A step keeps a run in control. -/
theorem step {p : Program} {s t : State} (control : p.Control s) (stepped : p.step s = .ok t) :
    p.Control t := by
  cases transition_of_step stepped with
  | halted ended => exact control
  | finished running atEnd =>
    have status := State.isRunning_iff.mp running
    exact succeed atEnd (control.noFault (by simp [status]))
  | faulted running nonneg next acted =>
    have inside := lt_size_of_next nonneg next
    refine ⟨control.nonneg, control.within, ?_, ?_, ?_, ?_, ?_⟩
    · simp [State.fail]
    · simp [State.fail]
    · exact fun _ => inside
    · simp [State.fail]
    · simp [State.fail]
  | executed running nonneg next performed =>
    have inside := lt_size_of_next nonneg next
    have status := State.isRunning_iff.mp running
    apply settle
    · rcases pc_of_performs performed with ⟨-, advanced⟩ | ⟨low, high⟩ <;> omega
    · rcases pc_of_performs performed with ⟨-, advanced⟩ | ⟨low, high⟩ <;> omega
    · rw [State.status_apply]
      exact status
    · rw [State.fault_apply, State.faultMessage_apply]
      exact control.noFault (by simp [status])

/-- A run that goes on after a step is at a statement. -/
theorem inside_of_step {p : Program} {s t : State} (control : p.Control s)
    (stepped : p.step s = .ok t) (running : t.status = .running) : t.pc < p.size := by
  have kept := control.step stepped
  rcases kept.running running with inside | empty
  · exact inside
  · cases transition_of_step stepped with
    | halted ended => simp [State.isRunning, running] at ended
    | finished _ atEnd => cases running
    | faulted _ nonneg next acted => cases running
    | executed _ nonneg next performed =>
      have inside := lt_size_of_next nonneg next
      omega

end Control

/-- What holds of fresh states and is kept by steps holds of every state that is reached. -/
theorem Reachable.keeps {p : Program} (keeps : State → Prop)
    (fresh : ∀ s : State, s.Fresh → keeps s)
    (step : ∀ s t, p.Reachable s → keeps s → p.step s = .ok t → keeps t) {s : State}
    (reached : p.Reachable s) : keeps s := by
  induction reached with
  | fresh isFresh => exact fresh _ isFresh
  | step reached stepped ih => exact step _ _ reached ih stepped
  | @run s t budget patience reached ran ih =>
    -- A run is followed step by step, since the states inside it are reached as well.
    have steps := steps_of_run ran
    clear ran
    have moved : p.Reachable t ∧ keeps t := by
      induction steps with
      | refl => exact ⟨reached, ih⟩
      | tail _ stepped both => exact ⟨.step both.1 stepped, step _ _ both.1 both.2 stepped⟩
    exact moved.2

/-- Every state that is reached is in control. -/
theorem Reachable.control {p : Program} {s : State} (reached : p.Reachable s) : p.Control s :=
  reached.keeps p.Control (fun _ fresh => .of_fresh p fresh)
    fun _ _ _ control stepped => control.step stepped

/-! ## How a run succeeds -/

/-- The statement at the last position is the last one. -/
theorem getLast?_of_next {p : Program} {s : State} {stmt : Stmt}
    (next : p.statements[s.pc.toNat]? = some stmt) (atLast : s.pc = p.size - 1) :
    p.statements.getLast? = some stmt := by
  have position : s.pc.toNat = p.statements.length - 1 := by
    have size : p.size = p.statements.length := rfl
    omega
  rw [List.getLast?_eq_getElem?, ← position]
  exact next

/-- A step that succeeds in a program with statements takes the run off its end. -/
theorem fallsOff_of_succeeded {p : Program} {s t : State} (control : p.Control s)
    (some : 0 < p.size) (running : s.isRunning = true) (stepped : p.step s = .ok t)
    (succeeded : t.status = .succeeded) : p.FallsOff s t := by
  have status := State.isRunning_iff.mp running
  have inside : s.pc < p.size := by
    rcases control.running status with inside | empty <;> omega
  cases transition_of_step stepped with
  | halted ended => rw [status] at succeeded; cases succeeded
  | finished _ atEnd => omega
  | faulted _ nonneg next acted => cases succeeded
  | @executed stmt change inputs _ nonneg next performed =>
    have atEnd : ((s.count inputs).apply change).pc = p.size := by
      by_cases atEnd : ((s.count inputs).apply change).pc = p.size
      · exact atEnd
      · rw [State.settle, if_neg atEnd, State.status_apply] at succeeded
        cases status.symm.trans succeeded
    rcases pc_of_performs performed with ⟨proceeds, advanced⟩ | ⟨low, high⟩
    · have atLast : s.pc = p.size - 1 := by omega
      refine ⟨running, atLast, stepped, ?_, stmt, getLast?_of_next next atLast, proceeds⟩
      rw [State.settle, if_pos atEnd]
      exact State.steps_apply _ change
    · omega

/-- A run that has succeeded in a program with statements has fallen off its end. -/
theorem Reachable.fallsOff {p : Program} {t : State} (reached : p.Reachable t)
    (some : 0 < p.size) (succeeded : t.status = .succeeded) :
    ∃ s, p.Reachable s ∧ p.FallsOff s t := by
  have origin := reached.keeps
    (fun t => t.status = .succeeded → ∃ s, p.Reachable s ∧ p.FallsOff s t) ?_ ?_
  · exact origin succeeded
  · intro s fresh succeeded
    rw [fresh.control.2.1] at succeeded
    cases succeeded
  · intro s t reached ih stepped succeeded
    cases running : s.isRunning with
    | true =>
      exact ⟨s, reached, fallsOff_of_succeeded reached.control some running stepped succeeded⟩
    | false =>
      rw [step_of_ended running] at stepped
      obtain rfl := Except.ok.inj stepped
      exact ih succeeded

/-- The state of control of every state that is reached. The position is inside the program or
at its end; the run has failed exactly if it has a fault, with a message, and then at a
statement; it has succeeded only at the end and without a fault; a step is made and leads to a
statement if the run goes on; and a program with statements succeeds only by falling off its
last one, hence never if that one jumps. -/
theorem reachable_control {p : Program} {s : State} (reached : p.Reachable s) :
    (0 ≤ s.pc ∧ s.pc ≤ p.size) ∧
      ((s.status = .failed ↔ (s.fault.map Fault.kind).isSome) ∧
        ((s.fault.map Fault.kind).isSome ↔ s.faultMessage.isSome) ∧
        s.faultMessage = s.fault.map Fault.message ∧
        (s.status = .failed → s.pc < p.size)) ∧
      (s.status = .succeeded → s.pc = p.size ∧ s.fault = none ∧ s.faultMessage = none) ∧
      (∃ t, p.step s = .ok t ∧ (t.status = .running → t.pc < p.size)) ∧
      (0 < p.size → s.status = .succeeded → ∃ before, p.Reachable before ∧ p.FallsOff before s) ∧
      (∀ last, p.statements.getLast? = some last → last.jumps = true → s.status ≠ .succeeded) := by
  have control := reached.control
  refine ⟨⟨control.nonneg, control.within⟩, ⟨?_, ?_, control.message, control.failed⟩, ?_, ?_, ?_,
    ?_⟩
  · rw [control.failed_iff, Option.isSome_map]
  · rw [control.message, Option.isSome_map, Option.isSome_map]
  · intro succeeded
    exact ⟨control.succeeded succeeded, control.noFault (by simp [succeeded])⟩
  · obtain ⟨t, stepped⟩ := step_isOk control.nonneg control.within
    exact ⟨t, stepped, control.inside_of_step stepped⟩
  · exact reached.fallsOff
  · intro last isLast jumps succeeded
    have some : 0 < p.size := List.length_pos_of_mem (List.mem_of_getLast? isLast)
    obtain ⟨before, -, fell⟩ := reached.fallsOff some succeeded
    obtain ⟨last', isLast', proceeds⟩ := fell.proceeds
    rw [isLast] at isLast'
    obtain rfl := Option.some.inj isLast'
    rw [proceeds.jumps_eq] at jumps
    cases jumps

/-- A run that jumps to the last statement, where an assertion passes. -/
theorem reachable_control_of_jump :
    let p : Program := ⟨[.goto (.lit 1), .assert (.lit 1)]⟩
    let s : State := { pc := 2, status := .succeeded, steps := 2 }
    p.Reachable s ∧ s.pc = p.size ∧ (s.fault = none ∧ s.faultMessage = none) ∧
      ∃ before, p.Reachable before ∧ p.FallsOff before s := by
  intro p s
  have jumps : Stmt.Performs 2 .empty .empty .empty (.goto (.lit 1)) (.jump 1) .empty :=
    ⟨1, rfl, by decide, rfl⟩
  have passes : Stmt.Performs 2 .empty .empty .empty (.assert (.lit 1)) .proceed .empty :=
    ⟨1, rfl, rfl, rfl⟩
  have jumped : p.step {} = .ok { pc := 1, steps := 1 } :=
    step_of_transition (Transition.executed (p := p) (s := {}) rfl (by decide) rfl jumps)
  have passed : p.step { pc := 1, steps := 1 } = .ok s :=
    step_of_transition
      (Transition.executed (p := p) (s := { pc := 1, steps := 1 }) rfl (by decide) rfl passes)
  have reached : p.Reachable s := .step (.step (.fresh ⟨{}, .inl rfl⟩) jumped) passed
  obtain ⟨-, -, ended, -, fell, -⟩ := reachable_control reached
  exact ⟨reached, (ended rfl).1, (ended rfl).2, fell (by decide) rfl⟩

end Program

end FlatIL
