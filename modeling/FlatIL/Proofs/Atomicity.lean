import FlatIL.Proofs.Control
import FlatIL.Proofs.Order

/-!
# A statement is executed as a whole or not at all

A statement that faults leaves variables, memory and the position as they were; what it has read
stays read, and the fault that is recorded is the first one met in the order of evaluation. A
statement that does not fault writes one variable, one memory cell or nothing, and the status
follows from the position that it leads to.
-/

namespace FlatIL

/-- The fault of a jump: the first one of its target, or else that the target is outside a
program of the given size. -/
def Expr.FaultsAsTarget (size : Nat) (env : Env) (memory : Memory) (target : Expr)
    (inputs : Inputs) (fault : Fault) (rest : Inputs) : Prop :=
  target.Faults env memory inputs fault rest ∨
    ∃ t, target.Yields env memory inputs t rest ∧ size ≤ t.toNat ∧ fault = .invalidTarget t size

namespace Stmt

/-- The first fault of a statement in a program of the given size, and the sources that it
leaves. Addresses come before values and conditions before targets; of two targets only the one
that is taken counts; what the statement itself checks comes last. -/
def Faults (size : Nat) (pc : Int) (env : Env) (memory : Memory) (inputs : Inputs) (stmt : Stmt)
    (fault : Fault) (rest : Inputs) : Prop :=
  match stmt with
  | assign _ value => value.Faults env memory inputs fault rest
  | store address value =>
    address.Faults env memory inputs fault rest ∨
      ∃ a between, address.Yields env memory inputs a between ∧
        value.Faults env memory between fault rest
  | goto target => target.FaultsAsTarget size env memory inputs fault rest
  | assert condition =>
    condition.Faults env memory inputs fault rest ∨
      ∃ v, condition.Yields env memory inputs v rest ∧ v.truth = false ∧
        fault = .assertionFailed pc
  | branch condition thenTarget elseTarget =>
    condition.Faults env memory inputs fault rest ∨
      ∃ v between, condition.Yields env memory inputs v between ∧
        (if v.truth then thenTarget else elseTarget).FaultsAsTarget size env memory between fault
          rest

/-- What a statement that does not fault writes: the value that it assigns, the memory cell that
it stores to, or nothing. -/
def Commits (s t : State) : Stmt → Prop
  | assign target value =>
    ∃ v, value.Yields s.env s.memory s.inputs v t.inputs ∧ t.env = s.env.insert target v ∧
      t.memory = s.memory
  | store address value =>
    ∃ a between v, address.Yields s.env s.memory s.inputs a between ∧
      value.Yields s.env s.memory between v t.inputs ∧ t.memory = s.memory.insert a v ∧
        t.env = s.env
  | goto _ | assert _ | branch .. => t.env = s.env ∧ t.memory = s.memory

end Stmt

/-! ## Which fault ends a statement -/

namespace Change

/-- A jump faults if its target is outside the program. -/
theorem jumpTo_eq_error {size : Nat} {target : Word} {fault : Fault} {inputs rest : Inputs} :
    (Reading.ofExcept (jumpTo size target)).run inputs = (.error fault, rest) ↔
      (size ≤ target.toNat ∧ fault = .invalidTarget target size) ∧ inputs = rest := by
  rw [Reading.run_ofExcept, jumpTo]
  by_cases inside : target.toNat < size
  · simp [inside, Nat.not_le_of_lt inside]
  · simp [inside, eq_comm, Nat.le_of_not_lt inside]

/-- An assertion faults if its condition is zero. -/
theorem assertion_eq_error {pc : Int} {condition : Word} {fault : Fault} {inputs rest : Inputs} :
    (Reading.ofExcept (assertion pc condition)).run inputs = (.error fault, rest) ↔
      (condition.truth = false ∧ fault = .assertionFailed pc) ∧ inputs = rest := by
  rw [Reading.run_ofExcept, assertion]
  by_cases holds : condition.truth = true
  · simp [holds]
  · simp [holds, eq_comm]

end Change

/-- The fault of a computed jump is that of its target or that of the jump. -/
theorem Expr.jump_eq_error {size : Nat} {env : Env} {memory : Memory} {target : Expr}
    {inputs rest : Inputs} {fault : Fault} :
    (target.eval env memory >>= fun t => Reading.ofExcept (Change.jumpTo size t)).run inputs =
        (.error fault, rest) ↔
      target.FaultsAsTarget size env memory inputs fault rest := by
  simp only [FaultsAsTarget, Reading.run_bind_eq_error, Expr.eval_run, denote_eq_error_iff,
    denote_eq_ok_iff, Change.jumpTo_eq_error, exists_eq_right_right]

/-- A statement faults with its first fault. -/
theorem Stmt.action_eq_error {size : Nat} {pc : Int} {env : Env} {memory : Memory}
    {inputs rest : Inputs} {stmt : Stmt} {fault : Fault} :
    (stmt.action size pc env memory).run inputs = (.error fault, rest) ↔
      stmt.Faults size pc env memory inputs fault rest := by
  cases stmt with
  | assign target value =>
    simp only [action, Faults, Reading.run_bind_eq_error, Expr.eval_run, Reading.run_pure,
      Expr.denote_eq_error_iff, Prod.mk.injEq, reduceCtorEq, false_and, and_false, exists_false,
      or_false]
  | store address value =>
    simp only [action, Faults, Reading.run_bind_eq_error, Expr.eval_run, Reading.run_pure,
      Expr.denote_eq_error_iff, Expr.denote_eq_ok_iff, Prod.mk.injEq, reduceCtorEq, false_and,
      and_false, exists_false, or_false]
  | goto target => exact Expr.jump_eq_error
  | assert condition =>
    simp only [action, Faults, Reading.run_bind_eq_error, Expr.eval_run,
      Expr.denote_eq_error_iff, Expr.denote_eq_ok_iff, Change.assertion_eq_error,
      exists_eq_right_right]
  | branch condition thenTarget elseTarget =>
    rw [action, Reading.run_bind_eq_error]
    simp only [Faults, Expr.eval_run, Expr.denote_eq_error_iff, Expr.denote_eq_ok_iff,
      Expr.jump_eq_error]

/-! ## What a step leaves -/

/-- A statement that does not fault writes what it is meant to. -/
theorem Stmt.Performs.commits {size : Nat} {s : State} {stmt : Stmt} {change : Change}
    {inputs : Inputs} (performed : stmt.Performs size s.env s.memory s.inputs change inputs) :
    stmt.Commits s (((s.count inputs).apply change).settle size) := by
  rw [State.settle_eq]
  cases stmt with
  | assign target value =>
    obtain ⟨v, evaluated, rfl⟩ := performed
    exact ⟨v, Expr.denote_eq_ok_iff.mp evaluated, rfl, rfl⟩
  | store address value =>
    obtain ⟨a, between, v, first, second, rfl⟩ := performed
    exact ⟨a, between, v, Expr.denote_eq_ok_iff.mp first, Expr.denote_eq_ok_iff.mp second, rfl, rfl⟩
  | goto target =>
    obtain ⟨t, -, -, rfl⟩ := performed
    exact ⟨rfl, rfl⟩
  | assert condition =>
    obtain ⟨v, -, -, rfl⟩ := performed
    exact ⟨rfl, rfl⟩
  | branch condition thenTarget elseTarget =>
    obtain ⟨v, between, t, -, -, -, rfl⟩ := performed
    exact ⟨rfl, rfl⟩

namespace Program

/-- What a statement leaves behind, whether it faults or not. -/
structure Counted (s t : State) : Prop where
  /-- The statement counts as executed. -/
  steps : t.steps = s.steps + 1
  /-- Sources keep their names, their order and all their values. -/
  streams : s.inputs.SameStreams t.inputs
  /-- What has been read stays read. -/
  cursors : s.inputs.Advances t.inputs

/-- What a statement leaves behind when it faults. -/
structure Aborted (p : Program) (stmt : Stmt) (s t : State) : Prop extends Counted s t where
  /-- Variables stay as they are, and in their order. -/
  env : t.env = s.env
  /-- Memory cells stay as they are, and in their order. -/
  memory : t.memory = s.memory
  /-- The run ends at the statement. -/
  pc : t.pc = s.pc
  /-- The first fault of the statement is recorded, with its text. -/
  fault : ∃ fault, stmt.Faults p.size s.pc s.env s.memory s.inputs fault t.inputs ∧
    t.fault = some fault ∧ t.faultMessage = some fault.message

/-- What a statement leaves behind when it does not fault. -/
structure Completed (p : Program) (stmt : Stmt) (s t : State) : Prop extends Counted s t where
  /-- The status says whether the position is the end of the program. -/
  status : t.status = if t.pc = p.size then .succeeded else .running
  /-- No fault is recorded, and none is cleared. -/
  fault : t.fault = s.fault ∧ t.faultMessage = s.faultMessage
  /-- One thing is written at most. -/
  commits : stmt.Commits s t

/-- The sources that a statement leaves are the same sources, read further. -/
theorem counted_of_action {p : Program} {s t : State} {stmt : Stmt} {result : Except Fault Change}
    {inputs : Inputs}
    (acted : (stmt.action p.size s.pc s.env s.memory).run s.inputs = (result, inputs))
    (steps : t.steps = s.steps + 1) (left : t.inputs = inputs) : Counted s t := by
  have streams := stmt.action_keeps Inputs.SameStreams.refl Inputs.SameStreams.trans
    Inputs.SameStreams.read p.size s.pc s.env s.memory s.inputs
  have cursors := stmt.action_keeps Inputs.Advances.refl Inputs.Advances.trans
    Inputs.Advances.read p.size s.pc s.env s.memory s.inputs
  rw [acted] at streams cursors
  exact ⟨steps, left ▸ streams, left ▸ cursors⟩

/-- The state after a step from a position that has a statement. -/
theorem atomic_of_next {p : Program} {s : State} {stmt : Stmt} (running : s.isRunning = true)
    (nonneg : 0 ≤ s.pc) (next : p.statements[s.pc.toNat]? = some stmt) :
    ∃ t, p.step s = .ok t ∧
      (t.status = .failed ∧ p.Aborted stmt s t ∨ t.status ≠ .failed ∧ p.Completed stmt s t) := by
  have status := State.isRunning_iff.mp running
  rcases acted : (stmt.action p.size s.pc s.env s.memory).run s.inputs with
    ⟨fault | change, inputs⟩
  · refine ⟨_, step_of_transition (.faulted running nonneg next acted), .inl ⟨rfl, ?_⟩⟩
    have first := Stmt.action_eq_error.mp acted
    exact ⟨counted_of_action acted rfl rfl, rfl, rfl, rfl, fault, first, rfl, rfl⟩
  · have performed := (Stmt.action_eq_ok s.pc).mp acted
    refine ⟨_, step_of_transition (.executed running nonneg next performed), .inr ?_⟩
    have committed := performed.commits
    rw [State.settle_eq] at committed ⊢
    have settled : (s.count inputs).status = .running := status
    simp only [State.status_apply, settled] at committed ⊢
    refine ⟨by split <;> simp, counted_of_action acted ?_ ?_, rfl, ?_, committed⟩
    · exact State.steps_apply _ change
    · exact State.inputs_apply _ change
    · exact ⟨State.fault_apply _ change, State.faultMessage_apply _ change⟩

/-- A step from a running state inside the program is made, and it fails exactly if the statement
there has a fault. If it fails, it leaves all data and the position as they were, with the first
fault recorded; if it does not, the status follows from the position, the fault is as before, and
one thing is written at most. -/
theorem step_atomic {p : Program} {s : State} (running : s.isRunning = true) (nonneg : 0 ≤ s.pc)
    (inside : s.pc < p.size) :
    ∃ stmt t, p.statements[s.pc.toNat]? = some stmt ∧ p.step s = .ok t ∧
      (t.status = .failed ↔
        ∃ fault rest, stmt.Faults p.size s.pc s.env s.memory s.inputs fault rest) ∧
      (t.status = .failed → p.Aborted stmt s t) ∧ (t.status ≠ .failed → p.Completed stmt s t) := by
  obtain ⟨stmt, next⟩ : ∃ stmt, p.statements[s.pc.toNat]? = some stmt := by
    have bound : s.pc.toNat < p.statements.length := by
      have size : p.size = p.statements.length := rfl
      omega
    exact ⟨_, List.getElem?_eq_getElem bound⟩
  obtain ⟨t, stepped, outcome⟩ := atomic_of_next running nonneg next
  refine ⟨stmt, t, next, stepped, ⟨?_, ?_⟩, ?_, ?_⟩
  · intro failed
    rcases outcome with ⟨-, aborted⟩ | ⟨notFailed, -⟩
    · obtain ⟨fault, first, -⟩ := aborted.fault
      exact ⟨fault, t.inputs, first⟩
    · exact absurd failed notFailed
  · rintro ⟨fault, rest, first⟩
    have faulted := step_of_transition
      (.faulted running nonneg next (Stmt.action_eq_error.mpr first))
    obtain rfl := Except.ok.inj (stepped.symm.trans faulted)
    rfl
  · intro failed
    exact outcome.elim And.right fun other => absurd failed other.1
  · intro notFailed
    exact outcome.elim (fun other => absurd other.1 notFailed) And.right

/-- A branch whose condition reads a value before its target faults. -/
theorem step_atomic_of_branch :
    let p : Program := ⟨[.branch (.input "a") (.load (.lit 8)) (.lit 0)]⟩
    let s : State := { inputs := ⟨[("a", { values := [1] })], by decide⟩ }
    s.isRunning = true ∧ 0 ≤ s.pc ∧ s.pc < p.size ∧
      ∃ t, p.step s = .ok t ∧ t.fault = some (.unwrittenAddress 8) ∧
        t.inputs.position? "a" = some 1 ∧
        t.env = s.env ∧ t.memory = s.memory ∧ t.pc = s.pc ∧ t.steps = s.steps + 1 := by
  intro p s
  have read : Expr.Yields s.env s.memory (.input "a") s.inputs 1
      ⟨[("a", { values := [1], cursor := 1 })], by decide⟩ :=
    Expr.denote_eq_ok_iff.mp rfl
  have unwritten : Expr.Faults s.env s.memory (.load (.lit 8))
      ⟨[("a", { values := [1], cursor := 1 })], by decide⟩ (.unwrittenAddress 8)
      ⟨[("a", { values := [1], cursor := 1 })], by decide⟩ :=
    Expr.denote_eq_error_iff.mp rfl
  have first : Stmt.Faults p.size s.pc s.env s.memory s.inputs
      (.branch (.input "a") (.load (.lit 8)) (.lit 0)) (.unwrittenAddress 8)
      ⟨[("a", { values := [1], cursor := 1 })], by decide⟩ :=
    .inr ⟨1, _, read, .inl unwritten⟩
  have faulted := step_of_transition (Transition.faulted (p := p) (s := s) rfl (by decide) rfl
    (Stmt.action_eq_error.mpr first))
  obtain ⟨stmt, t, -, stepped, -, aborts, -⟩ :=
    step_atomic (p := p) (s := s) rfl (by decide) (by decide)
  obtain rfl := Except.ok.inj (stepped.symm.trans faulted)
  have aborted := aborts rfl
  exact ⟨rfl, by decide, by decide, _, stepped, rfl, rfl, aborted.env, aborted.memory, aborted.pc,
    aborted.steps⟩

/-- The fault of a run does not follow from its position: a run that failed and is set to go on
elsewhere keeps its fault, even in success, where a run that never failed has none. -/
theorem fault_outlives_success :
    let p : Program := ⟨[.assert (.lit 0), .assign "x" (.lit 1)]⟩
    let clean : State := { pc := 1 }
    ∃ failed resumed t u, p.step {} = .ok failed ∧
      resumed = { failed with pc := 1, status := .running } ∧
      clean.isRunning = true ∧ resumed.isRunning = true ∧
      p.step clean = .ok t ∧ p.step resumed = .ok u ∧
      t.status = .succeeded ∧ u.status = .succeeded ∧ t.pc = u.pc ∧
      t.fault = none ∧ u.fault = some (.assertionFailed 0) := by
  intro p clean
  have fails : Stmt.Faults 2 0 .empty .empty .empty (.assert (.lit 0)) (.assertionFailed 0)
      .empty :=
    .inr ⟨0, Expr.denote_eq_ok_iff.mp rfl, rfl, rfl⟩
  have assigns : Stmt.Performs 2 .empty .empty .empty (.assign "x" (.lit 1)) (.bind "x" 1) .empty :=
    ⟨1, rfl, rfl⟩
  refine ⟨_, _, _, _, step_of_transition (Transition.faulted (p := p) (s := {}) rfl (by decide) rfl
    (Stmt.action_eq_error.mpr fails)), rfl, rfl, rfl,
    step_of_transition (Transition.executed (p := p) (s := clean) rfl (by decide) rfl assigns),
    step_of_transition (Transition.executed (p := p) rfl (by decide) rfl assigns),
    rfl, rfl, rfl, rfl, rfl⟩

end Program

end FlatIL
