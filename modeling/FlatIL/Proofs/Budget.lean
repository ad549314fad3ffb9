import FlatIL.Engine
import FlatIL.Proofs.Control

/-!
# Runs with a budget

A run with a budget makes as many steps as the budget says, and steps of a run that has ended
change nothing; so budgets add up, and a run without a budget ends where a large enough one
leads. The count of statements and the count of steps part in one place: a run at the end of the
program ends by a step that executes nothing, and without a budget for that step it goes on.
-/

namespace FlatIL

/-- The position is inside a program or at its end. -/
structure Program.Within (p : Program) (s : State) : Prop where
  nonneg : 0 ≤ s.pc
  atMost : s.pc ≤ p.size

namespace Program

variable {p : Program} {s t : State}

/-- A step leads from inside the program to inside the program. -/
theorem Within.step (within : p.Within s) (stepped : p.step s = .ok t) : p.Within t := by
  obtain ⟨nonneg, atMost⟩ := within
  cases transition_of_step stepped with
  | halted ended => exact ⟨nonneg, atMost⟩
  | finished running atEnd => exact ⟨nonneg, atMost⟩
  | faulted running _ next acted => exact ⟨nonneg, atMost⟩
  | @executed stmt change inputs running _ next performed =>
    have inside := lt_size_of_next nonneg next
    rw [State.settle_eq]
    rcases pc_of_performs performed with ⟨-, advanced⟩ | ⟨low, high⟩
    · exact ⟨by dsimp only; omega, by dsimp only; omega⟩
    · exact ⟨low, Int.le_of_lt high⟩

/-- A step at a statement is counted. -/
theorem steps_of_inside (running : s.isRunning = true) (inside : s.pc < p.size)
    (stepped : p.step s = .ok t) : t.steps = s.steps + 1 := by
  cases transition_of_step stepped with
  | halted ended => rw [running] at ended; cases ended
  | finished _ atEnd => omega
  | faulted _ nonneg next acted => rfl
  | @executed stmt change inputs _ nonneg next performed =>
    rw [State.settle_eq]
    exact State.steps_apply _ change

/-- A step does not take back what was counted. -/
theorem steps_le_of_step (stepped : p.step s = .ok t) : s.steps ≤ t.steps := by
  cases running : s.isRunning with
  | false =>
    rw [step_of_ended running] at stepped
    obtain rfl := Except.ok.inj stepped
    exact Nat.le_refl _
  | true => rcases step_progress running stepped with counted | ⟨uncounted, -⟩ <;> omega

/-! ## One step of a run -/

/-- A run that has ended goes no further. -/
theorem runFor_of_ended (ended : s.isRunning = false) (n : Nat) : p.runFor n s = .ok s := by
  rw [runFor, runUntil, dif_neg (by simp [ended])]

/-- Without a budget for it no step is made. -/
theorem runFor_zero (p : Program) (s : State) : p.runFor 0 s = .ok s := by
  rw [runFor, runUntil]
  by_cases running : s.isRunning = true
  · rw [dif_pos running, dif_neg (by omega)]
  · rw [dif_neg running]

/-- A run with a budget makes a step and goes on with what is left of the budget. -/
theorem runFor_succ (running : s.isRunning = true) (stepped : p.step s = .ok t) (n : Nat) :
    p.runFor (n + 1) s = p.runFor n t := by
  rw [runFor, runUntil, dif_pos running, dif_pos (by omega)]
  split
  · next error failed => rw [stepped] at failed; cases failed
  · next u stepped' =>
    obtain rfl := Except.ok.inj (stepped.symm.trans stepped')
    rcases step_progress running stepped with counted | ⟨-, ended⟩
    · rw [runFor, counted, Nat.add_assoc, Nat.add_comm 1 n]
    · -- The step was not counted, but neither budget matters to a run that has ended.
      rw [runFor_of_ended ended, runUntil, dif_neg (by simp [ended])]

/-! ## Runs as steps -/

/-- What a number of steps of an engine leads to. -/
theorem steps_succ (stepped : p.step s = .ok t) (n : Nat) :
    (Engine.program p).steps (n + 1) s = (Engine.program p).steps n t := by
  rw [Engine.steps, Engine.step, stepped]

/-- Where a run with a budget leads: to the state after that many steps, which has executed no
more statements than the budget allows, and exactly as many if it goes on. -/
structure Spends (p : Program) (n : Nat) (s t : State) : Prop where
  ran : p.runFor n s = .ok t
  stepped : (Engine.program p).steps n s = (t, none)
  within : p.Within t
  atMost : t.steps ≤ s.steps + n
  exactly : t.isRunning = true → t.steps = s.steps + n

/-- A run that has ended spends nothing. -/
theorem Spends.of_ended (within : p.Within s) (ended : s.isRunning = false) (n : Nat) :
    p.Spends n s s := by
  refine ⟨runFor_of_ended ended n, ?_, within, Nat.le_add_right _ _, by simp [ended]⟩
  induction n with
  | zero => rfl
  | succ n ih => exact (steps_succ (step_of_ended ended) n).trans ih

/-- A run with a budget inside the program leads to the state after that many steps. -/
theorem Within.spends (within : p.Within s) (n : Nat) : ∃ t, p.Spends n s t := by
  induction n generalizing s with
  | zero => exact ⟨s, runFor_zero p s, rfl, within, Nat.le_refl _, fun _ => rfl⟩
  | succ n ih =>
    cases running : s.isRunning with
    | false => exact ⟨s, .of_ended within running (n + 1)⟩
    | true =>
      obtain ⟨u, stepped⟩ := step_isOk within.nonneg within.atMost
      have inside := within.step stepped
      rcases step_progress running stepped with counted | ⟨uncounted, ended⟩
      · obtain ⟨t, rest⟩ := ih inside
        refine ⟨t, (runFor_succ running stepped n).trans rest.ran,
          (steps_succ stepped n).trans rest.stepped, rest.within, ?_, ?_⟩
        · have atMost := rest.atMost
          omega
        · intro goesOn
          have exactly := rest.exactly goesOn
          omega
      · have rest : p.Spends n u u := .of_ended inside ended n
        exact ⟨u, (runFor_succ running stepped n).trans rest.ran,
          (steps_succ stepped n).trans rest.stepped, inside, by omega, by simp [ended]⟩

/-- One budget after another is the sum of the two. -/
theorem Within.runFor_add (within : p.Within s) {m : Nat} (ran : p.runFor m s = .ok t) (n : Nat) :
    p.runFor n t = p.runFor (m + n) s := by
  induction m generalizing s with
  | zero =>
    rw [runFor_zero] at ran
    obtain rfl := Except.ok.inj ran
    rw [Nat.zero_add]
  | succ m ih =>
    cases running : s.isRunning with
    | false =>
      rw [runFor_of_ended running] at ran
      obtain rfl := Except.ok.inj ran
      rw [runFor_of_ended running, runFor_of_ended running]
    | true =>
      obtain ⟨u, stepped⟩ := step_isOk within.nonneg within.atMost
      rw [runFor_succ running stepped] at ran
      rw [Nat.add_right_comm, runFor_succ running stepped]
      exact ih (within.step stepped) ran

/-- A budget that is larger than one in which a run ends leads to the same end. -/
theorem Within.runFor_of_le (within : p.Within s) {m n : Nat} (ran : p.runFor m s = .ok t)
    (ended : t.isRunning = false) (more : m ≤ n) : p.runFor n s = .ok t := by
  obtain ⟨k, rfl⟩ := Nat.exists_eq_add_of_le more
  rw [← within.runFor_add ran k]
  exact runFor_of_ended ended k

/-! ## Runs without a budget -/

/-- A run without a budget ends in a state that does not go on. -/
theorem RunsTo.ended (runs : p.RunsTo s t) : t.isRunning = false := by
  induction runs with
  | halted ended => exact ended
  | step _ _ _ ih => exact ih

/-- A run without a budget does not take back what was counted. -/
theorem RunsTo.steps_le (runs : p.RunsTo s t) : s.steps ≤ t.steps := by
  induction runs with
  | halted ended => exact Nat.le_refl _
  | step _ stepped _ ih => exact Nat.le_trans (steps_le_of_step stepped) ih

/-- A run without a budget ends where some budget leads. -/
theorem Within.runsTo_iff (within : p.Within s) :
    p.RunsTo s t ↔ ∃ n, p.runFor n s = .ok t ∧ t.isRunning = false := by
  constructor
  · intro runs
    induction runs with
    | halted ended => exact ⟨0, runFor_zero p _, ended⟩
    | step running stepped _ ih =>
      obtain ⟨n, ran, ended⟩ := ih (within.step stepped)
      exact ⟨n + 1, (runFor_succ running stepped n).trans ran, ended⟩
  · rintro ⟨n, ran, ended⟩
    induction n generalizing s with
    | zero =>
      rw [runFor_zero] at ran
      obtain rfl := Except.ok.inj ran
      exact .halted ended
    | succ n ih =>
      cases running : s.isRunning with
      | false =>
        rw [runFor_of_ended running] at ran
        obtain rfl := Except.ok.inj ran
        exact .halted running
      | true =>
        obtain ⟨u, stepped⟩ := step_isOk within.nonneg within.atMost
        rw [runFor_succ running stepped] at ran
        exact .step running stepped (ih (within.step stepped) ran)

/-- A run without a budget passes through every state that a budget leads to. -/
theorem Within.runsTo_of_runFor (within : p.Within s) (runs : p.RunsTo s t) {n : Nat} {u : State}
    (ran : p.runFor n s = .ok u) : p.RunsTo u t := by
  obtain ⟨m, reaches, ended⟩ := within.runsTo_iff.mp runs
  rcases Nat.le_total m n with before | behind
  · have same := within.runFor_of_le reaches ended before
    obtain rfl := Except.ok.inj (same.symm.trans ran)
    exact .halted ended
  · obtain ⟨k, rfl⟩ := Nat.exists_eq_add_of_le behind
    have inside : p.Within u := by
      obtain ⟨v, spends⟩ := within.spends n
      obtain rfl := Except.ok.inj (spends.ran.symm.trans ran)
      exact spends.within
    rw [← within.runFor_add ran k] at reaches
    exact inside.runsTo_iff.mpr ⟨k, reaches, ended⟩

/-- A run that has ended ends where it is. -/
theorem RunsTo.eq_of_ended (runs : p.RunsTo s t) (ended : s.isRunning = false) : s = t := by
  cases runs with
  | halted _ => rfl
  | step running _ _ => rw [running] at ended; cases ended

/-- A run without a budget ends where looking far enough ahead finds its end. -/
theorem runsTo_iff_runWithin :
    p.RunsTo s t ↔ ∃ patience, p.runWithin patience s = some (.ok t) := by
  constructor
  · intro runs
    induction runs with
    | halted ended => exact ⟨0, by rw [runWithin, if_neg (by simp [ended])]⟩
    | step running stepped _ ih =>
      obtain ⟨patience, found⟩ := ih
      exact ⟨patience + 1, by rw [runWithin, if_pos running, stepped]; exact found⟩
  · rintro ⟨patience, found⟩
    fun_induction p.runWithin patience s with
    | case1 s running => cases found
    | case2 s ended =>
      cases found
      exact .halted (by simpa using ended)
    | case3 patience s running error stepped => cases found
    | case4 patience s running u stepped ih => exact .step running stepped (ih found)
    | case5 patience s ended =>
      cases found
      exact .halted (by simpa using ended)

/-! ## Engines -/

/-- A budget that is not negative is taken as it is. -/
theorem run_budget (p : Program) (n patience : Nat) (s : State) :
    p.run (some n) patience s = some ((p.runFor n s).mapError RunError.counter) := by
  have nonneg : ¬ (n : Int) < 0 := by omega
  simp only [Program.run, if_neg nonneg, Int.toNat_natCast]

/-- What a budget leads to is reached. -/
theorem Reachable.runFor (reached : p.Reachable s) {n : Nat} (ran : p.runFor n s = .ok t) :
    p.Reachable t := by
  have made : p.run (some n) 0 s = some (.ok t) := by
    rw [run_budget, ran]
    rfl
  exact .run reached made

/-- An engine runs its program. -/
theorem engine_run_iff {budget : Option Int} {patience : Nat} :
    (Engine.program p).run budget patience s = some (t, none) ↔
      p.run budget patience s = some (.ok t) := by
  rw [Engine.run]
  rcases p.run budget patience s with _ | (error | u)
  · exact ⟨nofun, nofun⟩
  · exact ⟨nofun, nofun⟩
  · simp

/-- An engine with a budget runs its program with that budget. -/
theorem engine_run_budget (n patience : Nat) :
    (Engine.program p).run (some n) patience s = some (t, none) ↔ p.runFor n s = .ok t := by
  rw [engine_run_iff, run_budget, Option.some.injEq, mapError_eq_ok]

/-- An engine without a budget runs its program to its end. -/
theorem engine_run_unbounded (patience : Nat) :
    (Engine.program p).run none patience s = some (t, none) ↔
      p.runWithin patience s = some (.ok t) := by
  rw [engine_run_iff, Program.run, Option.map_eq_some_iff]
  simp only [mapError_eq_ok, exists_eq_right]

/-- A run with a budget is made, and it is as many steps as the budget says. Hence budgets add up;
a run executes no more statements than its budget allows, and exactly as many if it goes on; and
a run without a budget ends where some budget ends it, and then every larger one does. -/
theorem run_eq_steps {p : Program} {s : State} (nonneg : 0 ≤ s.pc) (atMost : s.pc ≤ p.size)
    (patience : Nat) :
    let engine := Engine.program p
    (∀ n : Nat, ∃ t, engine.run (some n) patience s = some (t, none) ∧
        engine.steps n s = (t, none) ∧ t.steps ≤ s.steps + n ∧
        (t.isRunning = true → t.steps = s.steps + n)) ∧
      (∀ m n : Nat, ∀ t, engine.run (some m) patience s = some (t, none) →
        engine.run (some n) patience t = engine.run (some (m + n : Nat)) patience s) ∧
      (∀ t, p.RunsTo s t ↔ ∃ lookahead, engine.run none lookahead s = some (t, none)) ∧
      (∀ t, p.RunsTo s t ↔
        ∃ n : Nat, engine.run (some n) patience s = some (t, none) ∧ t.isRunning = false) ∧
      (∀ m n : Nat, ∀ t, engine.run (some m) patience s = some (t, none) → t.isRunning = false →
        m ≤ n → engine.run (some n) patience s = some (t, none)) := by
  intro engine
  have within : p.Within s := ⟨nonneg, atMost⟩
  refine ⟨?_, ?_, ?_, ?_, ?_⟩
  · intro n
    obtain ⟨t, spends⟩ := within.spends n
    exact ⟨t, (engine_run_budget n patience).mpr spends.ran, spends.stepped, spends.atMost,
      spends.exactly⟩
  · intro m n t first
    have ran := (engine_run_budget m patience).mp first
    obtain ⟨u, spends⟩ := within.spends (m + n)
    have rest : p.runFor n t = .ok u := (within.runFor_add ran n).trans spends.ran
    have whole := (engine_run_budget (m + n) patience).mpr spends.ran
    rw [(engine_run_budget n patience).mpr rest, whole]
  · intro t
    simp only [engine, engine_run_unbounded]
    exact runsTo_iff_runWithin
  · intro t
    simp only [engine, engine_run_budget]
    exact within.runsTo_iff
  · intro m n t first ended more
    have ran := (engine_run_budget m patience).mp first
    exact (engine_run_budget n patience).mpr (within.runFor_of_le ran ended more)

/-- A loop that a budget interrupts, in a run that was resumed. -/
theorem run_eq_steps_of_loop :
    let p : Program := ⟨[.goto (.lit 0)]⟩
    let s : State := { steps := 7 }
    0 ≤ s.pc ∧ s.pc ≤ p.size ∧
      (Engine.program p).run (some 3) 0 s = some ({ steps := 10 }, none) ∧
      (Engine.program p).run (some 2) 0 { steps := 10 } =
        (Engine.program p).run (some 5) 0 s := by
  intro p s
  have jumps : Stmt.Performs 1 .empty .empty .empty (.goto (.lit 0)) (.jump 0) .empty :=
    ⟨0, rfl, by decide, rfl⟩
  have turn (k : Nat) : p.step { steps := k } = .ok { steps := k + 1 } :=
    step_of_transition (Transition.executed (p := p) (s := { steps := k }) rfl (Int.le_refl 0) rfl
      jumps)
  have three : (Engine.program p).steps 3 s = ({ steps := 10 }, none) := by
    rw [steps_succ (turn 7), steps_succ (turn 8), steps_succ (turn 9)]
    rfl
  obtain ⟨made, added, -⟩ := run_eq_steps (p := p) (s := s) (by decide) (by decide) 0
  obtain ⟨t, ran, stepped, -⟩ := made 3
  rw [three] at stepped
  obtain rfl : { steps := 10 } = t := congrArg Prod.fst stepped
  exact ⟨by decide, by decide, ran, added 3 2 _ ran⟩

/-! ## Sufficient budgets -/

/-- A run that goes on at a statement still executes one before it ends. -/
theorem RunsTo.steps_lt (runs : p.RunsTo s t) (running : s.isRunning = true)
    (inside : s.pc < p.size) : s.steps < t.steps := by
  cases runs with
  | halted ended => rw [running] at ended; cases ended
  | step _ stepped rest =>
    have counted := steps_of_inside running inside stepped
    have kept := rest.steps_le
    omega

/-- A run of a program without statements ends in its first step. -/
theorem ended_of_empty (running : s.isRunning = true) (start : s.pc = 0) (empty : p.size = 0)
    {n : Nat} (positive : 0 < n) (ran : p.runFor n s = .ok t) : t.isRunning = false := by
  obtain ⟨k, rfl⟩ := Nat.exists_eq_succ_of_ne_zero (Nat.ne_of_gt positive)
  have finishes : p.step s = .ok s.succeed := step_of_transition (.finished running (by omega))
  have ended : s.succeed.isRunning = false := rfl
  rw [runFor_succ running finishes, runFor_of_ended ended] at ran
  obtain rfl := Except.ok.inj ran
  rfl

/-- A budget for all statements that a run from a fresh state executes before it ends leads to
that end, unless there is nothing to execute and no budget to find that out. -/
theorem run_of_sufficient_budget {p : Program} {s t : State} (fresh : s.Fresh) {lookahead : Nat}
    (halts : (Engine.program p).run none lookahead s = some (t, none)) {n : Nat}
    (enough : t.steps ≤ n) (patience : Nat) :
    (Engine.program p).run (some n) patience s = some (t, none) ↔ 0 < p.size ∨ 0 < n := by
  obtain ⟨start, running, fromZero⟩ : s.pc = 0 ∧ s.isRunning = true ∧ s.steps = 0 := by
    obtain ⟨env, memory, inputs, rfl⟩ := fresh.eq_seeded
    exact ⟨rfl, rfl, rfl⟩
  have within : p.Within s := ⟨by omega, by omega⟩
  have runs : p.RunsTo s t :=
    runsTo_iff_runWithin.mpr ⟨lookahead, (engine_run_unbounded lookahead).mp halts⟩
  rw [engine_run_budget]
  constructor
  · intro ran
    rcases Nat.eq_zero_or_pos n with none | positive
    · rw [none, runFor_zero] at ran
      obtain rfl := Except.ok.inj ran
      rw [runs.ended] at running
      cases running
    · exact .inr positive
  · intro something
    obtain ⟨u, spends⟩ := within.spends n
    have rest : p.RunsTo u t := within.runsTo_of_runFor runs spends.ran
    have ended : u.isRunning = false := by
      cases goesOn : u.isRunning with
      | false => rfl
      | true =>
        have spent := spends.exactly goesOn
        have control := (Reachable.runFor (.fresh fresh) spends.ran).control
        rcases control.running (State.isRunning_iff.mp goesOn) with inside | empty
        · have more := rest.steps_lt goesOn inside
          omega
        · have positive : 0 < n := by omega
          rw [ended_of_empty running start empty positive spends.ran] at goesOn
          cases goesOn
    obtain rfl := rest.eq_of_ended ended
    exact spends.ran

/-- A failed assertion ends a run after one statement, for which a budget of one is enough. -/
theorem run_of_sufficient_budget_of_fault :
    let p : Program := ⟨[.assert (.lit 0)]⟩
    let t : State := State.fail { steps := 1 } (.assertionFailed 0)
    ({} : State).Fresh ∧ (Engine.program p).run none 1 {} = some (t, none) ∧
      (Engine.program p).run (some 1) 0 {} = some (t, none) := by
  intro p t
  have fresh : ({} : State).Fresh := ⟨{}, .inl rfl⟩
  have acted : (Stmt.action p.size 0 .empty .empty (.assert (.lit 0))).run .empty =
      (.error (.assertionFailed 0), .empty) := by
    rw [Stmt.action, Reading.run_bind, Expr.eval_run]
    rfl
  have fails : p.step {} = .ok t :=
    step_of_transition (Transition.faulted (p := p) (s := {}) rfl (Int.le_refl 0) rfl acted)
  have halts : (Engine.program p).run none 1 {} = some (t, none) := by
    have running : ({} : State).isRunning = true := rfl
    rw [engine_run_unbounded, runWithin, if_pos running, fails]
    rfl
  exact ⟨fresh, halts,
    (run_of_sufficient_budget fresh halts (Nat.le_refl 1) 0).mpr (.inl (by decide))⟩

/-- A program without statements succeeds without executing any, but not within a budget of
none, which leaves it running. -/
theorem empty_program_outruns_budget :
    let engine := Engine.program ⟨[]⟩
    let t : State := { status := .succeeded }
    engine.run none 1 {} = some (t, none) ∧ t.steps = 0 ∧
      engine.run (some 0) 1 {} = some ({}, none) ∧ ({} : State) ≠ t := by
  intro engine t
  have stays := (engine_run_budget 0 1).mpr (runFor_zero ⟨[]⟩ {})
  exact ⟨rfl, rfl, stays, by decide⟩

end Program

end FlatIL
