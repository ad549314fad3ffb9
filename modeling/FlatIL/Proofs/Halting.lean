import FlatIL.Proofs.Pieces

/-!
# Programs that only jump ahead

If every target of a jump is a literal that names a position behind it, a statement that does not
fault takes the run further on, whatever it computes. So a run executes at most as many statements
as there are from its position up to the end, and then it has ended: it has fallen off the end, or
it has met a fault, as it does at a jump to a position that the program does not have. Without any
jump, a run that succeeds has executed all of these statements.
-/

namespace FlatIL

/-- Whether a target is a literal that names a position behind the given one. -/
def Expr.isAhead (position : Nat) : Expr → Bool
  | .lit value => position < value.toNat
  | _ => false

/-- Whether the targets of the statement at a position, if it has any, are literals that name
positions behind it. -/
def Stmt.jumpsAhead (position : Nat) : Stmt → Bool
  | .goto target => target.isAhead position
  | .branch _ thenTarget elseTarget => thenTarget.isAhead position && elseTarget.isAhead position
  | .assign .. | .store .. | .assert _ => true

/-- Whether every jump of a program leads ahead. -/
def Program.jumpsAhead (p : Program) : Bool :=
  p.statements.zipIdx.all fun (stmt, position) => stmt.jumpsAhead position

/-- A target that is ahead has a value that is. -/
theorem Expr.lt_of_isAhead {position : Nat} {target : Expr} (ahead : target.isAhead position = true)
    {env : Env} {memory : Memory} {inputs rest : Inputs} {value : Word}
    (denoted : target.denote env memory inputs = (.ok value, rest)) : position < value.toNat := by
  cases target with
  | lit literal =>
    obtain rfl : literal = value := Except.ok.inj (congrArg Prod.fst denoted)
    simpa [isAhead] using ahead
  | var name | load address | unary op operand | binary op left right | input source => cases ahead

/-- A statement that jumps ahead, if at all, leads further on. -/
theorem Stmt.Performs.pc_lt {size position : Nat} {stmt : Stmt} {env : Env} {memory : Memory}
    {inputs rest : Inputs} {change : Change}
    (performed : stmt.Performs size env memory inputs change rest)
    (ahead : stmt.jumpsAhead position = true) {s : State} (here : s.pc = position) :
    s.pc < (s.apply change).pc := by
  cases stmt with
  | assign target value | store address value | assert condition =>
    have next := performed.pc_apply rfl s
    omega
  | goto target =>
    obtain ⟨t, denoted, -, rfl⟩ := performed
    have further := Expr.lt_of_isAhead ahead denoted
    exact here ▸ Int.ofNat_lt.mpr further
  | branch condition thenTarget elseTarget =>
    obtain ⟨v, between, t, -, denoted, -, rfl⟩ := performed
    obtain ⟨thenAhead, elseAhead⟩ := Bool.and_eq_true_iff.mp ahead
    have taken : (if v.truth then thenTarget else elseTarget).isAhead position = true := by
      split
      · exact thenAhead
      · exact elseAhead
    exact here ▸ Int.ofNat_lt.mpr (Expr.lt_of_isAhead taken denoted)

namespace Program

variable {p : Program} {s t u : State}

/-- Each statement of a program that only jumps ahead does so from its own position. -/
theorem jumpsAhead_of_next (onlyAhead : p.jumpsAhead = true) {position : Nat} {stmt : Stmt}
    (next : p.statements[position]? = some stmt) : stmt.jumpsAhead position = true := by
  have listed : (stmt, position) ∈ p.statements.zipIdx := List.mk_mem_zipIdx_iff_getElem?.mpr next
  exact List.all_eq_true.mp onlyAhead _ listed

/-! ## One step -/

/-- Everything that a step of a run that goes on can do if all jumps lead ahead. -/
inductive Ascends (p : Program) (s : State) : State → Prop where
  /-- A run at the end of the program ends there, and nothing is executed. -/
  | finished (atEnd : s.pc = p.size) : Ascends p s s.succeed
  /-- A statement is executed and ends the run with a fault. -/
  | faulted {t : State} (inside : s.pc < p.size) (failed : t.status = .failed)
      (counted : t.steps = s.steps + 1) : Ascends p s t
  /-- A statement is executed and leads further on; the run ends if that is the end. -/
  | advanced {t : State} (further : s.pc < t.pc) (counted : t.steps = s.steps + 1)
      (settled : t.status = if t.pc = p.size then .succeeded else .running) : Ascends p s t

/-- A step of a run that goes on does one of these things. -/
theorem ascends_of_step (onlyAhead : p.jumpsAhead = true) (running : s.isRunning = true)
    (stepped : p.step s = .ok t) : p.Ascends s t := by
  cases transition_of_step stepped with
  | halted ended => rw [running] at ended; cases ended
  | finished _ atEnd => exact .finished atEnd
  | faulted _ nonneg next acted => exact .faulted (lt_size_of_next nonneg next) rfl rfl
  | @executed stmt change inputs _ nonneg next performed =>
    have ahead := jumpsAhead_of_next onlyAhead next
    have here : (s.count inputs).pc = s.pc.toNat := by
      rw [Int.toNat_of_nonneg nonneg]
      rfl
    have further := performed.pc_lt ahead here
    rw [State.settle_eq]
    refine .advanced further (State.steps_apply _ change) ?_
    have status : ((s.count inputs).apply change).status = .running := by
      rw [State.status_apply]
      exact State.isRunning_iff.mp running
    simp only [status]

/-- A run that goes on after some steps is not at the end, unless no step was made. -/
theorem eq_or_ne_size_of_steps (onlyAhead : p.jumpsAhead = true) (steps : p.Steps s u)
    (running : u.isRunning = true) : u = s ∨ u.pc ≠ p.size := by
  cases steps with
  | refl => exact .inl rfl
  | @tail before _ _ stepped =>
    cases before.isRunning.eq_false_or_eq_true with
    | inr ended =>
      rw [step_of_ended ended] at stepped
      obtain rfl := Except.ok.inj stepped
      rw [running] at ended
      cases ended
    | inl wasRunning =>
      have status := State.isRunning_iff.mp running
      cases ascends_of_step onlyAhead wasRunning stepped with
      | finished atEnd => cases running
      | faulted inside failed counted => rw [status] at failed; cases failed
      | advanced further counted settled =>
        refine .inr fun atEnd => ?_
        rw [status, if_pos atEnd] at settled
        cases settled

/-! ## Whole runs -/

/-- A run that has ended is found at once. -/
theorem runWithin_of_ended (ended : s.isRunning = false) (patience : Nat) :
    p.runWithin patience s = some (.ok s) := by
  cases patience <;> rw [runWithin, if_neg (by simp [ended])]

/-- A run ends if all jumps lead ahead, and it executes no more statements than there are from its
position up to the end. -/
theorem Within.exists_runWithin (within : p.Within s) (onlyAhead : p.jumpsAhead = true) :
    ∃ t, (∀ patience : Nat, p.size < s.pc + patience → p.runWithin patience s = some (.ok t)) ∧
      t.isRunning = false ∧ t.steps + s.pc ≤ s.steps + p.size := by
  -- The statements from the position up to the end are what every step makes fewer.
  generalize remaining : (p.size - s.pc).toNat = left
  induction left using Nat.strongRecOn generalizing s with
  | ind left ih =>
    have atMost := within.atMost
    cases running : s.isRunning with
    | false => exact ⟨s, fun patience _ => runWithin_of_ended running patience, running, by omega⟩
    | true =>
      obtain ⟨u, stepped⟩ := step_isOk within.nonneg within.atMost
      have goesOn {patience : Nat} (enough : p.size < s.pc + patience) :
          ∃ fewer : Nat, p.size < s.pc + fewer + 1 ∧
            p.runWithin patience s = p.runWithin fewer u := by
        obtain ⟨fewer, rfl⟩ := Nat.exists_eq_add_one_of_ne_zero (show patience ≠ 0 by omega)
        exact ⟨fewer, by omega, by rw [runWithin, if_pos running, stepped]⟩
      have atOnce (ended : u.isRunning = false) (patience : Nat)
          (enough : p.size < s.pc + patience) : p.runWithin patience s = some (.ok u) := by
        obtain ⟨fewer, -, same⟩ := goesOn enough
        rw [same, runWithin_of_ended ended]
      cases ascends_of_step onlyAhead running stepped with
      | finished atEnd => exact ⟨s.succeed, atOnce rfl, rfl, by simp only [State.succeed]; omega⟩
      | faulted inside failed counted =>
        have ended : u.isRunning = false := by simp [State.isRunning, failed]
        exact ⟨u, atOnce ended, ended, by omega⟩
      | advanced further counted settled =>
        have inside := within.step stepped
        have bound := inside.atMost
        obtain ⟨t, found, ended, few⟩ := ih _ (by omega) inside rfl
        refine ⟨t, fun patience enough => ?_, ended, by omega⟩
        obtain ⟨fewer, less, same⟩ := goesOn enough
        rw [same]
        exact found fewer (by omega)

/-- Without any jump, a run that succeeds is at the end and has executed all statements from its
position on. -/
theorem RunsTo.executes_all (straight : ∀ stmt ∈ p.statements, stmt.jumps = false)
    (runs : p.RunsTo s t) (started : s.status = .succeeded → s.pc = p.size)
    (succeeded : t.status = .succeeded) :
    t.pc = p.size ∧ t.steps + s.pc = s.steps + p.size := by
  induction runs with
  | halted ended =>
    have atEnd := started succeeded
    exact ⟨atEnd, by omega⟩
  | @step s u t running stepped rest ih =>
    cases transition_of_step stepped with
    | halted ended => exact ih started succeeded
    | finished _ atEnd => exact ih (fun _ => atEnd) succeeded
    | faulted _ nonneg next acted =>
      obtain rfl := rest.eq_of_ended rfl
      cases succeeded
    | @executed stmt change inputs _ nonneg next performed =>
      have advanced : ((s.count inputs).apply change).pc = s.pc + 1 :=
        performed.pc_apply (straight stmt (List.mem_of_getElem? next)) (s.count inputs)
      have counted : ((s.count inputs).apply change).steps = s.steps + 1 :=
        State.steps_apply _ change
      have status : ((s.count inputs).apply change).status = .running := by
        rw [State.status_apply]
        exact State.isRunning_iff.mp running
      rw [State.settle_eq] at ih
      have settled : (if ((s.count inputs).apply change).pc = p.size then .succeeded
          else ((s.count inputs).apply change).status) = Status.succeeded →
          ((s.count inputs).apply change).pc = p.size := by
        intro ended
        by_contra notAtEnd
        rw [if_neg notAtEnd, status] at ended
        cases ended
      obtain ⟨atEnd, executed⟩ := ih settled succeeded
      dsimp only at executed
      rw [advanced, counted] at executed
      exact ⟨atEnd, by omega⟩

/-- A run in a program whose jumps all lead ahead ends, after at most as many statements as there
are from its position up to the end. Each of its steps executes a statement, which faults or leads
further on; only a run that is at the end from the start makes one step that executes nothing. If
there is no jump and the run succeeds, it has executed exactly the statements up to the end, and the
end is where it is. -/
theorem halts_of_jumpsAhead {p : Program} {s : State} (onlyAhead : p.jumpsAhead = true)
    (running : s.isRunning = true) (nonneg : 0 ≤ s.pc) (atMost : s.pc ≤ p.size) :
    ∃ t, (∀ patience : Nat, p.size - s.pc < patience →
        (Engine.program p).run none patience s = some (t, none)) ∧
      t.isRunning = false ∧ (t.steps : Int) ≤ s.steps + (p.size - s.pc) ∧
      (∀ u v, p.Steps s u → u.isRunning = true → p.step u = .ok v →
        (v.steps = u.steps + 1 ∧ (v.status = .failed ∨ u.pc < v.pc)) ∨
          (v.steps = u.steps ∧ u = s ∧ s.pc = p.size ∧ v = s.succeed)) ∧
      ((∀ stmt ∈ p.statements, stmt.jumps = false) → t.status = .succeeded →
        (t.steps : Int) = s.steps + (p.size - s.pc) ∧ t.pc = p.size) := by
  have within : p.Within s := ⟨nonneg, atMost⟩
  obtain ⟨t, found, ended, few⟩ := within.exists_runWithin onlyAhead
  refine ⟨t, ?_, ended, by omega, ?_, ?_⟩
  · intro patience enough
    exact (engine_run_unbounded patience).mpr (found patience (by omega))
  · intro u v steps goesOn stepped
    cases ascends_of_step onlyAhead goesOn stepped with
    | finished atEnd =>
      rcases eq_or_ne_size_of_steps onlyAhead steps goesOn with rfl | notAtEnd
      · exact .inr ⟨rfl, rfl, atEnd, rfl⟩
      · exact absurd atEnd notAtEnd
    | faulted inside failed counted => exact .inl ⟨counted, .inl failed⟩
    | advanced further counted settled => exact .inl ⟨counted, .inr further⟩
  · intro straight succeeded
    have runs : p.RunsTo s t := runsTo_iff_runWithin.mpr ⟨p.size + 1, found _ (by omega)⟩
    have started : s.status = .succeeded → s.pc = p.size := by
      intro early
      rw [State.isRunning_iff.mp running] at early
      cases early
    obtain ⟨atEnd, executed⟩ := runs.executes_all straight started succeeded
    exact ⟨by omega, atEnd⟩

/-- A branch over a jump that leads out of the program, and statements without jumps in a run that
was resumed. -/
theorem halts_of_jumpsAhead_of_branch :
    let p : Program := ⟨[.branch (.var "x") (.lit 2) (.lit 1), .goto (.lit 7), .assert (.lit 1)]⟩
    let q : Program := ⟨[.assert (.lit 0), .assign "x" (.lit 1), .assert (.var "x")]⟩
    let s : State := { pc := 1, steps := 5 }
    (p.jumpsAhead = true ∧ ∃ t, (Engine.program p).run none 4 {} = some (t, none) ∧
        t.isRunning = false ∧ t.steps ≤ 3) ∧
      q.jumpsAhead = true ∧ (∀ stmt ∈ q.statements, stmt.jumps = false) ∧
        ∃ t, (Engine.program q).run none 3 s = some (t, none) ∧ t.status = .succeeded ∧
          t.steps = 7 ∧ t.pc = 3 := by
  intro p q s
  obtain ⟨t, found, ended, few, -⟩ :=
    halts_of_jumpsAhead (p := p) (s := {}) (by decide) rfl (by decide) (by decide)
  obtain ⟨u, found', -, -, -, all⟩ :=
    halts_of_jumpsAhead (p := q) (s := s) (by decide) rfl (by decide) (by decide)
  have straight : ∀ stmt ∈ q.statements, stmt.jumps = false := by decide
  have ran := found' 3 (by decide)
  have succeeds : ((Engine.program q).run none 3 s).map (·.1.status) = some .succeeded := by
    decide +kernel
  have succeeded : u.status = .succeeded := by
    rw [ran] at succeeds
    exact Option.some.inj succeeds
  obtain ⟨executed, atEnd⟩ := all straight succeeded
  refine ⟨⟨by decide, t, found 4 (by decide), ended, ?_⟩, by decide, straight, u, ran, succeeded,
    ?_, atEnd⟩
  · have count : (t.steps : Int) ≤ 0 + (3 - 0) := few
    omega
  · have count : (u.steps : Int) = 5 + (3 - 1) := executed
    omega

end Program

end FlatIL
