import FlatIL.Proofs.Fault
import FlatIL.Proofs.Repl
import Mathlib.Algebra.GroupWithZero.Nat

/-!
# Programs in pieces

Statements that never jump are executed one after the other, so how far they get can be said without
a program around them: `Shared.follow` gives what they leave, how many of them are executed and the
fault that ends them. Following one list of statements and then another is following both, and where
the first one stands matters only to what a failed assertion says of its place. A program without
jumps that is cut into pieces, each run from its own beginning, therefore does what the whole does.
-/

namespace FlatIL

/-- A fault that is met some statements later. Only a failed assertion says where it stands. -/
def Fault.moved (distance : Int) : Fault → Fault
  | .assertionFailed pc => .assertionFailed (pc + distance)
  | fault => fault

namespace Fault

/-- A fault that is met later is of the same kind. -/
@[simp]
theorem kind_moved (distance : Int) (fault : Fault) : (fault.moved distance).kind = fault.kind := by
  cases fault <;> rfl

/-- A fault that is not met later is the same. -/
@[simp]
theorem moved_zero (fault : Fault) : fault.moved 0 = fault := by
  cases fault <;> simp [moved]

/-- Distances add up. -/
theorem moved_moved (near far : Int) (fault : Fault) :
    (fault.moved near).moved far = fault.moved (near + far) := by
  cases fault <;> simp [moved, Int.add_assoc]

end Fault

/-- A fault of an expression does not say where it stands. -/
theorem Expr.Faults.moved {env : Env} {memory : Memory} {e : Expr} {inputs rest : Inputs}
    {fault : Fault} (faults : e.Faults env memory inputs fault rest) (distance : Int) :
    e.Faults env memory inputs (fault.moved distance) rest := by
  have same : fault.moved distance = fault := by
    cases raises_of_denote (denote_eq_error_iff.mpr faults) <;> rfl
  rw [same]
  exact faults

namespace Stmt

/-- The size of the program does not matter to a statement that never jumps. -/
theorem action_of_straight {stmt : Stmt} (straight : stmt.jumps = false) (size : Nat) (pc : Int)
    (env : Env) (memory : Memory) :
    stmt.action size pc env memory = stmt.action 0 pc env memory := by
  cases stmt with
  | assign target value | store address value | assert condition => rfl
  | goto target | branch condition thenTarget elseTarget => cases straight

/-- The position of a statement that never jumps matters only to its fault. -/
theorem run_action_moved {stmt : Stmt} (straight : stmt.jumps = false) (size : Nat)
    (pc distance : Int) (env : Env) (memory : Memory) (inputs : Inputs) :
    (stmt.action size (pc + distance) env memory).run inputs =
      (((stmt.action size pc env memory).run inputs).1.mapError (Fault.moved distance),
        ((stmt.action size pc env memory).run inputs).2) := by
  rcases acted : (stmt.action size pc env memory).run inputs with ⟨fault | change, rest⟩
  · refine action_eq_error.mpr ?_
    have faults := action_eq_error.mp acted
    cases stmt with
    | assign target value => exact faults.moved distance
    | store address value =>
      obtain first | ⟨a, between, yields, second⟩ := faults
      · exact .inl (first.moved distance)
      · exact .inr ⟨a, between, yields, second.moved distance⟩
    | assert condition =>
      obtain tested | ⟨v, yields, zero, rfl⟩ := faults
      · exact .inl (tested.moved distance)
      · exact .inr ⟨v, yields, zero, rfl⟩
    | goto target | branch condition thenTarget elseTarget => cases straight
  · exact (action_eq_ok _).mpr ((action_eq_ok pc).mp acted)

/-- A statement that never jumps leads to the next position. -/
theorem Performs.pc_apply {size : Nat} {stmt : Stmt} {env : Env} {memory : Memory}
    {inputs rest : Inputs} {change : Change}
    (performed : stmt.Performs size env memory inputs change rest) (straight : stmt.jumps = false)
    (s : State) : (s.apply change).pc = s.pc + 1 := by
  cases stmt with
  | assign target value =>
    obtain ⟨v, -, rfl⟩ := performed
    rfl
  | store address value =>
    obtain ⟨a, between, v, -, -, rfl⟩ := performed
    rfl
  | assert condition =>
    obtain ⟨v, -, -, rfl⟩ := performed
    rfl
  | goto target | branch condition thenTarget elseTarget => cases straight

end Stmt

namespace Command

/-! ## Following statements -/

/-- How far statements get that never jump. -/
structure Course where
  /-- What they leave. -/
  shared : Shared
  /-- The position behind the last of them, or that of the one that faults. -/
  pc : Int
  /-- How many are executed. -/
  steps : Nat
  /-- The fault that ends them. -/
  fault : Option Fault

/-- The same course some statements later. -/
def Course.moved (distance : Int) (course : Course) : Course :=
  { course with pc := course.pc + distance, fault := course.fault.map (Fault.moved distance) }

namespace Shared

/-- What a change leaves. -/
def apply (shared : Shared) (inputs : Inputs) (change : Change) : Shared :=
  .ofState ({ shared.start with inputs }.apply change)

/-- Executes statements from a position on, one after the other. -/
def follow (shared : Shared) (pc : Int) : List Stmt → Course
  | [] => { shared, pc, steps := 0, fault := none }
  | stmt :: stmts =>
    match (stmt.action 0 pc shared.env shared.memory).run shared.inputs with
    | (.error fault, inputs) =>
      { shared := { shared with inputs }, pc, steps := 1, fault := some fault }
    | (.ok change, inputs) =>
      let course := (shared.apply inputs change).follow (pc + 1) stmts
      { course with steps := course.steps + 1 }

/-- A statement that faults is the last one. -/
theorem follow_of_error {shared : Shared} {pc : Int} {stmt : Stmt} {fault : Fault}
    {inputs : Inputs}
    (acted : (stmt.action 0 pc shared.env shared.memory).run shared.inputs = (.error fault, inputs))
    (stmts : List Stmt) :
    shared.follow pc (stmt :: stmts) =
      { shared := { shared with inputs }, pc, steps := 1, fault := some fault } := by
  rw [follow, acted]

/-- A statement that does not fault is followed by the others. -/
theorem follow_of_ok {shared : Shared} {pc : Int} {stmt : Stmt} {change : Change} {inputs : Inputs}
    (acted : (stmt.action 0 pc shared.env shared.memory).run shared.inputs = (.ok change, inputs))
    (stmts : List Stmt) :
    shared.follow pc (stmt :: stmts) =
      { (shared.apply inputs change).follow (pc + 1) stmts with
        steps := ((shared.apply inputs change).follow (pc + 1) stmts).steps + 1 } := by
  rw [follow, acted]

/-- No more statements are executed than there are. -/
theorem steps_follow_le (shared : Shared) (pc : Int) (stmts : List Stmt) :
    (shared.follow pc stmts).steps ≤ stmts.length := by
  induction stmts generalizing shared pc with
  | nil => exact Nat.le_refl 0
  | cons stmt stmts ih =>
    rcases acted : (stmt.action 0 pc shared.env shared.memory).run shared.inputs with
      ⟨fault | change, inputs⟩
    · rw [follow_of_error acted]
      exact Nat.le_add_left 1 _
    · rw [follow_of_ok acted]
      exact Nat.succ_le_succ (ih _ _)

/-- Statements further on do the same, but for where their fault stands. -/
theorem follow_moved (shared : Shared) (pc distance : Int) {stmts : List Stmt}
    (straight : ∀ stmt ∈ stmts, stmt.jumps = false) :
    shared.follow (pc + distance) stmts = (shared.follow pc stmts).moved distance := by
  induction stmts generalizing shared pc with
  | nil => rfl
  | cons stmt stmts ih =>
    obtain ⟨first, others⟩ := List.forall_mem_cons.mp straight
    have further := Stmt.run_action_moved first 0 pc distance shared.env shared.memory shared.inputs
    rcases acted : (stmt.action 0 pc shared.env shared.memory).run shared.inputs with
      ⟨fault | change, inputs⟩
    · rw [acted] at further
      rw [follow_of_error acted, follow_of_error further]
      rfl
    · rw [acted] at further
      rw [follow_of_ok acted, follow_of_ok further, Int.add_right_comm, ih _ _ others]
      rfl

/-- Statements behind a fault are not executed. -/
theorem follow_append_of_fault {shared : Shared} {pc : Int} {first : List Stmt} {fault : Fault}
    (faulted : (shared.follow pc first).fault = some fault) (second : List Stmt) :
    shared.follow pc (first ++ second) = shared.follow pc first := by
  induction first generalizing shared pc with
  | nil => cases faulted
  | cons stmt first ih =>
    rcases acted : (stmt.action 0 pc shared.env shared.memory).run shared.inputs with
      ⟨fault' | change, inputs⟩
    · rw [List.cons_append, follow_of_error acted, follow_of_error acted]
    · rw [follow_of_ok acted] at faulted
      rw [List.cons_append, follow_of_ok acted, follow_of_ok acted, ih faulted]

/-- Statements behind others that do not fault go on from what these leave. -/
theorem follow_append_of_passed {shared : Shared} {pc : Int} {first : List Stmt}
    (passed : (shared.follow pc first).fault = none) (second : List Stmt) :
    shared.follow pc (first ++ second) =
      { (shared.follow pc first).shared.follow (pc + first.length) second with
        steps := (shared.follow pc first).steps +
          ((shared.follow pc first).shared.follow (pc + first.length) second).steps } := by
  induction first generalizing shared pc with
  | nil => simp [follow]
  | cons stmt first ih =>
    rcases acted : (stmt.action 0 pc shared.env shared.memory).run shared.inputs with
      ⟨fault | change, inputs⟩
    · rw [follow_of_error acted] at passed
      cases passed
    · rw [follow_of_ok acted] at passed
      have position : pc + 1 + first.length = pc + (stmt :: first).length := by
        rw [List.length_cons]
        omega
      rw [List.cons_append, follow_of_ok acted, follow_of_ok acted, ih passed, position]
      simp only [Nat.add_right_comm]

end Shared

/-! ## Running a program without jumps -/

/-- A run that has come from a state to another has taken the course. -/
structure Course.TakenBy (course : Course) (s t : State) : Prop where
  shared : Shared.ofState t = course.shared
  pc : t.pc = course.pc
  steps : t.steps = s.steps + course.steps
  fault : t.fault = course.fault
  message : t.faultMessage = course.fault.map Fault.message

variable {p : Program} {s : State} {stmt : Stmt} {inputs : Inputs}

/-- A statement that faults ends the run. -/
theorem step_of_error {fault : Fault} (running : s.isRunning = true) (nonneg : 0 ≤ s.pc)
    (next : p.statements[s.pc.toNat]? = some stmt) (straight : stmt.jumps = false)
    (acted : (stmt.action 0 s.pc s.env s.memory).run s.inputs = (.error fault, inputs)) :
    p.step s = .ok ((s.count inputs).fail fault) := by
  rw [← Stmt.action_of_straight straight p.size] at acted
  exact Program.step_of_transition (.faulted running nonneg next acted)

/-- What a statement that neither jumps nor faults leaves of a run. -/
structure Advanced (p : Program) (s : State) (change : Change) (inputs : Inputs) (t : State) :
    Prop where
  stepped : p.step s = .ok t
  shared : Shared.ofState t = (Shared.ofState s).apply inputs change
  pc : t.pc = s.pc + 1
  steps : t.steps = s.steps + 1
  fault : t.fault = s.fault ∧ t.faultMessage = s.faultMessage
  running : s.pc + 1 < p.size → t.isRunning = true

/-- A statement that neither jumps nor faults takes the run to the next one. -/
theorem exists_advanced {change : Change} (running : s.isRunning = true) (nonneg : 0 ≤ s.pc)
    (next : p.statements[s.pc.toNat]? = some stmt) (straight : stmt.jumps = false)
    (acted : (stmt.action 0 s.pc s.env s.memory).run s.inputs = (.ok change, inputs)) :
    ∃ t, Advanced p s change inputs t := by
  rw [← Stmt.action_of_straight straight p.size] at acted
  have performed := (Stmt.action_eq_ok s.pc).mp acted
  have stepped := Program.step_of_transition (.executed running nonneg next performed)
  have advanced : ((s.count inputs).apply change).pc = s.pc + 1 :=
    performed.pc_apply straight (s.count inputs)
  rw [State.settle_eq] at stepped
  refine ⟨_, stepped, ?_, advanced, State.steps_apply _ change,
    ⟨State.fault_apply _ change, State.faultMessage_apply _ change⟩, ?_⟩
  · cases change <;> rfl
  · intro inside
    have short : ¬((s.count inputs).apply change).pc = p.size := by omega
    rw [State.isRunning_iff]
    simp only [if_neg short, State.status_apply]
    exact State.isRunning_iff.mp running

/-- A program takes the course of its statements from where it is, if none of them jumps and the
budget is enough for them. -/
theorem takenBy_of_runFor {before after : List Stmt} (split : p.statements = before ++ after)
    (straight : ∀ stmt ∈ after, stmt.jumps = false) (position : s.pc = before.length)
    (noFault : s.fault = none ∧ s.faultMessage = none)
    (running : after ≠ [] → s.isRunning = true) {n : Nat} (enough : after.length ≤ n) :
    ∃ t, p.runFor n s = .ok t ∧ ((Shared.ofState s).follow s.pc after).TakenBy s t := by
  have size : p.size = before.length + after.length := by
    rw [Program.size, split, List.length_append]
  induction after generalizing before s n with
  | nil =>
    cases goesOn : s.isRunning with
    | false => exact ⟨s, Program.runFor_of_ended goesOn n, rfl, rfl, rfl, noFault.1, noFault.2⟩
    | true =>
      cases n with
      | zero => exact ⟨s, Program.runFor_zero p s, rfl, rfl, rfl, noFault.1, noFault.2⟩
      | succ n =>
        have atEnd : s.pc = p.size := by simp [position, size]
        have stepped := Program.step_of_transition (.finished goesOn atEnd)
        refine ⟨s.succeed, ?_, rfl, rfl, rfl, noFault.1, noFault.2⟩
        rw [Program.runFor_succ goesOn stepped, Program.runFor_of_ended rfl]
  | cons stmt after ih =>
    obtain ⟨first, others⟩ := List.forall_mem_cons.mp straight
    obtain ⟨n, rfl⟩ := Nat.exists_eq_add_of_le' (Nat.le_trans (Nat.le_add_left 1 _) enough)
    have goesOn := running (List.cons_ne_nil stmt after)
    have nonneg : 0 ≤ s.pc := by omega
    have next : p.statements[s.pc.toNat]? = some stmt := by simp [split, position]
    rcases acted : (stmt.action 0 s.pc s.env s.memory).run s.inputs with ⟨fault | change, inputs⟩
    · have stepped := step_of_error goesOn nonneg next first acted
      refine ⟨_, (Program.runFor_succ goesOn stepped n).trans (Program.runFor_of_ended rfl n), ?_⟩
      rw [Shared.follow_of_error acted]
      exact ⟨rfl, rfl, rfl, rfl, rfl⟩
    · obtain ⟨u, advanced⟩ := exists_advanced goesOn nonneg next first acted
      have moved : u.pc = (before ++ [stmt]).length := by
        rw [advanced.pc, position]
        simp
      have goesOn' : after ≠ [] → u.isRunning = true := by
        intro more
        have positive := List.length_pos_of_ne_nil more
        rw [List.length_cons] at size
        exact advanced.running (by omega)
      have noFault' : u.fault = none ∧ u.faultMessage = none := by
        rw [advanced.fault.1, advanced.fault.2]
        exact noFault
      obtain ⟨t, ran, taken⟩ := ih (by simp [split]) others moved noFault' goesOn'
        (Nat.le_of_succ_le_succ enough) (by simp [size]; omega)
      refine ⟨t, (Program.runFor_succ goesOn advanced.stepped n).trans ran, ?_⟩
      rw [Shared.follow_of_ok acted]
      rw [advanced.shared, advanced.pc] at taken
      refine ⟨taken.shared, taken.pc, ?_, taken.fault, taken.message⟩
      rw [taken.steps, advanced.steps]
      exact Nat.add_right_comm _ _ _

/-- A program without jumps takes the course of its statements from what is shared. -/
theorem Shared.takenBy_of_runFor (shared : Shared) {p : Program}
    (straight : ∀ stmt ∈ p.statements, stmt.jumps = false) {n : Nat} (enough : p.size ≤ n) :
    ∃ t, p.runFor n shared.start = .ok t ∧
      (shared.follow 0 p.statements).TakenBy shared.start t :=
  Command.takenBy_of_runFor (show p.statements = [] ++ p.statements from rfl) straight rfl
    ⟨rfl, rfl⟩ (fun _ => rfl) enough

/-! ## Pieces one after the other -/

/-- What pieces have come to that are run one after the other. -/
structure Tally where
  /-- What they leave. -/
  shared : Shared
  /-- How many statements are executed in all. -/
  steps : Nat := 0
  /-- How many pieces are passed without a fault. -/
  passed : Nat := 0
  /-- The fault that ends them, and its position in its own piece. -/
  fault : Option (Fault × Int) := none

/-- Lets pieces take their turns on what is shared, up to the first that faults. -/
def upToFault {α : Type} (turn : Shared → α → Option State) (shared : Shared) :
    List α → Option Tally
  | [] => some { shared }
  | piece :: pieces => do
    let s ← turn shared piece
    match s.fault with
    | some fault => some { shared := .ofState s, steps := s.steps, fault := some (fault, s.pc) }
    | none =>
      let tally ← upToFault turn (.ofState s) pieces
      some { tally with steps := s.steps + tally.steps, passed := tally.passed + 1 }

/-- Runs a program within its budget. -/
def runPiece (shared : Shared) (piece : Program × Nat) : Option State :=
  (piece.1.runFor piece.2 shared.start).toOption

/-- Runs a line of a session within the budget of the lines. -/
def runAsLine (depth budget : Nat) (shared : Shared) (line : String) : Option State :=
  match Repl.runLine depth budget shared line with
  | .stopped _ => none
  | .ran _ s => some s

/-- The number of statements in the pieces that are passed. -/
def Tally.distance (tally : Tally) (pieces : List (Program × Nat)) : Nat :=
  ((pieces.take tally.passed).map (·.1.size)).sum

/-- A course is what a tally says, its fault met behind the pieces that are passed. -/
structure Course.Adds (course : Course) (pieces : List (Program × Nat)) (tally : Tally) :
    Prop where
  shared : course.shared = tally.shared
  steps : course.steps = tally.steps
  fault : course.fault =
    tally.fault.map fun (fault, _) => fault.moved (tally.distance pieces)
  pc : ∀ fault pc, tally.fault = some (fault, pc) → course.pc = pc + tally.distance pieces

/-- A course behind one more piece is what the tally with that piece says. -/
theorem Course.Adds.behind {course : Course} {pieces : List (Program × Nat)} {tally : Tally}
    (adds : course.Adds pieces tally) (piece : Program × Nat) (steps : Nat) :
    Course.Adds { course.moved piece.1.size with steps := steps + course.steps }
      (piece :: pieces)
      { tally with steps := steps + tally.steps, passed := tally.passed + 1 } := by
  have further : Tally.distance
      { tally with steps := steps + tally.steps, passed := tally.passed + 1 } (piece :: pieces) =
        tally.distance pieces + piece.1.size := by
    simp [Tally.distance, Nat.add_comm]
  refine ⟨adds.shared, congrArg (steps + ·) adds.steps, ?_, ?_⟩
  · rw [further]
    simp only [moved, adds.fault, Option.map_map, Function.comp_def, Fault.moved_moved,
      Int.natCast_add]
  · intro fault pc ended
    rw [further]
    simp only [moved, adds.pc fault pc ended]
    omega

/-- Pieces without jumps come to the course of all their statements. -/
theorem exists_tally {pieces : List (Program × Nat)}
    (straight : ∀ piece ∈ pieces, ∀ stmt ∈ piece.1.statements, stmt.jumps = false)
    (enough : ∀ piece ∈ pieces, piece.1.size ≤ piece.2) (shared : Shared) :
    ∃ tally, upToFault runPiece shared pieces = some tally ∧
      (shared.follow 0 (pieces.flatMap (·.1.statements))).Adds pieces tally := by
  induction pieces generalizing shared with
  | nil => exact ⟨{ shared }, rfl, rfl, rfl, rfl, nofun⟩
  | cons piece pieces ih =>
    obtain ⟨first, others⟩ := List.forall_mem_cons.mp straight
    obtain ⟨enoughFirst, enoughOthers⟩ := List.forall_mem_cons.mp enough
    obtain ⟨s, ran, taken⟩ := shared.takenBy_of_runFor first enoughFirst
    have turned : runPiece shared piece = some s := by rw [runPiece, ran]; rfl
    have steps : s.steps = (shared.follow 0 piece.1.statements).steps := by
      rw [taken.steps]
      exact Nat.zero_add _
    rw [List.flatMap_cons]
    cases ended : s.fault with
    | some fault =>
      have faulted : (shared.follow 0 piece.1.statements).fault = some fault := by
        rw [← taken.fault, ended]
      refine ⟨{ shared := .ofState s, steps := s.steps, fault := some (fault, s.pc) },
        by simp [upToFault, turned, ended], ?_⟩
      rw [Shared.follow_append_of_fault faulted]
      refine ⟨taken.shared.symm, steps.symm, ?_, ?_⟩
      · simp [faulted, Tally.distance]
      · intro _ _ same
        simp only [Option.some.injEq, Prod.mk.injEq] at same
        simp [Tally.distance, ← taken.pc, same]
    | none =>
      have passed : (shared.follow 0 piece.1.statements).fault = none := by
        rw [← taken.fault, ended]
      obtain ⟨tally, rest, adds⟩ := ih others enoughOthers (.ofState s)
      refine ⟨{ tally with steps := s.steps + tally.steps, passed := tally.passed + 1 },
        by simp [upToFault, turned, ended, rest], ?_⟩
      have straightOthers : ∀ stmt ∈ pieces.flatMap (·.1.statements), stmt.jumps = false := by
        intro stmt inside
        obtain ⟨piece, listed, member⟩ := List.mem_flatMap.mp inside
        exact others piece listed stmt member
      rw [Shared.follow_append_of_passed passed, Shared.follow_moved _ _ _ straightOthers,
        ← taken.shared, ← steps]
      exact adds.behind piece s.steps

/-- Lines that are parsed as pieces are run as the pieces are. -/
theorem upToFault_lines {depth budget : Nat} {lines : List String}
    {pieces : List (Program × Nat)}
    (parsed : List.Forall₂ (fun line piece => Program.parseWithin depth line = .ok piece.1) lines
      pieces)
    (budgets : ∀ piece ∈ pieces, piece.2 = budget) (shared : Shared) :
    upToFault (runAsLine depth budget) shared lines = upToFault runPiece shared pieces := by
  induction parsed generalizing shared with
  | nil => rfl
  | @cons line piece lines pieces first _ ih =>
    obtain ⟨budgeted, others⟩ := List.forall_mem_cons.mp budgets
    obtain ⟨s, spends⟩ := (shared.within_start piece.1).spends budget
    have turned : runAsLine depth budget shared line = runPiece shared piece := by
      simp [runAsLine, runPiece, Repl.runLine, first, budgeted, spends.ran, Except.toOption]
    rw [upToFault, upToFault, turned]
    simp only [ih others]

/-- A program without jumps ends, and every run of it with a budget for its statements or without
one takes the course of its statements. -/
theorem takenBy_of_straight {p : Program} (straight : ∀ stmt ∈ p.statements, stmt.jumps = false)
    (shared : Shared) :
    (∃ t, p.RunsTo shared.start t) ∧
      ∀ t, (p.RunsTo shared.start t ∨ ∃ n, p.size ≤ n ∧ p.runFor n shared.start = .ok t) →
        (shared.follow 0 p.statements).TakenBy shared.start t := by
  have within := shared.within_start p
  constructor
  · obtain ⟨t, ran, taken⟩ := shared.takenBy_of_runFor straight (Nat.le_succ p.size)
    refine ⟨t, within.runsTo_iff.mpr ⟨p.size + 1, ran, ?_⟩⟩
    -- A run that goes on has executed more statements than there are.
    obtain ⟨t', spends⟩ := within.spends (p.size + 1)
    obtain rfl := Except.ok.inj (ran.symm.trans spends.ran)
    by_contra goesOn
    have spent := spends.exactly (by simpa using goesOn)
    have atMost := shared.steps_follow_le 0 p.statements
    have counted := taken.steps
    have size : p.statements.length = p.size := rfl
    omega
  · rintro t (runs | ⟨n, enough, ran⟩)
    · obtain ⟨n, ran, ended⟩ := within.runsTo_iff.mp runs
      obtain ⟨t', ran', taken⟩ := shared.takenBy_of_runFor straight (Nat.le_max_right n p.size)
      have same := within.runFor_of_le ran ended (Nat.le_max_left n p.size)
      obtain rfl := Except.ok.inj (same.symm.trans ran')
      exact taken
    · obtain ⟨t', ran', taken⟩ := shared.takenBy_of_runFor straight enough
      obtain rfl := Except.ok.inj (ran.symm.trans ran')
      exact taken

/-- A program without jumps that is cut into pieces, each run from its own beginning on what the
ones in front of it left and within a budget for its statements, up to the first that faults, leaves
what the whole program leaves: the same variables, memory and sources after as many statements, and
a fault of the same kind, which the whole meets further on by the length of the pieces passed. Lines
of a session that spell the pieces do the same. -/
theorem pieces_do_what_the_whole_does {p : Program} {pieces : List (Program × Nat)}
    (straight : ∀ stmt ∈ p.statements, stmt.jumps = false)
    (cut : p.statements = pieces.flatMap (·.1.statements))
    (enough : ∀ piece ∈ pieces, piece.1.size ≤ piece.2) (shared : Shared) :
    ∃ tally, upToFault runPiece shared pieces = some tally ∧
      (∀ depth budget lines, (∀ piece ∈ pieces, piece.2 = budget) →
        List.Forall₂ (fun line piece => Program.parseWithin depth line = .ok piece.1) lines
          pieces →
        upToFault (runAsLine depth budget) shared lines = some tally) ∧
      (∃ t, p.RunsTo shared.start t) ∧ (∀ n, ∃ t, p.runFor n shared.start = .ok t) ∧
      ∀ t, (p.RunsTo shared.start t ∨ ∃ n, p.size ≤ n ∧ p.runFor n shared.start = .ok t) →
        t.env = tally.shared.env ∧ t.memory = tally.shared.memory ∧
        t.inputs = tally.shared.inputs ∧ t.steps = tally.steps ∧
        t.faultMessage = t.fault.map Fault.message ∧
        ((tally.fault = none ∧ t.fault = none) ∨
          ∃ fault pc, tally.fault = some (fault, pc) ∧
            t.fault = some (fault.moved (tally.distance pieces)) ∧
            (fault.moved (tally.distance pieces)).kind = fault.kind ∧
            t.pc = pc + tally.distance pieces) := by
  have straightPieces : ∀ piece ∈ pieces, ∀ stmt ∈ piece.1.statements, stmt.jumps = false := by
    intro piece listed stmt inside
    exact straight stmt (cut ▸ List.mem_flatMap.mpr ⟨piece, listed, inside⟩)
  obtain ⟨tally, run, adds⟩ := exists_tally straightPieces enough shared
  obtain ⟨ends, takes⟩ := takenBy_of_straight straight shared
  rw [← cut] at adds
  refine ⟨tally, run, ?_, ends, ?_, ?_⟩
  · intro depth budget lines budgets parsed
    rw [upToFault_lines parsed budgets, run]
  · intro n
    obtain ⟨t, spends⟩ := (shared.within_start p).spends n
    exact ⟨t, spends.ran⟩
  · intro t ran
    have taken := takes t ran
    have left : Shared.ofState t = tally.shared := taken.shared.trans adds.shared
    have steps : t.steps = tally.steps := by
      rw [taken.steps, adds.steps]
      exact Nat.zero_add _
    refine ⟨congrArg Shared.env left, congrArg Shared.memory left, congrArg Shared.inputs left,
      steps, by rw [taken.message, taken.fault], ?_⟩
    have fault := taken.fault.trans adds.fault
    cases ended : tally.fault with
    | none => exact .inl ⟨rfl, by rw [fault, ended]; rfl⟩
    | some met =>
      obtain ⟨met, pc⟩ := met
      refine .inr ⟨met, pc, rfl, by rw [fault, ended]; rfl, met.kind_moved _, ?_⟩
      rw [taken.pc, adds.pc met pc ended]

/-- The second assertion of a program fails in its third piece, behind an empty one, after input has
been read in two pieces. -/
theorem pieces_do_what_the_whole_does_of_assertion :
    let pieces : List (Program × Nat) :=
      [(⟨[.assign "x" (.input "a"), .assert (.var "x")]⟩, 2), (⟨[]⟩, 0),
        (⟨[.store (.lit 1) (.var "x"), .assert (.binary .eq (.input "a") (.lit 0))]⟩, 5)]
    let p : Program := ⟨[.assign "x" (.input "a"), .assert (.var "x"),
      .store (.lit 1) (.var "x"), .assert (.binary .eq (.input "a") (.lit 0))]⟩
    let shared : Shared := { inputs := Table.empty.insert "a" { values := [7, 8, 9] } }
    ∃ tally t fault pc, upToFault runPiece shared pieces = some tally ∧
      p.RunsTo shared.start t ∧ t.steps = 4 ∧ tally.steps = 4 ∧ t.inputs = tally.shared.inputs ∧
      tally.fault = some (fault, pc) ∧ fault.kind = "AssertionFailure" ∧
      t.fault = some (.assertionFailed 3) ∧ 3 = pc + tally.distance pieces := by
  intro pieces p shared
  have straight : ∀ stmt ∈ p.statements, stmt.jumps = false := by decide
  have cut : p.statements = pieces.flatMap (·.1.statements) := rfl
  obtain ⟨tally, run, -, ⟨t, ends⟩, -, agrees⟩ :=
    pieces_do_what_the_whole_does straight cut (by decide) shared
  have course : (shared.follow 0 p.statements).fault = some (.assertionFailed 3) ∧
      (shared.follow 0 p.statements).pc = 3 ∧ (shared.follow 0 p.statements).steps = 4 :=
    ⟨by decide +kernel, by decide +kernel, by decide +kernel⟩
  have taken := (takenBy_of_straight straight shared).2 t (.inl ends)
  obtain ⟨-, -, inputs, steps, -, ⟨-, noFault⟩ | ⟨fault, pc, ended, met, kind, further⟩⟩ :=
    agrees t (.inl ends)
  · cases (taken.fault.trans course.1).symm.trans noFault
  · have failed := taken.fault.trans course.1
    have counted : t.steps = 4 := by rw [taken.steps, course.2.2]; rfl
    have position : t.pc = 3 := taken.pc.trans course.2.1
    refine ⟨tally, t, fault, pc, run, ends, counted, steps ▸ counted, inputs, ended, ?_, failed,
      position ▸ further⟩
    rw [← kind, ← Option.some.inj (failed.symm.trans met)]
    rfl

end Command

end FlatIL
