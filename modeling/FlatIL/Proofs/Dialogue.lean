import Mathlib.Tactic.Choose
import FlatIL.Proofs.Budget
import FlatIL.Proofs.Session

/-!
# Reading as a dialogue

Whatever is evaluated, stepped or run learns about input sources only by reading them, one value at
a time, and goes on with what it is told. That makes it a dialogue: what is asked first is known,
and what is asked or done next depends on the replies so far and on nothing else about the sources.
Here every act of an engine, on programs and on drafts, is shown to be one. -/

namespace FlatIL

/-- A computation that asks for the next value of a source and goes on with the reply, or is
done. -/
inductive Dialogue (ρ : Type) where
  | done (result : ρ)
  | ask (source : String) (next : Except Fault Word → Dialogue ρ)

namespace Dialogue

variable {ρ σ : Type}

/-- Holds a dialogue with input sources. -/
def run : Dialogue ρ → Inputs → ρ × Inputs
  | done result, inputs => (result, inputs)
  | ask source next, inputs => (next (inputs.read source).1).run (inputs.read source).2

/-- What is asked and replied in a dialogue with input sources. -/
def exchanges : Dialogue ρ → Inputs → List (Request × Reply)
  | done _, _ => []
  | ask source next, inputs =>
    (.read source, (inputs.answer (.read source)).1) ::
      (next (inputs.read source).1).exchanges (inputs.read source).2

/-- Goes on with the result of a dialogue. -/
def bind : Dialogue ρ → (ρ → Dialogue σ) → Dialogue σ
  | done result, after => after result
  | ask source next, after => ask source fun reply => (next reply).bind after

/-- Goes on with a value, and is done with an error. -/
def onValue {ε α β : Type} (later : α → Dialogue (Except ε β)) :
    Except ε α → Dialogue (Except ε β)
  | .ok value => later value
  | .error error => .done (.error error)

/-- A dialogue goes on with the sources that the one before it leaves. -/
theorem run_bind (dialogue : Dialogue ρ) (after : ρ → Dialogue σ) (inputs : Inputs) :
    (dialogue.bind after).run inputs =
      (after (dialogue.run inputs).1).run (dialogue.run inputs).2 := by
  induction dialogue generalizing inputs with
  | done result => rfl
  | ask source next ih => exact ih _ _

end Dialogue

/-! ## Computations -/

/-- A computation does nothing to input sources but read them. -/
def ReadsOnly {ε α : Type} (computation : ExceptT ε (StateM Inputs) α) : Prop :=
  ∃ dialogue : Dialogue (Except ε α),
    ∀ inputs, (ExceptT.run computation).run inputs = dialogue.run inputs

namespace ReadsOnly

variable {ε α β : Type}

/-- A result is told without asking. -/
theorem of_result (result : Except ε α) : ReadsOnly (ExceptT.mk (pure result)) :=
  ⟨.done result, fun _ => rfl⟩

/-- The next value of a source is asked for. -/
theorem of_next (source : String) : ReadsOnly (Reading.next source) :=
  ⟨.ask source .done, fun _ => rfl⟩

/-- The next value of a source is asked for. -/
theorem of_trapping_next (source : String) : ReadsOnly (Trapping.next source) :=
  ⟨.ask source fun reply => .done (reply.mapError Trap.fault), fun _ => rfl⟩

/-- What comes after a value may depend on it. -/
theorem bind {first : ExceptT ε (StateM Inputs) α} {after : α → ExceptT ε (StateM Inputs) β}
    (reads : ReadsOnly first) (behind : ∀ value, ReadsOnly (after value)) :
    ReadsOnly (first >>= after) := by
  obtain ⟨dialogue, told⟩ := reads
  choose later toldLater using behind
  refine ⟨dialogue.bind (.onValue later), fun inputs => ?_⟩
  rw [Dialogue.run_bind, ← told]
  rcases ran : (ExceptT.run first).run inputs with ⟨error | value, rest⟩
  · exact exceptT_run_bind_error ran
  · exact (exceptT_run_bind_ok ran).trans (toldLater value rest)

end ReadsOnly

/-- Evaluating an expression does nothing to input sources but read them. -/
theorem Expr.readsOnly_eval (env : Env) (memory : Memory) (e : Expr) :
    ReadsOnly (e.eval env memory) := by
  rw [eval, traverse_eq_fold]
  induction e with
  | lit value => exact .of_result (.ok value)
  | var name => exact .of_result (env.lookup name)
  | input source => exact .of_next source
  | load address ih => exact .bind ih fun address => .of_result (memory.lookup address)
  | unary op operand ih => exact .bind ih fun operand => .of_result (.ok (op.apply operand))
  | binary op left right ihLeft ihRight =>
    exact .bind ihLeft fun left => .bind ihRight fun right => .of_result (op.apply left right)

/-- A statement does nothing to input sources but read them. -/
theorem Stmt.readsOnly_action (size : Nat) (pc : Int) (env : Env) (memory : Memory) (stmt : Stmt) :
    ReadsOnly (stmt.action size pc env memory) := by
  have evaluated (e : Expr) : ReadsOnly (e.eval env memory) := e.readsOnly_eval env memory
  cases stmt with
  | assign target value => exact .bind (evaluated value) fun value => .of_result (.ok _)
  | store address value =>
    exact .bind (evaluated address) fun address => .bind (evaluated value) fun value =>
      .of_result (.ok _)
  | goto target => exact .bind (evaluated target) fun target => .of_result _
  | assert condition => exact .bind (evaluated condition) fun condition => .of_result _
  | branch condition thenTarget elseTarget =>
    exact .bind (evaluated condition) fun condition => .bind (evaluated _) fun target =>
      .of_result _

namespace Draft

/-- A walk does nothing to input sources but read them if its nodes do nothing else. -/
theorem readsOnly_walk {ε α : Type} {alg : Algebra (ExceptT ε (StateM Inputs)) α}
    (missing : ∀ name, ReadsOnly (alg.missing name))
    (node : ∀ draft results fits, ReadsOnly (alg.node draft results fits))
    (pending : List Pending) (results : List α)
    (balanced : Pending.Balanced alg pending results.length) :
    ReadsOnly (walk alg pending results balanced) := by
  fun_induction walk alg pending results balanced with
  | case1 results single => exact .of_result (.ok _)
  | case2 => exact missing _
  | case3 results entry pending balanced operands fetched waits _ ih => exact ih
  | case4 results entry pending balanced operands fetched _ ready count _ ih =>
    exact .bind (node _ _ _) ih

/-- Evaluating a draft does nothing to input sources but read them. -/
theorem readsOnly_eval (env : Env) (memory : Memory) (draft : Draft) :
    ReadsOnly (draft.eval env memory) := by
  refine readsOnly_walk (fun name => .of_result _) (fun draft values fits => ?_) _ _ _
  change ReadsOnly (evalNode env memory draft values fits)
  unfold evalNode
  split
  · rw [literalWord]
    split <;> exact .of_result _
  · exact .of_result _
  · exact .of_trapping_next _
  · exact .of_result _
  · split <;> exact .of_result _
  · split <;> exact .of_result _
  all_goals exact .of_result _

/-- A field that holds an expression does nothing to input sources but read them. -/
theorem readsOnly_evalField (env : Env) (memory : Memory) (draft : Draft) (name : String) :
    ReadsOnly (draft.evalField env memory name) := by
  rw [evalField]
  split
  · exact .of_result _
  · exact readsOnly_eval env memory _

/-- A draft in the place of a statement does nothing to input sources but read them. -/
theorem readsOnly_action (size : Nat) (pc : Int) (env : Env) (memory : Memory) (draft : Draft) :
    ReadsOnly (draft.action size pc env memory) := by
  have evaluated (name : String) : ReadsOnly (draft.evalField env memory name) :=
    draft.readsOnly_evalField env memory name
  rw [action]
  split
  · exact .bind (evaluated _) fun value => .of_result (.ok _)
  · exact .bind (evaluated _) fun address => .bind (evaluated _) fun value => .of_result (.ok _)
  · exact .bind (evaluated _) fun target => .of_result _
  · exact .bind (evaluated _) fun condition => .of_result _
  · exact .bind (evaluated _) fun condition => .bind (evaluated _) fun target => .of_result _
  · exact .of_result _

end Draft

/-! ## Changes of states -/

/-- What a dialogue makes of a state over input sources: nothing if it does not come to an end. -/
def Dialogue.tell {ρ : Type} (dialogue : Dialogue (Option (ρ × State))) (inputs : Inputs) :
    Option (ρ × State) :=
  (dialogue.run inputs).1.map fun done =>
    (done.1, { done.2 with inputs := (dialogue.run inputs).2 })

/-- A dialogue tells what becomes of a state whatever its input sources are. -/
def Dialogue.Tells {ρ : Type} (dialogue : Dialogue (Option (ρ × State)))
    (change : State → Option (ρ × State)) (s : State) : Prop :=
  ∀ inputs, change { s with inputs } = dialogue.tell inputs

/-- A change of states does nothing to their input sources but read them. -/
def Converses {ρ : Type} (change : State → Option (ρ × State)) : Prop :=
  ∀ s, ∃ dialogue : Dialogue (Option (ρ × State)), dialogue.Tells change s

namespace Converses

variable {ρ σ : Type}

/-- What does not look at input sources leaves them alone. -/
theorem of_blind {change : State → Option (ρ × State)}
    (blind : ∀ s inputs, change { s with inputs } =
      (change s).map fun done => (done.1, { done.2 with inputs })) : Converses change :=
  fun s => ⟨.done (change s), blind s⟩

/-- What comes after a change may depend on what came of it. -/
theorem bind {change : State → Option (ρ × State)} {after : ρ → State → Option (σ × State)}
    (first : Converses change) (second : ∀ result, Converses (after result)) :
    Converses fun s => (change s).bind fun done => after done.1 done.2 := by
  intro s
  obtain ⟨dialogue, told⟩ := first s
  choose later toldLater using second
  refine ⟨dialogue.bind fun came => came.elim (.done none) fun done => later done.1 done.2,
    fun inputs => ?_⟩
  simp only [told inputs, Dialogue.tell, Dialogue.run_bind]
  rcases (dialogue.run inputs).1 with _ | ⟨result, t⟩
  · rfl
  · exact toldLater result t _

/-- Naming what came of a change in another way. -/
theorem map {change : State → Option (ρ × State)} (first : Converses change) (name : ρ → σ) :
    Converses fun s => (change s).map fun done => (name done.1, done.2) := by
  intro s
  obtain ⟨dialogue, told⟩ := first s
  refine ⟨dialogue.bind fun result => .done (result.map fun done => (name done.1, done.2)), ?_⟩
  intro inputs
  simp only [told inputs, Dialogue.tell, Dialogue.run_bind]
  rcases (dialogue.run inputs).1 with _ | done <;> rfl

/-- A computation that a state gives, but for its sources, and that only reads. -/
theorem of_readsOnly {ε α : Type} {computation : State → ExceptT ε (StateM Inputs) α}
    (blind : ∀ s inputs, computation { s with inputs } = computation s)
    (reads : ∀ s, ReadsOnly (computation s)) :
    Converses fun s =>
      let (result, inputs) := (ExceptT.run (computation s)).run s.inputs
      some (result, { s with inputs }) := by
  intro s
  obtain ⟨dialogue, told⟩ := reads s
  refine ⟨dialogue.bind fun result => .done (some (result, s)), fun inputs => ?_⟩
  simp only [blind, told inputs, Dialogue.tell, Dialogue.run_bind]
  rfl

end Converses

/-! ## Steps -/

/-- A reading as a computation that may also be stopped by something else than a fault. -/
def Trapping.ofReading {α : Type} (reading : Reading α) : Trapping α :=
  ExceptT.mk fun inputs =>
    ((reading.run inputs).1.mapError Trap.fault, (reading.run inputs).2)

/-- What is read does not depend on what may stop a computation. -/
theorem ReadsOnly.ofReading {α : Type} {reading : Reading α} (reads : ReadsOnly reading) :
    ReadsOnly (Trapping.ofReading reading) := by
  obtain ⟨dialogue, told⟩ := reads
  refine ⟨dialogue.bind fun result => .done (result.mapError Trap.fault), fun inputs => ?_⟩
  rw [Dialogue.run_bind, ← told]
  rfl

/-- What a state becomes when the next statement has come out in some way. -/
def State.conclude (s : State) (size : Nat) (result : Except Trap Change) :
    Option EngineError × State :=
  match result with
  | .error (.fault fault) => (none, (s.count s.inputs).fail fault)
  | .error (.unsupported error) => (some (.unsupported error), s.count s.inputs)
  | .ok change => (none, ((s.count s.inputs).apply change).settle size)

/-- How the next statement comes out does not depend on what is left to read. -/
theorem Converses.of_conclude (size : Nat) (result : Except Trap Change) :
    Converses fun s => some (s.conclude size result) := by
  refine of_blind fun s inputs => ?_
  rcases result with (fault | error) | change
  · rfl
  · rfl
  · have applied : ({ s with inputs }.count inputs).apply change =
        { (s.count s.inputs).apply change with inputs } := by
      cases change <;> rfl
    have settled (t : State) : ({ t with inputs } : State).settle size =
        { t.settle size with inputs } := by
      rw [State.settle, State.settle]
      split <;> rfl
    simp only [State.conclude, applied, settled]
    rfl

/-- A step of any engine: it is made by a run that goes on inside of a program of the given size,
and it is what the next statement does, if there is one. -/
def State.execute (s : State) (size : Nat) (next : Option (Trapping Change)) :
    State × Option EngineError :=
  if s.isHalted then (s, none)
  else if s.pc < 0 ∨ size < s.pc then (s, some (.counter { pc := s.pc, size }))
  else next.elim (s.succeed, none) fun action =>
    ({ s with inputs := (action.run s.inputs).2 }.conclude size (action.run s.inputs).1).swap

/-- A step does nothing to input sources but read them if the next statement does nothing else. -/
theorem Converses.of_execute (size : Nat) {next : State → Option (Trapping Change)}
    (blind : ∀ s inputs, next { s with inputs } = next s)
    (reads : ∀ s action, next s = some action → ReadsOnly action) :
    Converses fun s => some (s.execute size (next s)).swap := by
  intro s
  by_cases halted : s.isHalted = true
  · refine ⟨.done (some (none, s)), fun inputs => ?_⟩
    have same : ({ s with inputs } : State).isHalted = true := halted
    simp only [State.execute, if_pos same]
    rfl
  · have same (inputs : Inputs) : ¬ ({ s with inputs } : State).isHalted = true := halted
    by_cases outside : s.pc < 0 ∨ size < s.pc
    · refine ⟨.done (some (some (.counter { pc := s.pc, size }), s)), fun inputs => ?_⟩
      simp only [State.execute, if_neg (same inputs), if_pos outside]
      rfl
    · cases found : next s with
      | none =>
        refine ⟨.done (some (none, s.succeed)), fun inputs => ?_⟩
        simp only [State.execute, if_neg (same inputs), if_neg outside, blind, found]
        rfl
      | some action =>
        have read := of_readsOnly (fun _ _ => rfl) fun _ => reads s action found
        obtain ⟨dialogue, told⟩ := (read.bind fun result => of_conclude size result) s
        refine ⟨dialogue, fun inputs => ?_⟩
        rw [← told]
        simp only [State.execute, if_neg (same inputs), if_neg outside, blind, found]
        rfl

namespace Engine

/-- A step of a program. -/
theorem step_program (p : Program) (s : State) :
    (program p).step s = s.execute p.size ((p.statements[s.pc.toNat]?).map fun stmt =>
      .ofReading (stmt.action p.size s.pc s.env s.memory)) := by
  rw [step, Program.step, State.execute]
  by_cases halted : s.isHalted = true
  · rw [if_pos halted, if_pos halted]
  · rw [if_neg halted, if_neg halted]
    by_cases outside : s.pc < 0 ∨ p.size < s.pc
    · rw [if_pos outside, if_pos outside]
    · rw [if_neg outside, if_neg outside]
      rcases p.statements[s.pc.toNat]? with _ | stmt
      · rfl
      · have opened : (Trapping.ofReading (stmt.action p.size s.pc s.env s.memory)).run s.inputs =
            (((stmt.action p.size s.pc s.env s.memory).run s.inputs).1.mapError Trap.fault,
              ((stmt.action p.size s.pc s.env s.memory).run s.inputs).2) := rfl
        simp only [Option.map_some, Option.elim_some, opened]
        rcases (stmt.action p.size s.pc s.env s.memory).run s.inputs with ⟨fault | change, inputs⟩
        · rfl
        · rfl

/-- A step of drafts. -/
theorem step_drafts (ds : List Draft) (s : State) :
    (drafts ds).step s = s.execute ds.length ((ds[s.pc.toNat]?).map fun draft =>
      draft.action ds.length s.pc s.env s.memory) := by
  rw [step, Draft.step, State.execute]
  by_cases halted : s.isHalted = true
  · rw [if_pos halted, if_pos halted]
  · rw [if_neg halted, if_neg halted]
    by_cases outside : s.pc < 0 ∨ ds.length < s.pc
    · rw [if_pos outside, if_pos outside]
    · rw [if_neg outside, if_neg outside]
      rcases ds[s.pc.toNat]? with _ | draft
      · rfl
      · simp only [Option.map_some, Option.elim_some]
        rcases (draft.action ds.length s.pc s.env s.memory).run s.inputs with
          ⟨(fault | error) | change, inputs⟩
        · rfl
        · rfl
        · rfl

/-- A step does nothing to input sources but read them. -/
theorem converses_step (engine : Engine) : Converses fun s => some (engine.step s).swap := by
  cases engine with
  | program p =>
    simp only [step_program]
    refine .of_execute p.size (fun _ _ => rfl) fun s action next => ?_
    obtain ⟨stmt, -, rfl⟩ := Option.map_eq_some_iff.mp next
    exact (stmt.readsOnly_action _ _ _ _).ofReading
  | drafts ds =>
    simp only [step_drafts]
    refine .of_execute ds.length (fun _ _ => rfl) fun s action next => ?_
    obtain ⟨draft, -, rfl⟩ := Option.map_eq_some_iff.mp next
    exact draft.readsOnly_action _ _ _ _

/-- A number of steps does nothing to input sources but read them. -/
theorem converses_steps (engine : Engine) (count : Nat) :
    Converses fun s => some (engine.steps count s).swap := by
  induction count with
  | zero => exact .of_blind fun s inputs => rfl
  | succ count ih =>
    have later (error : Option EngineError) : Converses fun t =>
        error.elim (some (engine.steps count t).swap) fun error => some (some error, t) := by
      cases error with
      | none => exact ih
      | some error => exact .of_blind fun s inputs => rfl
    have steps (s : State) : some (engine.steps (count + 1) s).swap =
        (some (engine.step s).swap).bind fun done =>
          done.1.elim (some (engine.steps count done.2).swap) fun error =>
            some (some error, done.2) := by
      rw [Engine.steps]
      rcases engine.step s with ⟨t, _ | error⟩ <;> rfl
    simp only [steps]
    exact engine.converses_step.bind later

/-! ## Runs -/

/-- A run that has ended makes no more steps. -/
theorem step_of_ended {s : State} (ended : s.isRunning = false) (engine : Engine) :
    engine.step s = (s, none) := by
  have halted : s.isHalted = true := by rw [State.isHalted_eq, ended]; rfl
  cases engine with
  | program p => rw [step_program, State.execute, if_pos halted]
  | drafts ds => rw [step_drafts, State.execute, if_pos halted]

/-- A run that has ended makes no more steps. -/
theorem steps_of_ended {s : State} (ended : s.isRunning = false) (engine : Engine) (count : Nat) :
    engine.steps count s = (s, none) := by
  induction count with
  | zero => rfl
  | succ count ih =>
    rw [steps, step_of_ended ended]
    exact ih

/-- What becomes of a run without a budget after some steps: nothing as long as it goes on. -/
def ended (done : State × Option EngineError) : Option (State × Option EngineError) :=
  if done.2.isNone && done.1.isRunning then none else some done

/-- A run of a program that goes on is inside of it, or it makes no step. -/
theorem within_or_step_eq_error {p : Program} {s : State} (running : s.isRunning = true) :
    p.Within s ∨ ∃ error, p.step s = .error error := by
  by_cases outside : s.pc < 0 ∨ p.size < s.pc
  · refine .inr ⟨{ pc := s.pc, size := p.size }, ?_⟩
    rw [Program.step, if_neg (by simp [State.isHalted_eq, running]), if_pos outside]
  · exact .inl ⟨by omega, by omega⟩

/-- From inside of a program, looking some steps ahead is making that many steps. -/
theorem runWithin_program {p : Program} {s : State} (within : p.Within s) (patience : Nat) :
    ∃ t, (program p).steps patience s = (t, none) ∧
      p.runWithin patience s = if t.isRunning then none else some (.ok t) := by
  induction patience generalizing s with
  | zero => exact ⟨s, rfl, rfl⟩
  | succ patience ih =>
    rw [Program.runWithin]
    cases running : s.isRunning with
    | false => exact ⟨s, steps_of_ended running _ _, by rw [running]; rfl⟩
    | true =>
      obtain ⟨t, stepped⟩ := Program.step_isOk within.nonneg within.atMost
      rw [steps, step, stepped]
      exact ih (within.step stepped)

/-- A run of a program that looks some steps ahead makes that many steps. -/
theorem run_program_unbounded (p : Program) (patience : Nat) (s : State) :
    (program p).run none patience s = ended ((program p).steps patience s) := by
  rw [run, Program.run]
  cases running : s.isRunning with
  | false =>
    have stays : p.runWithin patience s = some (.ok s) := by
      cases patience <;> rw [Program.runWithin, if_neg (by simp [running])]
    rw [stays, steps_of_ended running, ended, running]
    rfl
  | true =>
    obtain within | ⟨error, failed⟩ := within_or_step_eq_error running
    · obtain ⟨t, steps, found⟩ := runWithin_program within patience
      rw [found, steps, ended]
      cases t.isRunning <;> rfl
    · cases patience with
      | zero =>
        rw [Program.runWithin, if_pos running, steps, ended, running]
        rfl
      | succ patience =>
        rw [Program.runWithin, if_pos running, steps, step, failed]
        rfl

/-- A run of a program with a budget makes as many steps as the budget allows. -/
theorem run_program_budget (p : Program) (n patience : Nat) (s : State) :
    (program p).run (some n) patience s = some ((program p).steps n s) := by
  cases running : s.isRunning with
  | false =>
    rw [steps_of_ended running]
    exact (Program.engine_run_budget n patience).mpr (Program.runFor_of_ended running n)
  | true =>
    obtain within | ⟨error, failed⟩ := within_or_step_eq_error running
    · obtain ⟨t, spent⟩ := within.spends n
      rw [spent.stepped]
      exact (Program.engine_run_budget n patience).mpr spent.ran
    · cases n with
      | zero => exact (Program.engine_run_budget 0 patience).mpr (Program.runFor_zero p s)
      | succ n =>
        have stopped : p.runFor (n + 1) s = .error error := by
          rw [Program.runFor, Program.runUntil, dif_pos running, dif_pos (by omega)]
          split
          next other failed' => rw [failed] at failed'; rw [Except.error.inj failed']
          next t stepped => rw [failed] at stepped; cases stepped
        rw [run, Program.run_budget, stopped, steps, step, failed]
        rfl

/-- Looking some steps ahead in drafts is making that many steps. -/
theorem runWithin_drafts (ds : List Draft) (patience : Nat) (s : State) :
    Draft.runWithin ds patience s =
      (((drafts ds).steps patience s).1, (ended ((drafts ds).steps patience s)).map (·.2)) := by
  induction patience generalizing s with
  | zero =>
    rw [Draft.runWithin, steps, ended]
    cases s.isRunning <;> rfl
  | succ patience ih =>
    rw [Draft.runWithin]
    cases running : s.isRunning with
    | false =>
      rw [steps_of_ended running, ended, running]
      rfl
    | true =>
      have stepped : (drafts ds).step s = Draft.step ds s := rfl
      rw [steps, stepped]
      rcases Draft.step ds s with ⟨t, _ | error⟩
      · exact ih t
      · rfl

/-- A run with a budget that is not negative makes as many steps as the budget allows. -/
theorem run_budget (engine : Engine) (n patience : Nat) (s : State) :
    engine.run (some n) patience s = some (engine.steps n s) := by
  cases engine with
  | program p => exact run_program_budget p n patience s
  | drafts ds =>
    rw [run]
    simp only [if_neg (show ¬ (n : Int) < 0 by omega), Int.toNat_natCast, runWithin_drafts]
    rcases (drafts ds).steps n s with ⟨t, _ | error⟩
    · rw [ended]
      cases t.isRunning <;> rfl
    · rfl

/-- A run without a budget makes the steps it is looked ahead, and has ended then or has not. -/
theorem run_unbounded (engine : Engine) (patience : Nat) (s : State) :
    engine.run none patience s = ended (engine.steps patience s) := by
  cases engine with
  | program p => exact run_program_unbounded p patience s
  | drafts ds =>
    rw [run]
    simp only [runWithin_drafts]
    rcases (drafts ds).steps patience s with ⟨t, _ | error⟩
    · rw [ended]
      cases t.isRunning <;> rfl
    · rfl

/-- A run does nothing to input sources but read them. -/
theorem converses_run (engine : Engine) (budget : Option Int) (patience : Nat) :
    Converses fun s => (engine.run budget patience s).map Prod.swap := by
  cases budget with
  | none =>
    have judged (error : Option EngineError) :
        Converses fun s => (ended (s, error)).map Prod.swap := by
      refine .of_blind fun s inputs => ?_
      have same : ({ s with inputs } : State).isRunning = s.isRunning := rfl
      rw [ended, ended, same]
      cases error.isNone && s.isRunning <;> rfl
    have whole := (engine.converses_steps patience).bind judged
    simp only [Option.bind_some, Prod.fst_swap, Prod.snd_swap] at whole
    simp only [run_unbounded]
    exact whole
  | some n =>
    by_cases negative : n < 0
    · refine .of_blind fun s inputs => ?_
      have refused (s : State) :
          engine.run (some n) patience s = some (s, some (.negativeBudget n)) := by
        cases engine with
        | program p =>
          rw [run, Program.run]
          simp only [if_pos negative]
          rfl
        | drafts ds =>
          rw [run]
          simp only [if_pos negative]
      rw [refused, refused]
      rfl
    · obtain ⟨m, rfl⟩ := Int.eq_ofNat_of_zero_le (Int.not_lt.mp negative)
      simp only [run_budget]
      exact engine.converses_steps m

end Engine

/-! ## Acts -/

/-- Evaluating a formula does nothing to input sources but read them. -/
theorem State.converses_evaluateFormula (formula : Formula) :
    Converses fun s => some (s.evaluateFormula formula) := by
  cases formula with
  | expr e =>
    have evaluated : Converses fun s => some (s.evaluate e) :=
      .of_readsOnly (fun _ _ => rfl) fun s => e.readsOnly_eval s.env s.memory
    exact evaluated.map (Except.mapError Trap.fault)
  | draft draft => exact .of_readsOnly (fun _ _ => rfl) fun s => draft.readsOnly_eval s.env s.memory

/-- What comes back from an engine that has stopped for good or has not. -/
def Reply.ofEngine : Option EngineError → Reply
  | none => .ok none
  | some error => .error (.engine error)

/-- What comes back from an engine does not depend on the state it leaves. -/
theorem Reply.map_outcome (result : State × Option EngineError) :
    (Session.outcome result).map .ofUnit id = (ofEngine result.2, result.1) := by
  rcases result with ⟨s, _ | error⟩ <;> rfl

/-- Whatever is not asked of input sources from outside does nothing to them but read them. -/
theorem Act.converses {act : Act} (inside : ∀ asked, act ≠ .request asked) : Converses act.on := by
  cases act with
  | steps engine count =>
    have told := (engine.converses_steps count).map Reply.ofEngine
    have same : (steps engine count).on = fun s => some (Reply.ofEngine (engine.steps count s).2,
        (engine.steps count s).1) := by
      funext s
      rw [on, Reply.map_outcome]
    rw [same]
    exact told
  | run engine budget patience =>
    have told := (engine.converses_run budget patience).map Reply.ofEngine
    have same : (run engine budget patience).on = fun s =>
        ((engine.run budget patience s).map Prod.swap).map fun done =>
          (Reply.ofEngine done.1, done.2) := by
      funext s
      simp only [on, Reply.map_outcome, Option.map_map]
      rfl
    rw [same]
    exact told
  | evaluate formula =>
    exact (State.converses_evaluateFormula formula).map fun result =>
      (result.mapError SessionError.trap).map some
  | request asked => exact absurd rfl (inside asked)

end FlatIL
