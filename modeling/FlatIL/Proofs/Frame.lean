import FlatIL.Proofs.Persistence
import FlatIL.Proofs.UnreadInput

/-!
# What runs leave alone

The names that a program can touch stand in its text: a variable changes only if some statement
assigns to it, memory only if some statement stores, and a source is read only under a name that
some input read gives. What a step leaves alone is read off its statement, and what a run leaves
alone off its steps, whether they end in a fault or not.
-/

namespace FlatIL

/-! ## The names in a program -/

namespace Expr

/-- The variables that an expression reads, operands from left to right. -/
def variableNames : Expr → List String
  | lit _ | input _ => []
  | var name => [name]
  | load e | unary _ e => e.variableNames
  | binary _ l r => l.variableNames ++ r.variableNames

/-- The sources that an expression reads, operands from left to right. -/
def sourceNames : Expr → List String
  | lit _ | var _ => []
  | input source => [source]
  | load e | unary _ e => e.sourceNames
  | binary _ l r => l.sourceNames ++ r.sourceNames

end Expr

/-- The expressions of a statement in the order they are written. -/
def Stmt.parts : Stmt → List Expr
  | assign _ e => [e]
  | store a v => [a, v]
  | goto t => [t]
  | assert c => [c]
  | branch c t e => [c, t, e]

namespace Program

/-- The expressions of a program. -/
def parts (p : Program) : List Expr :=
  p.statements.flatMap Stmt.parts

/-- The variables that occur in a program, assigned to or read. -/
def variableNames (p : Program) : List String :=
  p.targets ++ p.parts.flatMap Expr.variableNames

/-- The sources that a program reads. -/
def sourceNames (p : Program) : List String :=
  p.parts.flatMap Expr.sourceNames

variable {p : Program} {stmt : Stmt} {e : Expr} {name : String}

/-- An expression of a statement of a program is one of the program. -/
theorem mem_parts (inside : stmt ∈ p.statements) (part : e ∈ stmt.parts) : e ∈ p.parts :=
  List.mem_flatMap.mpr ⟨stmt, inside, part⟩

/-- A target of an assignment of a program is one of the program. -/
theorem mem_targets {value : Expr} (inside : .assign name value ∈ p.statements) :
    name ∈ p.targets :=
  List.mem_filterMap.mpr ⟨_, inside, rfl⟩

end Program

/-! ## Sources that are not read -/

namespace Inputs

/-- A read leaves the other sources alone. -/
theorem get?_read_of_ne (inputs : Inputs) {source name : String} (other : name ≠ source) :
    (inputs.read source).2.get? name = inputs.get? name := by
  rcases inputs.read_cases source with
    ⟨-, unknown⟩ | ⟨stream, -, ⟨-, exhausted⟩ | ⟨value, -, found⟩⟩
  · rw [unknown]
  · rw [exhausted]
  · rw [found, Table.get?_insert, if_neg other]

end Inputs

namespace Reading

variable {α β : Type} {name : String}

/-- A computation that leaves a source alone, also when it faults. -/
def Spares (name : String) (reading : Reading α) : Prop :=
  ∀ inputs : Inputs, (reading.run inputs).2.get? name = inputs.get? name

/-- A result that may be a fault leaves every source alone. -/
theorem Spares.ofExcept (result : Except Fault α) : Spares name (Reading.ofExcept result) :=
  fun _ => rfl

/-- A value leaves every source alone. -/
theorem Spares.pure (value : α) : Spares name (Pure.pure value : Reading α) :=
  fun _ => rfl

/-- A read leaves the other sources alone. -/
theorem Spares.next {source : String} (other : name ≠ source) :
    Spares name (Reading.next source) :=
  fun inputs => inputs.get?_read_of_ne other

/-- What two computations leave alone, one after the other leaves alone. -/
theorem Spares.bind {reading : Reading α} {after : α → Reading β} (spares : Spares name reading)
    (behind : ∀ value, Spares name (after value)) : Spares name (reading >>= after) :=
  Reading.run_bind_keeps (fun before after : Inputs => after.get? name = before.get? name)
    (fun first second => second.trans first) spares behind

end Reading

/-- An evaluation leaves the sources alone that the expression does not read. -/
theorem Expr.spares_eval {name : String} (env : Env) (memory : Memory) {e : Expr}
    (unread : name ∉ e.sourceNames) : Reading.Spares name (e.eval env memory) := by
  rw [eval, traverse_eq_fold]
  induction e with
  | lit value => exact .pure value
  | var x => exact .ofExcept (env.lookup x)
  | input source =>
    have other : name ≠ source := by simpa [sourceNames] using unread
    exact .next other
  | load address ih => exact (ih unread).bind fun a => .ofExcept (memory.lookup a)
  | unary op operand ih => exact (ih unread).bind fun v => .pure (op.apply v)
  | binary op left right ihLeft ihRight =>
    have apart : name ∉ left.sourceNames ∧ name ∉ right.sourceNames := by
      simpa [sourceNames] using unread
    exact (ihLeft apart.1).bind fun l => (ihRight apart.2).bind fun r =>
      .ofExcept (op.apply l r)

/-- A statement leaves the sources alone that none of its expressions reads. -/
theorem Stmt.spares_action {name : String} (size : Nat) (pc : Int) (env : Env) (memory : Memory)
    {stmt : Stmt} (unread : ∀ e ∈ stmt.parts, name ∉ e.sourceNames) :
    Reading.Spares name (stmt.action size pc env memory) := by
  have evaluated (e : Expr) (part : e ∈ stmt.parts) : Reading.Spares name (e.eval env memory) :=
    Expr.spares_eval env memory (unread e part)
  cases stmt with
  | assign target value =>
    exact (evaluated value (by simp [parts])).bind fun v => .pure (Change.bind target v)
  | store address value =>
    exact (evaluated address (by simp [parts])).bind fun a =>
      (evaluated value (by simp [parts])).bind fun v => .pure (Change.write a v)
  | goto target =>
    exact (evaluated target (by simp [parts])).bind fun t =>
      .ofExcept (Change.jumpTo size t)
  | assert condition =>
    exact (evaluated condition (by simp [parts])).bind fun v =>
      .ofExcept (Change.assertion pc v)
  | branch condition thenTarget elseTarget =>
    refine (evaluated condition (by simp [parts])).bind fun v => ?_
    refine (evaluated _ ?_).bind fun t => .ofExcept (Change.jumpTo size t)
    split <;> simp [parts]

/-! ## Steps and runs -/

/-- What a run of a program leaves alone. -/
structure Program.Leaves (p : Program) (s t : State) : Prop where
  /-- Variables that no statement assigns to keep their values. -/
  env : ∀ name, name ∉ p.targets → t.env.get? name = s.env.get? name
  /-- Memory stays as it is if no statement stores. -/
  memory : (∀ address value, .store address value ∉ p.statements) → t.memory = s.memory
  /-- Sources that no expression reads stay as they are. -/
  inputs : ∀ name, name ∉ p.sourceNames → t.inputs.get? name = s.inputs.get? name

namespace Program

variable {p : Program} {s t u : State}

/-- A state leaves itself alone. -/
theorem Leaves.refl (p : Program) (s : State) : p.Leaves s s :=
  ⟨fun _ _ => rfl, fun _ => rfl, fun _ _ => rfl⟩

/-- What is left alone twice is left alone. -/
theorem Leaves.trans (first : p.Leaves s t) (second : p.Leaves t u) : p.Leaves s u where
  env name kept := (second.env name kept).trans (first.env name kept)
  memory kept := (second.memory kept).trans (first.memory kept)
  inputs name kept := (second.inputs name kept).trans (first.inputs name kept)

/-- A statement that commits leaves alone the variables that it does not assign to, and memory
unless it stores. -/
theorem leaves_of_commits {stmt : Stmt} (inside : stmt ∈ p.statements)
    (committed : stmt.Commits s t)
    (inputs : ∀ name, name ∉ p.sourceNames → t.inputs.get? name = s.inputs.get? name) :
    p.Leaves s t := by
  cases stmt with
  | assign target value =>
    obtain ⟨v, -, env, memory⟩ := committed
    refine ⟨?_, fun _ => memory, inputs⟩
    intro name kept
    have other : name ≠ target := fun same => kept (same ▸ mem_targets inside)
    rw [env, Table.get?_insert, if_neg other]
  | store address value =>
    obtain ⟨a, between, v, -, -, -, env⟩ := committed
    exact ⟨fun _ _ => by rw [env], fun kept => absurd inside (kept address value), inputs⟩
  | goto target | assert condition | branch condition thenTarget elseTarget =>
    exact ⟨fun _ _ => by rw [committed.1], fun _ => committed.2, inputs⟩

/-- A step leaves alone what its statement does not name. -/
theorem leaves_of_step (stepped : p.step s = .ok t) : p.Leaves s t := by
  have spared {stmt : Stmt} (inside : stmt ∈ p.statements) {name : String}
      (kept : name ∉ p.sourceNames) :
      Reading.Spares name (stmt.action p.size s.pc s.env s.memory) := by
    apply Stmt.spares_action
    intro e part read
    exact kept (List.mem_flatMap.mpr ⟨e, mem_parts inside part, read⟩)
  cases transition_of_step stepped with
  | halted ended => exact .refl p s
  | finished running atEnd => exact ⟨fun _ _ => rfl, fun _ => rfl, fun _ _ => rfl⟩
  | @faulted stmt fault inputs running nonneg next acted =>
    refine ⟨fun _ _ => rfl, fun _ => rfl, ?_⟩
    intro name kept
    have same := spared (List.mem_of_getElem? next) kept s.inputs
    rw [acted] at same
    exact same
  | @executed stmt change inputs running nonneg next performed =>
    have inside : stmt ∈ p.statements := List.mem_of_getElem? next
    apply leaves_of_commits inside performed.commits
    intro name kept
    have same := spared inside kept s.inputs
    rw [(Stmt.action_eq_ok s.pc).mpr performed] at same
    rw [State.settle_eq, State.inputs_apply]
    exact same

/-- A run leaves alone what its steps do. -/
theorem leaves_of_steps (steps : p.Steps s t) : p.Leaves s t := by
  induction steps with
  | refl => exact .refl p s
  | tail _ stepped ih => exact ih.trans (leaves_of_step stepped)

end Program

/-! ## Whatever an engine does -/

/-- Where an engine leads from a state: by single steps and by runs with a budget or without one,
any number of them in any order, whether they are made or refused. -/
inductive Engine.LeadsTo (engine : Engine) (s : State) : State → Prop where
  | start : LeadsTo engine s s
  | step {t : State} (before : LeadsTo engine s t) : LeadsTo engine s (engine.step t).1
  | run {t u : State} {budget : Option Int} {patience : Nat} {error : Option EngineError}
      (before : LeadsTo engine s t) (ran : engine.run budget patience t = some (u, error)) :
      LeadsTo engine s u

/-- An engine of a program leads where the steps of the program do. -/
theorem Engine.LeadsTo.steps {p : Program} {s t : State}
    (leads : (Engine.program p).LeadsTo s t) : p.Steps s t := by
  induction leads with
  | start => exact .refl
  | @step t _ ih =>
    rw [Engine.step]
    cases stepped : p.step t with
    | ok u => exact ih.tail stepped
    | error error => exact ih
  | @run t u budget patience error _ ran ih =>
    obtain ⟨result, made, outcome⟩ := Option.map_eq_some_iff.mp ran
    cases result with
    | ok v =>
      obtain rfl : v = u := congrArg Prod.fst outcome
      exact ih.trans (Program.steps_of_run made)
    | error refusal =>
      obtain rfl : t = u := congrArg Prod.fst outcome
      exact ih

namespace Program

/-- Whatever an engine of a program does, the variables bound before are the first of those bound
after, and so are the memory cells; no cursor moves back; a variable that the program does not
assign to keeps its value; and a program that does not store leaves memory as it is. -/
theorem entries_persist {p : Program} {s t : State} (leads : (Engine.program p).LeadsTo s t) :
    (s.env.keys <+: t.env.keys ∧ t.env.keys.Nodup) ∧
      (s.memory.keys <+: t.memory.keys ∧ t.memory.keys.Nodup) ∧
      (∀ name before, s.inputs.position? name = some before →
        ∃ after, t.inputs.position? name = some after ∧ before ≤ after) ∧
      (∀ name, name ∉ p.targets → t.env.get? name = s.env.get? name) ∧
      ((∀ address value, .store address value ∉ p.statements) → t.memory = s.memory) := by
  have steps : p.Steps s t := leads.steps
  have grows : p.Grows s t := grows_of_steps steps
  have leaves : p.Leaves s t := leaves_of_steps steps
  exact ⟨⟨grows.env, t.env.distinct⟩, ⟨grows.memory, t.memory.distinct⟩,
    advances_of_steps steps, leaves.env, leaves.memory⟩

/-- A loop that binds a variable again and again until its source is exhausted. -/
theorem entries_persist_of_loop :
    let p : Program := ⟨[.assign "x" (.input "a"), .goto (.lit 0)]⟩
    let env (x : Word) : Env := ⟨[("x", x), ("y", 5)], by simp⟩
    let inputs (cursor : Nat) : Inputs := ⟨[("a", { values := [7], cursor })], by simp⟩
    let s : State := { env := env 1, inputs := inputs 0 }
    let t : State := State.fail { env := env 7, inputs := inputs 1, steps := 3 }
      (.inputExhausted "a" 1)
    (Engine.program p).LeadsTo s t ∧ s.env.keys <+: t.env.keys ∧
      t.env.get? "y" = s.env.get? "y" ∧ t.memory = s.memory := by
  intro p env inputs s t
  let s₁ : State := { pc := 1, env := env 7, inputs := inputs 1, steps := 1 }
  let s₂ : State := { env := env 7, inputs := inputs 1, steps := 2 }
  have reads : Stmt.Performs 2 (env 1) .empty (inputs 0) (.assign "x" (.input "a")) (.bind "x" 7)
      (inputs 1) := ⟨7, rfl, rfl⟩
  have jumps : Stmt.Performs 2 (env 7) .empty (inputs 1) (.goto (.lit 0)) (.jump 0) (inputs 1) :=
    ⟨0, rfl, by decide, rfl⟩
  have first : p.step s = .ok s₁ :=
    step_of_transition (Transition.executed (p := p) (s := s) rfl (by decide) rfl reads)
  have second : p.step s₁ = .ok s₂ :=
    step_of_transition (Transition.executed (p := p) (s := s₁) rfl (by decide) rfl jumps)
  have exhausted : (Stmt.action 2 0 (env 7) .empty (.assign "x" (.input "a"))).run (inputs 1) =
      (.error (.inputExhausted "a" 1), inputs 1) := by
    rw [Stmt.action, Reading.run_bind, Expr.eval_run]
    rfl
  have third : p.step s₂ = .ok t :=
    step_of_transition (Transition.faulted (p := p) (s := s₂) rfl (by decide) rfl exhausted)
  have ran : (Engine.program p).run (some 3) 0 s = some (t, none) := by
    refine (engine_run_budget 3 0).mpr ?_
    rw [runFor_succ rfl first, runFor_succ rfl second, runFor_succ rfl third, runFor_zero]
  have leads : (Engine.program p).LeadsTo s t := .run .start ran
  obtain ⟨⟨bound, -⟩, -, -, kept, cells⟩ := entries_persist leads
  exact ⟨leads, bound, kept "y" (by decide), cells (by simp [p])⟩

end Program

end FlatIL
