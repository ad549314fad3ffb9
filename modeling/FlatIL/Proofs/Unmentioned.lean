import FlatIL.Proofs.Frame

/-!
# Names that a program does not mention

Two runs of a program are compared that start alike under the variables that occur in the program
and under the sources that it reads, whatever else the one or the other is seeded with. Each
evaluation, and so each step, gives the same in both: it looks up no other name and moves no other
cursor. One thing tells the two runs apart. A read of a source that does not exist ends in a fault
whose text lists all sources there are.
-/

namespace FlatIL

/-! ## Faults without the names they list -/

namespace Fault

/-- A fault without the sources that it lists. -/
def unlisted : Fault → Fault
  | unknownSource source _ => unknownSource source []
  | fault => fault

/-- The kind of a fault does not depend on what it lists. -/
theorem kind_unlisted (fault : Fault) : fault.unlisted.kind = fault.kind := by
  cases fault <;> rfl

/-- Only a fault of an unknown source lists something. -/
theorem unlisted_of_ne {fault : Fault} (known : fault.kind ≠ "UnknownInputSource") :
    fault.unlisted = fault := by
  cases fault with
  | unknownSource source available => exact absurd rfl known
  | undefinedVariable _ | unwrittenAddress _ | divideByZero _ _ | inputExhausted _ _
  | invalidTarget _ _ | assertionFailed _ => rfl

end Fault

/-! ## Evaluations that see the same -/

namespace Inputs

/-- A read of a source under which the same is seen gives the same, and the same is seen after. -/
theorem read_only {names : List String} {source : String} (known : source ∈ names)
    {first second : Inputs} (same : second.only names = first.only names) :
    (second.read source).1.mapError Fault.unlisted =
        (first.read source).1.mapError Fault.unlisted ∧
      Table.only names (second.read source).2 = Table.only names (first.read source).2 := by
  have found : second.get? source = first.get? source := by
    rw [← Table.get?_only known, same, Table.get?_only known]
  rw [read, read, found]
  cases first.get? source with
  | none => exact ⟨rfl, same⟩
  | some stream =>
    dsimp only
    cases stream.values[stream.cursor]? with
    | none => exact ⟨rfl, same⟩
    | some value =>
      refine ⟨rfl, ?_⟩
      dsimp only
      rw [Table.only_insert known, Table.only_insert known, same]

end Inputs

namespace Reading

variable {α β : Type} {names : List String}

/-- Two computations that give the same on sources that are the same under some names, but for
what a fault lists, and leave these sources the same. -/
def Agree (names : List String) (first second : Reading α) : Prop :=
  ∀ inputs inputs' : Inputs, inputs'.only names = inputs.only names →
    (second.run inputs').1.mapError Fault.unlisted =
        (first.run inputs).1.mapError Fault.unlisted ∧
      Table.only names (second.run inputs').2 = Table.only names (first.run inputs).2

/-- A value is the same. -/
theorem Agree.pure (value : α) : Agree names (Pure.pure value : Reading α) (Pure.pure value) :=
  fun _ _ same => ⟨rfl, same⟩

/-- A result that may be a fault is the same. -/
theorem Agree.ofExcept (result : Except Fault α) :
    Agree names (Reading.ofExcept result) (Reading.ofExcept result) :=
  fun _ _ same => ⟨rfl, same⟩

/-- A read under one of the names is the same. -/
theorem Agree.next {source : String} (known : source ∈ names) :
    Agree names (Reading.next source) (Reading.next source) :=
  fun _ _ same => Inputs.read_only known same

/-- Computations that agree, one after the other, agree. -/
theorem Agree.bind {first second : Reading α} {after behind : α → Reading β}
    (agree : Agree names first second) (rest : ∀ value, Agree names (after value) (behind value)) :
    Agree names (first >>= after) (second >>= behind) := by
  intro inputs inputs' same
  have here := agree inputs inputs' same
  rw [Reading.run_bind, Reading.run_bind]
  rcases outcome : first.run inputs with ⟨fault | value, between⟩ <;>
    rcases outcome' : second.run inputs' with ⟨fault' | value', between'⟩ <;>
    rw [outcome, outcome'] at here
  · exact ⟨congrArg Except.error (Except.error.inj here.1), here.2⟩
  · cases here.1
  · cases here.1
  · obtain rfl : value' = value := Except.ok.inj here.1
    exact rest value' between between' here.2

end Reading

/-- An evaluation sees only the variables and the sources that occur in the expression. -/
theorem Expr.agree_eval {names sources : List String} {env env' : Env}
    (same : env'.only names = env.only names) (memory : Memory) {e : Expr}
    (read : ∀ name ∈ e.variableNames, name ∈ names)
    (taken : ∀ name ∈ e.sourceNames, name ∈ sources) :
    Reading.Agree sources (e.eval env memory) (e.eval env' memory) := by
  rw [eval, eval, traverse_eq_fold, traverse_eq_fold]
  induction e with
  | lit value => exact .pure value
  | var name =>
    have known : name ∈ names := read name (by simp [variableNames])
    have found : env'.lookup name = env.lookup name := by
      rw [Env.lookup, Env.lookup, ← Table.get?_only known, same, Table.get?_only known]
    show Reading.Agree sources (.ofExcept (env.lookup name)) (.ofExcept (env'.lookup name))
    rw [found]
    exact .ofExcept (env.lookup name)
  | input source => exact .next (taken source (by simp [sourceNames]))
  | load address ih => exact (ih read taken).bind fun a => .ofExcept (memory.lookup a)
  | unary op operand ih => exact (ih read taken).bind fun v => .pure (op.apply v)
  | binary op left right ihLeft ihRight =>
    have first := ihLeft (fun name inside => read name (List.mem_append_left _ inside))
      fun name inside => taken name (List.mem_append_left _ inside)
    have second := ihRight (fun name inside => read name (List.mem_append_right _ inside))
      fun name inside => taken name (List.mem_append_right _ inside)
    exact first.bind fun l => second.bind fun r => .ofExcept (op.apply l r)

/-- A statement sees only the variables and the sources that its expressions do. -/
theorem Stmt.agree_action {names sources : List String} {env env' : Env}
    (same : env'.only names = env.only names) (memory : Memory) (size : Nat) (pc : Int)
    {stmt : Stmt} (read : ∀ e ∈ stmt.parts, ∀ name ∈ e.variableNames, name ∈ names)
    (taken : ∀ e ∈ stmt.parts, ∀ name ∈ e.sourceNames, name ∈ sources) :
    Reading.Agree sources (stmt.action size pc env memory) (stmt.action size pc env' memory) := by
  have evaluated (e : Expr) (part : e ∈ stmt.parts) :
      Reading.Agree sources (e.eval env memory) (e.eval env' memory) :=
    Expr.agree_eval same memory (read e part) (taken e part)
  cases stmt with
  | assign target value =>
    exact (evaluated value (by simp [parts])).bind fun v => .pure (Change.bind target v)
  | store address value =>
    exact (evaluated address (by simp [parts])).bind fun a =>
      (evaluated value (by simp [parts])).bind fun v => .pure (Change.write a v)
  | goto target =>
    exact (evaluated target (by simp [parts])).bind fun t =>
      .ofExcept (Change.jumpTo size t)
  | assert condition =>
    exact (evaluated condition (by simp [parts])).bind fun v =>
      .ofExcept (Change.assertion pc v)
  | branch condition thenTarget elseTarget =>
    refine (evaluated condition (by simp [parts])).bind fun v => ?_
    refine (evaluated _ ?_).bind fun t => .ofExcept (Change.jumpTo size t)
    split <;> simp [parts]

/-! ## Runs side by side -/

/-- States in which a program sees the same, whatever else there is. -/
structure Program.SeesSame (p : Program) (s t : State) : Prop where
  pc : t.pc = s.pc
  status : t.status = s.status
  steps : t.steps = s.steps
  memory : t.memory = s.memory
  /-- The variables that occur in the program, in their order. -/
  env : t.env.only p.variableNames = s.env.only p.variableNames
  /-- The sources that the program reads, in their order. -/
  inputs : t.inputs.only p.sourceNames = s.inputs.only p.sourceNames
  kind : t.fault.map Fault.kind = s.fault.map Fault.kind
  /-- The text of a fault, unless it lists the sources there are. -/
  message : s.fault.map Fault.kind ≠ some "UnknownInputSource" →
    t.faultMessage = s.faultMessage

namespace Program

variable {p : Program} {s t u : State}

/-- A run goes on exactly if the other one does. -/
theorem SeesSame.isRunning (same : p.SeesSame s t) : t.isRunning = s.isRunning := by
  rw [State.isRunning, State.isRunning, same.status]

/-- The same statement does the same in both states, and leaves the same sources. -/
theorem SeesSame.acted (same : p.SeesSame s t) {stmt : Stmt} (inside : stmt ∈ p.statements) :
    Reading.Agree p.sourceNames (stmt.action p.size s.pc s.env s.memory)
      (stmt.action p.size t.pc t.env t.memory) := by
  rw [same.pc, same.memory]
  apply Stmt.agree_action same.env
  · intro e part name read
    exact List.mem_append_right _ (List.mem_flatMap.mpr ⟨e, mem_parts inside part, read⟩)
  · intro e part name read
    exact List.mem_flatMap.mpr ⟨e, mem_parts inside part, read⟩

/-- A fault is the same in both states but for what it lists. -/
theorem SeesSame.fail {inputs inputs' : Inputs} {fault fault' : Fault} (same : p.SeesSame s t)
    (left : inputs'.only p.sourceNames = inputs.only p.sourceNames)
    (unlisted : fault'.unlisted = fault.unlisted) :
    p.SeesSame ((s.count inputs).fail fault) ((t.count inputs').fail fault') := by
  have kind : fault'.kind = fault.kind := by
    rw [← Fault.kind_unlisted, unlisted, Fault.kind_unlisted]
  refine ⟨same.pc, rfl, congrArg (· + 1) same.steps, same.memory, same.env, left,
    congrArg some kind, ?_⟩
  intro other
  have known : fault.kind ≠ "UnknownInputSource" := fun named => other (congrArg some named)
  have known' : fault'.kind ≠ "UnknownInputSource" := fun named => known (kind.symm.trans named)
  rw [Fault.unlisted_of_ne known, Fault.unlisted_of_ne known'] at unlisted
  exact congrArg (fun fault => some fault.message) unlisted

/-- Both runs come to the end of the program together. -/
theorem SeesSame.settle (same : p.SeesSame s t) (size : Nat) :
    p.SeesSame (s.settle size) (t.settle size) := by
  have status : (if t.pc = size then .succeeded else t.status) =
      (if s.pc = size then Status.succeeded else s.status) := by
    rw [same.pc, same.status]
  rw [State.settle_eq, State.settle_eq]
  exact { same with status }

/-- A change that binds no variable but those of the program is the same in both states. -/
theorem SeesSame.apply {inputs inputs' : Inputs} {change : Change} (same : p.SeesSame s t)
    (left : inputs'.only p.sourceNames = inputs.only p.sourceNames)
    (known : ∀ name value, change = .bind name value → name ∈ p.variableNames) :
    p.SeesSame ((s.count inputs).apply change) ((t.count inputs').apply change) := by
  have counted : t.steps + 1 = s.steps + 1 := congrArg (· + 1) same.steps
  have advanced : t.pc + 1 = s.pc + 1 := congrArg (· + 1) same.pc
  cases change with
  | bind name value =>
    have inserted : (t.env.insert name value).only p.variableNames =
        (s.env.insert name value).only p.variableNames := by
      have assigned := known name value rfl
      rw [Table.only_insert assigned, Table.only_insert assigned, same.env]
    exact { same with pc := advanced, steps := counted, env := inserted, inputs := left }
  | write address value =>
    have written : t.memory.insert address value = s.memory.insert address value := by
      rw [same.memory]
    exact { same with pc := advanced, steps := counted, memory := written, inputs := left }
  | jump target => exact { same with pc := rfl, steps := counted, inputs := left }
  | proceed => exact { same with pc := advanced, steps := counted, inputs := left }

/-- A variable that a statement binds is one that the program assigns to. -/
theorem mem_targets_of_performs {size : Nat} {env : Env} {memory : Memory} {inputs rest : Inputs}
    {stmt : Stmt} {name : String} {value : Word} (inside : stmt ∈ p.statements)
    (performed : stmt.Performs size env memory inputs (.bind name value) rest) :
    name ∈ p.targets := by
  cases stmt with
  | assign target e =>
    obtain ⟨v, -, same⟩ := performed
    obtain ⟨rfl, -⟩ := Change.bind.inj same
    exact mem_targets inside
  | store address e =>
    obtain ⟨a, between, v, -, -, other⟩ := performed
    cases other
  | goto target =>
    obtain ⟨t, -, -, other⟩ := performed
    cases other
  | assert condition =>
    obtain ⟨v, -, -, other⟩ := performed
    cases other
  | branch condition thenTarget elseTarget =>
    obtain ⟨v, between, t, -, -, -, other⟩ := performed
    cases other

/-- A step is made in the same way from a state in which the same is seen. -/
theorem SeesSame.step {s' : State} (same : p.SeesSame s s') (stepped : p.step s = .ok t) :
    ∃ t', p.step s' = .ok t' ∧ p.SeesSame t t' := by
  have running' : s'.isRunning = s.isRunning := same.isRunning
  cases transition_of_step stepped with
  | halted ended => exact ⟨s', step_of_ended (running'.trans ended), same⟩
  | finished running atEnd =>
    refine ⟨_, step_of_transition (.finished (running'.trans running) (same.pc.trans atEnd)), ?_⟩
    exact { same with status := rfl }
  | @faulted stmt fault inputs running nonneg next acted =>
    have both := same.acted (List.mem_of_getElem? next) s.inputs s'.inputs same.inputs
    rcases acted' : (stmt.action p.size s'.pc s'.env s'.memory).run s'.inputs with
      ⟨fault' | change', inputs'⟩
    · rw [acted, acted'] at both
      rw [← same.pc] at nonneg next
      have faulted := Transition.faulted (running'.trans running) nonneg next acted'
      exact ⟨_, step_of_transition faulted, same.fail both.2 (Except.error.inj both.1)⟩
    · rw [acted, acted'] at both
      cases both.1
  | @executed stmt change inputs running nonneg next performed =>
    have inside : stmt ∈ p.statements := List.mem_of_getElem? next
    have both := same.acted inside s.inputs s'.inputs same.inputs
    rw [(Stmt.action_eq_ok s.pc).mpr performed] at both
    rcases acted' : (stmt.action p.size s'.pc s'.env s'.memory).run s'.inputs with
      ⟨fault' | change', inputs'⟩
    · rw [acted'] at both
      cases both.1
    · rw [acted'] at both
      obtain rfl : change' = change := Except.ok.inj both.1
      rw [← same.pc] at nonneg next
      have executed := Transition.executed (running'.trans running) nonneg next
        ((Stmt.action_eq_ok s'.pc).mp acted')
      refine ⟨_, step_of_transition executed, (same.apply both.2 ?_).settle p.size⟩
      rintro name value rfl
      exact List.mem_append_left _ (mem_targets_of_performs inside performed)

/-- Runs with the same budget lead to states in which the same is seen. -/
theorem SeesSame.runFor {s' : State} (same : p.SeesSame s s') (within : p.Within s) (n : Nat) :
    ∃ t t', p.runFor n s = .ok t ∧ p.runFor n s' = .ok t' ∧ p.SeesSame t t' := by
  induction n generalizing s s' with
  | zero => exact ⟨s, s', runFor_zero p s, runFor_zero p s', same⟩
  | succ n ih =>
    cases running : s.isRunning with
    | false =>
      have ended' : s'.isRunning = false := same.isRunning.trans running
      exact ⟨s, s', runFor_of_ended running _, runFor_of_ended ended' _, same⟩
    | true =>
      have running' : s'.isRunning = true := same.isRunning.trans running
      obtain ⟨u, stepped⟩ := step_isOk within.nonneg within.atMost
      obtain ⟨u', stepped', between⟩ := same.step stepped
      rw [runFor_succ running stepped, runFor_succ running' stepped']
      exact ih between (within.step stepped)

/-- Looking equally far ahead, both runs end in states in which the same is seen, or neither
ends. -/
theorem SeesSame.runWithin {s' : State} (same : p.SeesSame s s') (within : p.Within s)
    (patience : Nat) :
    p.runWithin patience s = none ∧ p.runWithin patience s' = none ∨
      ∃ t t', p.runWithin patience s = some (.ok t) ∧ p.runWithin patience s' = some (.ok t') ∧
        p.SeesSame t t' := by
  induction patience generalizing s s' with
  | zero =>
    rw [Program.runWithin, Program.runWithin, same.isRunning]
    cases s.isRunning with
    | false => exact .inr ⟨s, s', rfl, rfl, same⟩
    | true => exact .inl ⟨rfl, rfl⟩
  | succ patience ih =>
    rw [Program.runWithin, Program.runWithin, same.isRunning]
    cases s.isRunning with
    | false => exact .inr ⟨s, s', rfl, rfl, same⟩
    | true =>
      obtain ⟨u, stepped⟩ := step_isOk within.nonneg within.atMost
      obtain ⟨u', stepped', between⟩ := same.step stepped
      rw [stepped, stepped']
      exact ih between (within.step stepped)

end Program

/-! ## Fresh states -/

namespace Inputs

/-- Registering sources registers those among them whose names are kept. -/
theorem registerAll_only (names : List String) {inputs after : Inputs}
    {streams : List (String × List Json)} (registered : inputs.registerAll streams = .ok after) :
    registerAll (inputs.only names) (streams.filter fun stream => stream.1 ∈ names) =
      .ok (after.only names) := by
  induction streams generalizing inputs with
  | nil =>
    obtain rfl := Except.ok.inj registered
    rfl
  | cons stream streams ih =>
    obtain ⟨name, values⟩ := stream
    obtain ⟨between, first, rest⟩ := Seeds.bind_eq_ok.mp registered
    obtain ⟨named, fresh, words, given, rfl⟩ := register_eq_ok.mp first
    have others := ih rest
    by_cases known : name ∈ names
    · rw [Table.only_insert known] at others
      rw [List.filter_cons_of_pos (by simpa using known)]
      have unused : (inputs.only names).contains name = false := by
        rw [Table.contains, Table.get?_only known]
        exact fresh
      exact Seeds.bind_eq_ok.mpr ⟨_, register_eq_ok.mpr ⟨named, unused, words, given, rfl⟩, others⟩
    · rw [Table.only_insert_of_notMem known] at others
      rw [List.filter_cons_of_neg (by simpa using known)]
      exact others

/-- Nothing is read of a source that is registered. -/
theorem position?_of_registerAll {streams : List (String × List Json)} {inputs : Inputs}
    (registered : registerAll .empty streams = .ok inputs) {name : String}
    (given : name ∈ streams.map Prod.fst) : inputs.position? name = some 0 := by
  rw [position?_eq_find?, cursors_of_registerAll registered]
  generalize streams.map Prod.fst = names at given
  induction names with
  | nil => cases given
  | cons first others ih =>
    by_cases here : first = name
    · simp [Table.find?, here]
    · have later : name ∈ others := by simpa [Ne.symm here] using given
      simp [Table.find?, here, ih later]

end Inputs

namespace Seeds

/-- Admitting variables admits those among them whose names are kept. -/
theorem admitEnv_only (names : List String) {env after : Env} {bindings : List (String × Json)}
    (admitted : admitEnv env bindings = .ok after) :
    admitEnv (env.only names) (bindings.filter fun binding => binding.1 ∈ names) =
      .ok (after.only names) := by
  induction bindings generalizing env with
  | nil =>
    obtain rfl := Except.ok.inj admitted
    rfl
  | cons binding bindings ih =>
    obtain ⟨name, value⟩ := binding
    obtain ⟨named, v, given, rest⟩ := admitEnv_cons_eq_ok.mp admitted
    have others := ih rest
    by_cases known : name ∈ names
    · rw [Table.only_insert known] at others
      rw [List.filter_cons_of_pos (by simpa using known)]
      exact admitEnv_cons_eq_ok.mpr ⟨named, v, given, others⟩
    · rw [Table.only_insert_of_notMem known] at others
      rw [List.filter_cons_of_neg (by simpa using known)]
      exact others

end Seeds

/-- Seeds that are the same for a program: they give it the same cells, and the same values, in the
same order, under the names that it mentions. Seeds to which other variables and other sources are
added, wherever they stand, are the same for it. -/
structure Program.SeededSame (p : Program) (seeds more : Seeds) : Prop where
  inputs : (more.inputs.filter fun stream => stream.1 ∈ p.sourceNames) =
    seeds.inputs.filter fun stream => stream.1 ∈ p.sourceNames
  memory : more.memory = seeds.memory
  env : (more.env.filter fun binding => binding.1 ∈ p.variableNames) =
    seeds.env.filter fun binding => binding.1 ∈ p.variableNames

namespace Program

/-- A program sees the same in the fresh states of seeds that are the same for it. -/
theorem SeededSame.start {p : Program} {seeds more : Seeds} {s s' : State}
    (same : p.SeededSame seeds more) (started : seeds.start = .ok s)
    (started' : more.start = .ok s') : p.SeesSame s s' := by
  obtain ⟨inputs, registered, on⟩ := Seeds.start_eq_ok_iff.mp started
  obtain ⟨inputs', registered', on'⟩ := Seeds.start_eq_ok_iff.mp started'
  obtain ⟨memory, env, cells, bindings, rfl⟩ := Seeds.startOn_eq_ok_iff.mp on
  obtain ⟨memory', env', cells', bindings', rfl⟩ := Seeds.startOn_eq_ok_iff.mp on'
  rw [same.memory, cells] at cells'
  have envs := Seeds.admitEnv_only p.variableNames bindings'
  rw [same.env, Seeds.admitEnv_only p.variableNames bindings] at envs
  have sources := Inputs.registerAll_only p.sourceNames registered'
  rw [same.inputs, Inputs.registerAll_only p.sourceNames registered] at sources
  exact ⟨rfl, rfl, rfl, (Except.ok.inj cells').symm, (Except.ok.inj envs).symm,
    (Except.ok.inj sources).symm, rfl, fun _ => rfl⟩

/-! ## Whole runs -/

/-- A run from a fresh state leads to a state in which the program sees the same as in another, and
it leaves alone what the program does not mention. -/
structure Unaffected (p : Program) (more : Seeds) (start t t' : State) : Prop where
  same : p.SeesSame t t'
  /-- Variables that the program does not mention keep their values. -/
  bindings : ∀ name, name ∉ p.variableNames → t'.env.get? name = start.env.get? name
  /-- Nothing is read of sources that the program does not mention. -/
  cursors : ∀ name ∈ more.inputs.map Prod.fst, name ∉ p.sourceNames →
    t'.inputs.position? name = some 0

/-- Steps from the fresh state of seeds keep what the program does not mention. -/
theorem SeesSame.unaffected {p : Program} {more : Seeds} {s' t t' : State}
    (same : p.SeesSame t t') (started' : more.start = .ok s') (steps : p.Steps s' t') :
    p.Unaffected more s' t t' := by
  have leaves : p.Leaves s' t' := leaves_of_steps steps
  refine ⟨same, ?_, ?_⟩
  · intro name unmentioned
    exact leaves.env name fun assigned => unmentioned (List.mem_append_left _ assigned)
  · intro name given unmentioned
    obtain ⟨inputs, registered, on⟩ := Seeds.start_eq_ok_iff.mp started'
    obtain ⟨memory, env, -, -, rfl⟩ := Seeds.startOn_eq_ok_iff.mp on
    rw [Inputs.position?, leaves.inputs name unmentioned]
    exact Inputs.position?_of_registerAll registered given

/-- Seeds that are the same for a program lead it to the same, with every budget and without one:
it sees the same in the end, and what it does not mention stays as it was seeded. -/
theorem unmentioned_seeds_inert {p : Program} {seeds more : Seeds} {s s' : State}
    (same : p.SeededSame seeds more) (started : seeds.start = .ok s)
    (started' : more.start = .ok s') (patience : Nat) :
    (∀ n : Nat, ∃ t t', (Engine.program p).run (some n) patience s = some (t, none) ∧
      (Engine.program p).run (some n) patience s' = some (t', none) ∧
      p.Unaffected more s' t t') ∧
    ((Engine.program p).run none patience s = none ∧
        (Engine.program p).run none patience s' = none ∨
      ∃ t t', (Engine.program p).run none patience s = some (t, none) ∧
        (Engine.program p).run none patience s' = some (t', none) ∧
        p.Unaffected more s' t t') := by
  have sees : p.SeesSame s s' := same.start started started'
  have within : p.Within s := by
    have start := (State.Fresh.control ⟨seeds, .inl started⟩).1
    exact ⟨by omega, by omega⟩
  constructor
  · intro n
    obtain ⟨t, t', ran, ran', after⟩ := sees.runFor within n
    exact ⟨t, t', (engine_run_budget n patience).mpr ran, (engine_run_budget n patience).mpr ran',
      after.unaffected started' (steps_of_runUntil ran')⟩
  · rcases sees.runWithin within patience with ⟨goesOn, goesOn'⟩ | ⟨t, t', ran, ran', after⟩
    · left
      simp only [Engine.run, Program.run, goesOn, goesOn', Option.map_none, and_self]
    · right
      exact ⟨t, t', (engine_run_unbounded patience).mpr ran,
        (engine_run_unbounded patience).mpr ran',
        after.unaffected started' (steps_of_runWithin ran')⟩

/-- A source that does not exist is read next to seeds that the program does not mention, which the
text of the fault shows. -/
theorem unmentioned_seeds_inert_of_unknown_source :
    let p : Program := ⟨[.assign "x" (.var "y"), .goto (.input "b")]⟩
    let seeds : Seeds := { inputs := [("a", [])], env := [("y", .int 5)] }
    let more : Seeds := { inputs := [("c", [.int 9]), ("a", [])],
                          env := [("y", .int 5), ("z", .int 7)] }
    ∃ s s' t t', p.SeededSame seeds more ∧ seeds.start = .ok s ∧ more.start = .ok s' ∧
      (Engine.program p).run none 2 s = some (t, none) ∧
      (Engine.program p).run none 2 s' = some (t', none) ∧ p.Unaffected more s' t t' ∧
      t.fault = some (.unknownSource "b" ["a"]) ∧
      t'.fault = some (.unknownSource "b" ["a", "c"]) := by
  intro p seeds more
  let s : State := { env := ⟨[("y", 5)], by simp⟩, inputs := ⟨[("a", { values := [] })], by simp⟩ }
  let s' : State := { env := ⟨[("y", 5), ("z", 7)], by simp⟩,
                      inputs := ⟨[("c", { values := [9] }), ("a", { values := [] })], by simp⟩ }
  let s₁ : State := { s with env := ⟨[("y", 5), ("x", 5)], by simp⟩, pc := 1, steps := 1 }
  let s₁' : State :=
    { s' with env := ⟨[("y", 5), ("z", 7), ("x", 5)], by simp⟩, pc := 1, steps := 1 }
  let t : State := (s₁.count s₁.inputs).fail (.unknownSource "b" ["a"])
  let t' : State := (s₁'.count s₁'.inputs).fail (.unknownSource "b" ["a", "c"])
  have same : p.SeededSame seeds more := ⟨rfl, rfl, rfl⟩
  have started : seeds.start = .ok s := rfl
  have started' : more.start = .ok s' := rfl
  -- Both runs bind the variable and then ask for the source that does not exist.
  have runs {u u₁ : State} {names : List String} (running : u.isRunning = true)
      (running₁ : u₁.isRunning = true) (atFirst : u.pc = 0) (atSecond : u₁.pc = 1)
      (bound : u.env.get? "y" = some 5)
      (moved : ((u.count u.inputs).apply (.bind "x" 5)).settle 2 = u₁)
      (missing : u₁.inputs.get? "b" = none) (sorted : Inputs.sortNames u₁.inputs.names = names) :
      (Engine.program p).run none 2 u =
        some ((u₁.count u₁.inputs).fail (.unknownSource "b" names), none) := by
    have assigns : Stmt.Performs 2 u.env u.memory u.inputs (.assign "x" (.var "y")) (.bind "x" 5)
        u.inputs := ⟨5, by simp only [Expr.denote, Env.lookup, bound], rfl⟩
    have asks : (Stmt.action 2 u₁.pc u₁.env u₁.memory (.goto (.input "b"))).run u₁.inputs =
        (.error (.unknownSource "b" names), u₁.inputs) := by
      have unknown : u₁.inputs.read "b" = (.error (.unknownSource "b" names), u₁.inputs) := by
        simp only [Inputs.read, missing, sorted]
      rw [Stmt.action, Reading.run_bind, Expr.eval_run, Expr.denote, unknown]
    have first : p.step u = .ok u₁ := by
      rw [← moved]
      exact step_of_transition (.executed running (by omega) (by rw [atFirst]; rfl) assigns)
    have second : p.step u₁ = .ok ((u₁.count u₁.inputs).fail (.unknownSource "b" names)) :=
      step_of_transition (.faulted running₁ (by omega) (by rw [atSecond]; rfl) asks)
    refine (engine_run_unbounded 2).mpr ?_
    rw [runWithin, if_pos running, first]
    change p.runWithin 1 u₁ = _
    rw [runWithin, if_pos running₁, second]
    rfl
  have ran : (Engine.program p).run none 2 s = some (t, none) :=
    runs rfl rfl rfl rfl rfl rfl rfl (by decide +kernel)
  have sorted : Inputs.sortNames ["c", "a"] = ["a", "c"] := by
    simp [Inputs.sortNames, List.mergeSort]
  have ran' : (Engine.program p).run none 2 s' = some (t', none) :=
    runs rfl rfl rfl rfl rfl rfl rfl sorted
  rcases (unmentioned_seeds_inert same started started' 2).2 with
    ⟨goesOn, -⟩ | ⟨u, u', made, made', unaffected⟩
  · cases ran.symm.trans goesOn
  · obtain rfl : t = u := congrArg Prod.fst (Option.some.inj (ran.symm.trans made))
    obtain rfl : t' = u' := congrArg Prod.fst (Option.some.inj (ran'.symm.trans made'))
    exact ⟨s, s', t, t', same, started, started', ran, ran', unaffected, rfl, rfl⟩

end Program

end FlatIL
