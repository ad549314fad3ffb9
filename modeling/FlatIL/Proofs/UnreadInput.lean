import FlatIL.Proofs.Budget
import FlatIL.Proofs.Unbounded

/-!
# Input that is not read does not matter

Two runs of a program are compared that start alike, except that their sources may hold other
values behind what the first run reads. The horizon of a source is the number of values that the
first run has read of it in the end. Up to the horizons the sources are alike, no cursor of the
first run ever passes them, and so each read of the one run is answered as in the other. The two
runs part only where a read finds its source exhausted, since that fault tells how many values
there are.
-/

namespace FlatIL

/-! ## Sources alike up to a horizon -/

namespace Inputs

/-- No cursor has passed the horizon of its source. -/
def Inside (horizon : String → Nat) (inputs : Inputs) : Prop :=
  ∀ name cursor, inputs.position? name = some cursor → cursor ≤ horizon name

/-- Sources with the same names in the same order, read equally far, whose values are the same up
to the horizon of each source. -/
structure Alike (horizon : String → Nat) (first second : Inputs) : Prop where
  cursors : second.cursors = first.cursors
  values (name : String) (stream other : InputStream) (registered : first.get? name = some stream)
    (registered' : second.get? name = some other) :
    other.values.take (horizon name) = stream.values.take (horizon name)

/-- Cursors that have moved on inside the horizon were inside it before. -/
theorem Inside.of_advances {horizon : String → Nat} {before after : Inputs}
    (inside : Inside horizon after) (advances : before.Advances after) : Inside horizon before := by
  intro name old start
  obtain ⟨new, finish, moved⟩ := advances name old start
  have bounded := inside name new finish
  omega

/-- The names of sources are those of their cursors. -/
theorem names_eq_map_cursors (inputs : Inputs) : inputs.names = inputs.cursors.map Prod.fst := by
  simp [names, Table.keys, cursors]

/-- The cursor of a source is found among all cursors. -/
theorem position?_eq_find? (inputs : Inputs) (name : String) :
    inputs.position? name = Table.find? name inputs.cursors :=
  (Table.get?_map id (fun _ _ same => same) InputStream.cursor inputs name).symm

/-- Binding a source binds its cursor. -/
theorem cursors_insert (inputs : Inputs) (name : String) (stream : InputStream) :
    cursors (inputs.insert name stream) = Table.put name stream.cursor inputs.cursors :=
  congrArg Table.entries
    (Table.map_insert id (fun _ _ same => same) InputStream.cursor inputs name stream)

namespace Alike

variable {horizon : String → Nat} {first second : Inputs}

/-- Sources that are alike are read equally far. -/
theorem position (alike : Alike horizon first second) (name : String) :
    second.position? name = first.position? name := by
  rw [position?_eq_find?, position?_eq_find?, alike.cursors]

/-- A source that is registered has a counterpart that is read equally far. -/
theorem counterpart (alike : Alike horizon first second) {name : String} {stream : InputStream}
    (registered : first.get? name = some stream) :
    ∃ other, second.get? name = some other ∧ other.cursor = stream.cursor ∧
      other.values.take (horizon name) = stream.values.take (horizon name) := by
  have cursor := alike.position name
  simp only [position?, registered, Option.map_some] at cursor
  obtain ⟨other, registered', same⟩ := Option.map_eq_some_iff.mp cursor
  exact ⟨other, registered', same, alike.values name stream other registered registered'⟩

/-- Moving the cursor of a source in both keeps sources alike. -/
theorem moved (alike : Alike horizon first second) {name : String} {stream other : InputStream}
    (registered : first.get? name = some stream) (registered' : second.get? name = some other)
    (cursor : Nat) :
    Alike horizon (first.insert name { stream with cursor })
      (second.insert name { other with cursor }) := by
  refine ⟨by rw [cursors_insert, cursors_insert, alike.cursors], ?_⟩
  intro source stream' other' found found'
  rw [Table.get?_insert] at found found'
  by_cases here : source = name
  · rw [if_pos here, Option.some.injEq] at found found'
    rw [← found, ← found', here]
    exact alike.values name stream other registered registered'
  · rw [if_neg here] at found found'
    exact alike.values source stream' other' found found'

/-- A read that leaves the cursor inside the horizon, and does not find the source exhausted, is
answered by both and leaves both alike. -/
theorem read (alike : Alike horizon first second) (source : String)
    (inside : Inside horizon (first.read source).2)
    (fed : ∀ name count, (first.read source).1 ≠ .error (.inputExhausted name count)) :
    (second.read source).1 = (first.read source).1 ∧
      Alike horizon (first.read source).2 (second.read source).2 := by
  obtain ⟨missing, unknown⟩ | ⟨stream, registered, ⟨-, exhausted⟩ | ⟨value, held, found⟩⟩ :=
    first.read_cases source
  · have missing' : second.get? source = none := by
      have none := alike.position source
      simpa [position?, missing] using none
    have names : second.names = first.names := by
      rw [names_eq_map_cursors, names_eq_map_cursors, alike.cursors]
    rw [unknown, Inputs.read, missing', names]
    exact ⟨rfl, alike⟩
  · rw [exhausted] at fed
    exact absurd rfl (fed source stream.values.length)
  · obtain ⟨other, registered', cursor, values⟩ := alike.counterpart registered
    have before : stream.cursor < horizon source := by
      have bounded := inside source (stream.cursor + 1)
      rw [found, position?_insert] at bounded
      have moved := bounded (if_pos rfl)
      omega
    have held' : other.values[other.cursor]? = some value := by
      rw [cursor, ← List.getElem?_take_of_lt before, values, List.getElem?_take_of_lt before, held]
    have found' : second.read source =
        (.ok value, second.insert source { other with cursor := stream.cursor + 1 }) := by
      rw [cursor] at held'
      simp only [Inputs.read, registered', cursor, held']
    rw [found, found']
    exact ⟨rfl, alike.moved registered registered' (stream.cursor + 1)⟩

end Alike

end Inputs

/-! ## Computations that read inside the horizon -/

namespace Reading

open Inputs (Alike Inside)

variable {α β : Type} {horizon : String → Nat}

/-- A computation that moves no cursor back and that, where it stays inside the horizon and finds
no source exhausted, has the same result on sources that are alike. -/
structure Steady (horizon : String → Nat) (reading : Reading α) : Prop where
  advances (inputs : Inputs) : inputs.Advances (reading.run inputs).2
  alike {first second : Inputs} (before : Alike horizon first second)
    (inside : Inside horizon (reading.run first).2)
    (fed : ∀ name count, (reading.run first).1 ≠ .error (.inputExhausted name count)) :
    (reading.run second).1 = (reading.run first).1 ∧
      Alike horizon (reading.run first).2 (reading.run second).2

/-- A value reads nothing. -/
theorem Steady.pure (value : α) : Steady horizon (Pure.pure value : Reading α) :=
  ⟨fun inputs => .refl inputs, fun before _ _ => ⟨rfl, before⟩⟩

/-- A result that may be a fault reads nothing. -/
theorem Steady.ofExcept (result : Except Fault α) : Steady horizon (Reading.ofExcept result) :=
  ⟨fun inputs => .refl inputs, fun before _ _ => ⟨rfl, before⟩⟩

/-- A read is steady. -/
theorem Steady.next (source : String) : Steady horizon (Reading.next source) :=
  ⟨fun inputs => .read inputs source, fun before inside fed => before.read source inside fed⟩

/-- One steady computation after another is steady. -/
theorem Steady.bind {reading : Reading α} {after : α → Reading β} (steady : Steady horizon reading)
    (behind : ∀ value, Steady horizon (after value)) : Steady horizon (reading >>= after) := by
  constructor
  · exact Reading.run_bind_keeps _ .trans steady.advances fun value => (behind value).advances
  · intro first second before inside fed
    rw [Reading.run_bind] at inside fed ⊢
    rw [Reading.run_bind]
    have here := steady.alike before
    rcases outcome : reading.run first with ⟨fault | value, between⟩ <;>
      rcases outcome' : reading.run second with ⟨fault' | value', between'⟩ <;>
      simp only [outcome, outcome'] at inside fed here ⊢
    · obtain ⟨same, alike⟩ := here inside (by simpa using fed)
      exact ⟨congrArg Except.error (Except.error.inj same), alike⟩
    · cases (here inside (by simpa using fed)).1
    · -- The rest of the computation cannot bring a cursor back inside the horizon.
      have insideBetween := inside.of_advances ((behind value).advances between)
      cases (here insideBetween nofun).1
    · have insideBetween := inside.of_advances ((behind value).advances between)
      obtain ⟨same, alike⟩ := here insideBetween nofun
      obtain rfl := Except.ok.inj same
      exact (behind value').alike alike inside fed

end Reading

/-- An evaluation is steady. -/
theorem Expr.steady_eval (horizon : String → Nat) (env : Env) (memory : Memory) (e : Expr) :
    Reading.Steady horizon (e.eval env memory) := by
  rw [eval, traverse_eq_fold]
  induction e with
  | lit value => exact .pure value
  | var name => exact .ofExcept (env.lookup name)
  | input source => exact .next source
  | load address ih => exact ih.bind fun a => .ofExcept (memory.lookup a)
  | unary op operand ih => exact ih.bind fun v => .pure (op.apply v)
  | binary op left right ihLeft ihRight =>
    exact ihLeft.bind fun l => ihRight.bind fun r => .ofExcept (op.apply l r)

/-- A statement is steady. -/
theorem Stmt.steady_action (horizon : String → Nat) (size : Nat) (pc : Int) (env : Env)
    (memory : Memory) (stmt : Stmt) :
    Reading.Steady horizon (stmt.action size pc env memory) := by
  have evaluated := Expr.steady_eval horizon env memory
  have jump (target : Expr) : Reading.Steady horizon
      (target.eval env memory >>= fun t => Reading.ofExcept (Change.jumpTo size t)) :=
    (evaluated target).bind fun t => .ofExcept (Change.jumpTo size t)
  cases stmt with
  | assign target value => exact (evaluated value).bind fun v => .pure (Change.bind target v)
  | store address value =>
    exact (evaluated address).bind fun a => (evaluated value).bind fun v =>
      .pure (Change.write a v)
  | goto target => exact jump target
  | assert condition =>
    exact (evaluated condition).bind fun v => .ofExcept (Change.assertion pc v)
  | branch condition thenTarget elseTarget => exact (evaluated condition).bind fun v => jump _

/-! ## Runs side by side -/

namespace State

/-- States that are the same but for their sources, which are alike up to a horizon. -/
structure Alike (horizon : String → Nat) (s t : State) : Prop where
  rest : t = { s with inputs := t.inputs }
  inputs : Inputs.Alike horizon s.inputs t.inputs

/-- The run has not ended by reading an exhausted source. -/
def Fed (s : State) : Prop :=
  ∀ source count, s.fault ≠ some (.inputExhausted source count)

end State

namespace Program

variable {p : Program} {horizon : String → Nat} {s t u : State}

/-- A step moves no cursor back. -/
theorem advances_of_step (stepped : p.step s = .ok t) : s.inputs.Advances t.inputs := by
  have kept (stmt : Stmt) := stmt.action_keeps Inputs.Advances.refl Inputs.Advances.trans
    Inputs.Advances.read p.size s.pc s.env s.memory s.inputs
  cases transition_of_step stepped with
  | halted ended => exact .refl s.inputs
  | finished running atEnd => exact .refl s.inputs
  | @faulted stmt fault inputs running nonneg next acted =>
    have moved := kept stmt
    rw [acted] at moved
    exact moved
  | @executed stmt change inputs running nonneg next performed =>
    have moved := kept stmt
    rw [(Stmt.action_eq_ok s.pc).mpr performed] at moved
    rw [State.settle_eq, State.inputs_apply]
    exact moved

/-- Steps move no cursor back. -/
theorem advances_of_steps (steps : p.Steps s t) : s.inputs.Advances t.inputs := by
  induction steps with
  | refl => exact .refl s.inputs
  | tail _ stepped before => exact before.trans (advances_of_step stepped)

/-- A step that stays inside the horizon, and does not end by reading an exhausted source, is made
in the same way from a state that is alike. -/
theorem step_alike (alike : s.Alike horizon t) (stepped : p.step s = .ok u)
    (inside : u.inputs.Inside horizon) (fed : u.isRunning = true ∨ u.Fed) :
    ∃ v, p.step t = .ok v ∧ u.Alike horizon v := by
  obtain ⟨rest, before⟩ := alike
  obtain ⟨inputs', rfl⟩ : ∃ inputs', t = { s with inputs := inputs' } := ⟨t.inputs, rest⟩
  cases transition_of_step stepped with
  | halted ended => exact ⟨_, step_of_ended ended, rfl, before⟩
  | finished running atEnd =>
    exact ⟨_, step_of_transition (.finished running atEnd), rfl, before⟩
  | @faulted stmt fault inputs running nonneg next acted =>
    have steady := stmt.steady_action horizon p.size s.pc s.env s.memory
    have unfed : ∀ name count, (Except.error fault : Except Fault Change) ≠
        .error (.inputExhausted name count) := by
      rintro name count ⟨⟩
      rcases fed with goesOn | fed
      · cases goesOn
      · exact fed name count rfl
    have both := steady.alike before
    rcases acted' : (stmt.action p.size s.pc s.env s.memory).run inputs' with ⟨result, after'⟩
    rw [acted, acted'] at both
    obtain ⟨rfl, after⟩ := both inside unfed
    exact ⟨_, step_of_transition (.faulted running nonneg next acted'), rfl, after⟩
  | @executed stmt change inputs running nonneg next performed =>
    have steady := stmt.steady_action horizon p.size s.pc s.env s.memory
    have both := steady.alike before
    rcases acted' : (stmt.action p.size s.pc s.env s.memory).run inputs' with ⟨result, after'⟩
    rw [(Stmt.action_eq_ok s.pc).mpr performed, acted'] at both
    have left : (((s.count inputs).apply change).settle p.size).inputs = inputs := by
      rw [State.settle_eq, State.inputs_apply]
      rfl
    rw [left] at inside
    obtain ⟨rfl, after⟩ := both inside nofun
    have performed' := (Stmt.action_eq_ok s.pc).mp acted'
    refine ⟨_, step_of_transition (.executed running nonneg next performed'), ?_, ?_⟩
    · rw [State.settle_eq, State.settle_eq]
      cases change <;> rfl
    · rw [State.settle_eq, State.settle_eq, State.inputs_apply, State.inputs_apply]
      exact after

/-- A run that stays inside the horizon, and does not end by reading an exhausted source, is made
in the same way from a state that is alike. -/
theorem Within.runFor_alike (within : p.Within s) (alike : s.Alike horizon t) {n : Nat}
    (ran : p.runFor n s = .ok u) (inside : u.inputs.Inside horizon) (fed : u.Fed) :
    ∃ v, p.runFor n t = .ok v ∧ u.Alike horizon v := by
  induction n generalizing s t with
  | zero =>
    rw [runFor_zero] at ran
    obtain rfl := Except.ok.inj ran
    exact ⟨t, runFor_zero p t, alike⟩
  | succ n ih =>
    have sameStatus : t.isRunning = s.isRunning := by rw [alike.rest]; rfl
    cases running : s.isRunning with
    | false =>
      rw [runFor_of_ended running] at ran
      obtain rfl := Except.ok.inj ran
      exact ⟨t, runFor_of_ended (sameStatus.trans running) (n + 1), alike⟩
    | true =>
      obtain ⟨between, stepped⟩ := step_isOk within.nonneg within.atMost
      rw [runFor_succ running stepped] at ran
      have insideBetween : between.inputs.Inside horizon :=
        inside.of_advances (advances_of_steps (steps_of_runUntil ran))
      -- A step that ends the run leads to its last state, which is fed.
      have fedBetween : between.isRunning = true ∨ between.Fed := by
        cases goesOn : between.isRunning with
        | true => exact .inl rfl
        | false =>
          rw [runFor_of_ended goesOn] at ran
          obtain rfl := Except.ok.inj ran
          exact .inr fed
      obtain ⟨between', stepped', alikeBetween⟩ := step_alike alike stepped insideBetween fedBetween
      obtain ⟨v, ran', after⟩ := ih (within.step stepped) alikeBetween ran
      exact ⟨v, (runFor_succ (sameStatus.trans running) stepped' n).trans ran', after⟩

end Program

/-! ## Fresh states -/

namespace Inputs

variable {streams streams' : List (String × List Json)} {inputs inputs' : Inputs}

/-- Nothing is read of sources that are registered, in the order of their names. -/
theorem cursors_of_registerAll (registered : registerAll .empty streams = .ok inputs) :
    inputs.cursors = (streams.map Prod.fst).map (·, 0) := by
  obtain ⟨admitted, rfl, entries⟩ := entries_of_registerAll registered
  rw [cursors, entries]
  simp [Table.empty]

/-- A source that is registered holds the values that are given for it. -/
theorem mem_of_registerAll (registered : registerAll .empty streams = .ok inputs) {name : String}
    {stream : InputStream} (found : inputs.get? name = some stream) :
    (name, stream.values.map (.int ·.toNat)) ∈ streams := by
  obtain ⟨admitted, rfl, entries⟩ := entries_of_registerAll registered
  have among := Table.mem_entries_of_get? found
  rw [entries, Table.empty, List.nil_append] at among
  obtain ⟨⟨source, words⟩, given, same⟩ := List.mem_map.mp among
  obtain ⟨rfl, rfl⟩ := Prod.mk.inj same
  exact List.mem_map_of_mem given

/-- Sources are alike that are registered under the same names with values that are the same up to
the horizon of each. -/
theorem Alike.of_registerAll {horizon : String → Nat}
    (registered : registerAll .empty streams = .ok inputs)
    (registered' : registerAll .empty streams' = .ok inputs')
    (sameNames : streams'.map Prod.fst = streams.map Prod.fst)
    (agree : ∀ name values values', (name, values) ∈ streams → (name, values') ∈ streams' →
      values'.take (horizon name) = values.take (horizon name)) :
    Alike horizon inputs inputs' := by
  constructor
  · rw [cursors_of_registerAll registered, cursors_of_registerAll registered', sameNames]
  · intro name stream other found found'
    have same := agree name _ _ (mem_of_registerAll registered found)
      (mem_of_registerAll registered' found')
    rw [← List.map_take, ← List.map_take] at same
    have injective (v w : Word) (same : Json.int v.toNat = Json.int w.toNat) : v = w :=
      UInt32.toNat_inj.mp (Int.ofNat_inj.mp (Json.int.inj same))
    exact (List.map_inj_right injective).mp same

end Inputs

/-- Fresh states are alike whose sources are, with the same memory and the same variables. -/
theorem Seeds.start_alike {horizon : String → Nat} {seeds : Seeds}
    {streams : List (String × List Json)} {s s' : State} (started : seeds.start = .ok s)
    (started' : { seeds with inputs := streams }.start = .ok s')
    (sameNames : streams.map Prod.fst = seeds.inputs.map Prod.fst)
    (agree : ∀ name values values', (name, values) ∈ seeds.inputs → (name, values') ∈ streams →
      values'.take (horizon name) = values.take (horizon name)) :
    s.Alike horizon s' := by
  obtain ⟨inputs, registered, on⟩ := start_eq_ok_iff.mp started
  obtain ⟨inputs', registered', on'⟩ := start_eq_ok_iff.mp started'
  obtain ⟨memory, env, cells, bindings, rfl⟩ := startOn_eq_ok_iff.mp on
  obtain ⟨memory', env', cells', bindings', rfl⟩ := startOn_eq_ok_iff.mp on'
  obtain rfl := Except.ok.inj (cells.symm.trans cells')
  obtain rfl := Except.ok.inj (bindings.symm.trans bindings')
  exact ⟨rfl, .of_registerAll registered registered' sameNames agree⟩

/-! ## Whole runs -/

/-- States that show the same: all but the values of their sources. -/
structure State.ShowsAs (s t : State) : Prop where
  pc : t.pc = s.pc
  status : t.status = s.status
  fault : t.fault = s.fault
  faultMessage : t.faultMessage = s.faultMessage
  steps : t.steps = s.steps
  env : t.env = s.env
  memory : t.memory = s.memory
  /-- How far each source is read, in the order of the sources. -/
  cursors : t.inputs.cursors = s.inputs.cursors

/-- States that are alike show the same. -/
theorem State.Alike.showsAs {horizon : String → Nat} {s t : State} (alike : s.Alike horizon t) :
    s.ShowsAs t := by
  obtain ⟨rest, inputs⟩ := alike
  refine ⟨?_, ?_, ?_, ?_, ?_, ?_, ?_, inputs.cursors⟩ <;> rw [rest]

namespace Program

/-- A run with a budget from fresh seeds is made. If it does not end by reading an exhausted
source, then a run with sources of the same names, whose values are the same as far as the first
run has read them, is made as well and ends in a state that shows the same. -/
theorem run_ignores_unread_input (p : Program) {seeds : Seeds}
    {streams : List (String × List Json)} {s s' : State} (started : seeds.start = .ok s)
    (started' : { seeds with inputs := streams }.start = .ok s')
    (sameNames : streams.map Prod.fst = seeds.inputs.map Prod.fst) (n patience : Nat) :
    ∃ t, (Engine.program p).run (some n) patience s = some (t, none) ∧
      (t.Fed →
        (∀ name values values' cursor, (name, values) ∈ seeds.inputs →
          (name, values') ∈ streams → t.inputs.position? name = some cursor →
          values'.take cursor = values.take cursor) →
        ∃ t', (Engine.program p).run (some n) patience s' = some (t', none) ∧ t.ShowsAs t') := by
  have within : p.Within s := by
    have start := (State.Fresh.control ⟨seeds, .inl started⟩).1
    exact ⟨by omega, by omega⟩
  obtain ⟨t, spends⟩ := within.spends n
  refine ⟨t, (engine_run_budget n patience).mpr spends.ran, ?_⟩
  intro fed agree
  -- The horizon of a source is its cursor at the end; there is none for a name that is no source.
  have alike : s.Alike (fun name => (t.inputs.position? name).getD 0) s' := by
    refine Seeds.start_alike started started' sameNames ?_
    intro name values values' given given'
    cases finish : t.inputs.position? name with
    | none => rfl
    | some cursor => exact agree name values values' cursor given given' finish
  have inside : t.inputs.Inside (fun name => (t.inputs.position? name).getD 0) := by
    intro name cursor finish
    simp only [finish, Option.getD_some]
    exact Nat.le_refl cursor
  obtain ⟨t', ran, after⟩ := within.runFor_alike alike spends.ran inside fed
  exact ⟨t', (engine_run_budget n patience).mpr ran, after.showsAs⟩

/-- A value is read before an unwritten cell is, and the value behind it is there or not. -/
theorem run_ignores_unread_input_of_fault :
    let p : Program := ⟨[.assign "x" (.input "a"), .assert (.load (.var "x"))]⟩
    let seeds : Seeds := { inputs := [("a", [.int 7, .int 8])] }
    let streams : List (String × List Json) := [("a", [.int 7])]
    ∃ s s' t t', seeds.start = .ok s ∧ { seeds with inputs := streams }.start = .ok s' ∧
      streams.map Prod.fst = seeds.inputs.map Prod.fst ∧
      (Engine.program p).run (some 5) 0 s = some (t, none) ∧ t.Fed ∧
      t.inputs.position? "a" = some 1 ∧ t.fault = some (.unwrittenAddress 7) ∧
      (Engine.program p).run (some 5) 0 s' = some (t', none) ∧ t.ShowsAs t' := by
  intro p seeds streams
  let inputs (cursor : Nat) : Inputs := ⟨[("a", { values := [7, 8], cursor })], by simp⟩
  let s : State := { inputs := inputs 0 }
  let s₁ : State := { pc := 1, env := Table.empty.insert "x" 7, inputs := inputs 1, steps := 1 }
  let t : State := State.fail { s₁ with steps := 2 } (.unwrittenAddress 7)
  have started : seeds.start = .ok s := rfl
  have reads : Stmt.Performs 2 .empty .empty (inputs 0) (.assign "x" (.input "a")) (.bind "x" 7)
      (inputs 1) := ⟨7, rfl, rfl⟩
  have first : p.step s = .ok s₁ :=
    step_of_transition (Transition.executed (p := p) (s := s) rfl (by decide) rfl reads)
  have acted : (Stmt.action 2 1 s₁.env .empty (.assert (.load (.var "x")))).run (inputs 1) =
      (.error (.unwrittenAddress 7), inputs 1) := by
    rw [Stmt.action, Reading.run_bind, Expr.eval_run]
    rfl
  have second : p.step s₁ = .ok t :=
    step_of_transition (Transition.faulted (p := p) (s := s₁) rfl (by decide) rfl acted)
  have ran : p.runFor 5 s = .ok t := by
    rw [runFor_succ rfl first, runFor_succ rfl second, runFor_of_ended rfl]
  obtain ⟨u, made, ignores⟩ :=
    @run_ignores_unread_input p seeds streams _ _ started rfl rfl 5 0
  obtain rfl := Except.ok.inj (((engine_run_budget 5 0).mp made).symm.trans ran)
  have fed : t.Fed := fun source count => by simp [t, State.fail]
  obtain ⟨t', made', shows⟩ := ignores fed (by
    intro name values values' cursor given given' finish
    obtain ⟨rfl, rfl⟩ := Prod.mk.inj (List.mem_singleton.mp given)
    obtain ⟨-, rfl⟩ := Prod.mk.inj (List.mem_singleton.mp given')
    obtain rfl : 1 = cursor := Option.some.inj finish
    rfl)
  exact ⟨s, _, t, t', started, rfl, rfl, made, fed, rfl, rfl, made', shows⟩

end Program

end FlatIL
