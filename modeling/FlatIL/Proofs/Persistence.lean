import FlatIL.Proofs.Fault

/-!
# What runs add

A step binds at most one key, and no step takes one away, so the keys that are bound before a run
are the first ones of those bound after it. What a run adds to the variables has a name that the
program assigns to, and a fault that it adds is one that a statement of the program raises.
-/

namespace FlatIL

/-- Binding a key keeps the keys that are bound in front of it. -/
theorem Table.keys_prefix_insert {κ α : Type} [DecidableEq κ] (table : Table κ α) (key : κ)
    (value : α) : table.keys <+: (table.insert key value).keys := by
  have bound := map_fst_put key value table.entries
  unfold keys insert
  rw [bound]
  split
  · exact List.prefix_rfl
  · exact List.prefix_append _ _

/-- The keys after a key is bound are those before and the key. -/
theorem Table.mem_keys_insert {κ α : Type} [DecidableEq κ] {table : Table κ α} {key other : κ}
    {value : α} (bound : other ∈ (table.insert key value).keys) :
    other = key ∨ other ∈ table.keys := by
  rw [mem_keys_iff, get?_insert] at bound
  rw [mem_keys_iff]
  split at bound
  · next same => exact .inl same
  · exact .inr bound

/-- The names that a program assigns to. -/
def Program.targets (p : Program) : List String :=
  p.statements.filterMap fun
    | .assign target _ => some target
    | .store .. | .goto _ | .assert _ | .branch .. => none

/-- A well-formed program assigns to names of the language. -/
theorem Program.isName_of_mem_targets {p : Program} (wellFormed : p.WellFormed) {name : String}
    (assigned : name ∈ p.targets) : Name.isName name = true := by
  obtain ⟨stmt, inside, target⟩ := List.mem_filterMap.mp assigned
  have parts := wellFormed stmt inside
  cases stmt with
  | assign target value =>
    obtain rfl := Option.some.inj target
    exact parts.1
  | store _ _ | goto _ | assert _ | branch _ _ _ => cases target

/-- What a run of a program adds to a state. -/
structure Program.Grows (p : Program) (s t : State) : Prop where
  /-- Variables stay bound, in their order. -/
  env : s.env.keys <+: t.env.keys
  /-- Memory cells stay written, in their order. -/
  memory : s.memory.keys <+: t.memory.keys
  /-- New variables are targets of assignments. -/
  targets : ∀ name ∈ t.env.keys, name ∈ s.env.keys ∨ name ∈ p.targets
  /-- A new fault is raised by a statement, and its text is kept beside it. -/
  fault : (t.fault = s.fault ∧ t.faultMessage = s.faultMessage) ∨
    ∃ fault, t.fault = some fault ∧ t.faultMessage = some fault.message ∧
    ∃ stmt ∈ p.statements, ∃ pc, stmt.Raises p.size pc fault

namespace Program

variable {p : Program} {s t u : State}

/-- Nothing is added to a state whose variables, memory and fault stay. -/
theorem Grows.of_eq (env : t.env = s.env) (memory : t.memory = s.memory)
    (fault : t.fault = s.fault) (message : t.faultMessage = s.faultMessage) : p.Grows s t := by
  refine ⟨env ▸ List.prefix_rfl, memory ▸ List.prefix_rfl, ?_, .inl ⟨fault, message⟩⟩
  intro name bound
  rw [env] at bound
  exact .inl bound

/-- What grows twice has grown. -/
theorem Grows.trans (first : p.Grows s t) (second : p.Grows t u) : p.Grows s u := by
  refine ⟨first.env.trans second.env, first.memory.trans second.memory, ?_, ?_⟩
  · intro name bound
    obtain before | assigned := second.targets name bound
    · exact first.targets name before
    · exact .inr assigned
  · obtain ⟨same, sameMessage⟩ | raised := second.fault
    · rw [same, sameMessage]
      exact first.fault
    · exact .inr raised

/-- A statement adds what it binds or writes. -/
theorem grows_of_performs {size : Nat} {stmt : Stmt} {change : Change} {inputs : Inputs}
    (inside : stmt ∈ p.statements)
    (performed : stmt.Performs size s.env s.memory s.inputs change inputs) :
    p.Grows s (((s.count inputs).apply change).settle size) := by
  rw [State.settle_eq]
  cases stmt with
  | assign target value =>
    obtain ⟨v, -, rfl⟩ := performed
    refine ⟨s.env.keys_prefix_insert target v, List.prefix_rfl, ?_, .inl ⟨rfl, rfl⟩⟩
    intro name bound
    obtain rfl | before := Table.mem_keys_insert bound
    · exact .inr (List.mem_filterMap.mpr ⟨_, inside, rfl⟩)
    · exact .inl before
  | store address value =>
    obtain ⟨a, between, v, -, -, rfl⟩ := performed
    exact ⟨List.prefix_rfl, s.memory.keys_prefix_insert a v, fun _ => .inl, .inl ⟨rfl, rfl⟩⟩
  | goto target =>
    obtain ⟨t, -, -, rfl⟩ := performed
    exact .of_eq rfl rfl rfl rfl
  | assert condition =>
    obtain ⟨v, -, -, rfl⟩ := performed
    exact .of_eq rfl rfl rfl rfl
  | branch condition thenTarget elseTarget =>
    obtain ⟨v, between, t, -, -, -, rfl⟩ := performed
    exact .of_eq rfl rfl rfl rfl

/-- A step adds what its statement does. -/
theorem grows_of_step (stepped : p.step s = .ok t) : p.Grows s t := by
  cases transition_of_step stepped with
  | halted ended => exact .of_eq rfl rfl rfl rfl
  | finished running atEnd => exact .of_eq rfl rfl rfl rfl
  | @faulted stmt fault inputs running nonneg next acted =>
    have inside : stmt ∈ p.statements := List.mem_of_getElem? next
    exact ⟨List.prefix_rfl, List.prefix_rfl, fun _ => .inl,
      .inr ⟨fault, rfl, rfl, stmt, inside, s.pc, Stmt.raises_of_action acted⟩⟩
  | executed running nonneg next performed =>
    exact grows_of_performs (List.mem_of_getElem? next) performed

/-- A run adds what its steps do. -/
theorem grows_of_steps (steps : p.Steps s t) : p.Grows s t := by
  induction steps with
  | refl => exact .of_eq rfl rfl rfl rfl
  | tail _ stepped ih => exact ih.trans (grows_of_step stepped)

end Program

end FlatIL
