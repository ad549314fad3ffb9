import FlatIL.Proofs.Budget
import FlatIL.Proofs.Unbounded

/-!
# Values stay words

Seeds are admitted exactly if they are words under names that are not empty. The machine over
the integers, started from admitted seeds as they are given, computes words and nothing else:
every value, every address and every jump that is taken stays in range, although the machine
itself has no bound to keep them there.
-/

namespace FlatIL

/-- The integer that a value from outside is, and zero if it is none. -/
def Json.integer : Json → Int
  | int n => n
  | _ => 0

namespace Seeds

/-- The fresh state over sources that exist already, or else over those of the seeds. -/
def startFrom (seeds : Seeds) : Option Inputs → Except SeedError State
  | some inputs => seeds.startOn inputs
  | none => seeds.start

/-- Some value or address of the seeds is not a word, or some name is empty. Sources of the seeds
count only where there are no others. -/
def Refused (seeds : Seeds) (given : Option Inputs) : Prop :=
  (given = none ∧ ∃ stream ∈ seeds.inputs, stream.1 = "" ∨ ∃ value ∈ stream.2, ¬ value.IsWord) ∨
    (∃ cell ∈ seeds.memory, ¬ cell.1.IsWord ∨ ¬ cell.2.IsWord) ∨
    ∃ binding ∈ seeds.env, binding.1 = "" ∨ ¬ binding.2.IsWord

/-- The sources of the seeds with their values as they are given. -/
def integerSources (seeds : Seeds) : Unbounded.Sources :=
  seeds.inputs.foldl
    (fun sources (name, values) =>
      sources.insert name { values := values.map Json.integer, cursor := 0 })
    .empty

/-- The fresh state with all values as they are given. -/
def integers (seeds : Seeds) (given : Option Inputs) : Unbounded.State where
  env := seeds.env.foldl (fun env (name, value) => env.insert name value.integer) .empty
  memory := seeds.memory.foldl
    (fun memory (address, value) => memory.insert address.integer value.integer) .empty
  inputs := (given.map Inputs.integers).getD seeds.integerSources

end Seeds

namespace Unbounded

/-- An integer that is a word. -/
def InRange (n : Int) : Prop :=
  0 ≤ n ∧ n < 2 ^ 32

/-- All values and all addresses of a state are words. -/
structure State.InRange (s : State) : Prop where
  env : ∀ name value, (name, value) ∈ s.env.entries → Unbounded.InRange value
  memory : ∀ address value, (address, value) ∈ s.memory.entries →
    Unbounded.InRange address ∧ Unbounded.InRange value
  inputs : ∀ name stream, (name, stream) ∈ s.inputs.entries →
    ∀ value ∈ stream.values, Unbounded.InRange value

/-- A jump that is made from a state leads to a word that is a position of the program. -/
def State.JumpsInside (p : Program) (s : State) : Prop :=
  ∀ stmt t, s.status = .running → p.statements[s.pc.toNat]? = some stmt → stmt.jumps = true →
    step p s = .ok t → t.status ≠ .failed → Unbounded.InRange t.pc ∧ t.pc < p.size

end Unbounded

/-! ## Admission -/

namespace Seeds

/-- Seeds on given sources are admitted exactly if memory and variables are. -/
theorem startOn_isOk_iff {seeds : Seeds} {inputs : Inputs} :
    (∃ s, seeds.startOn inputs = .ok s) ↔
      (∀ cell ∈ seeds.memory, cell.1.IsWord ∧ cell.2.IsWord) ∧
        ∀ binding ∈ seeds.env, binding.1 ≠ "" ∧ binding.2.IsWord := by
  rw [← admitMemory_isOk_iff .empty, ← admitEnv_isOk_iff .empty]
  simp only [startOn_eq_ok_iff]
  constructor
  · rintro ⟨s, memory, env, cells, bindings, -⟩
    exact ⟨⟨memory, cells⟩, env, bindings⟩
  · rintro ⟨⟨memory, cells⟩, env, bindings⟩
    exact ⟨_, memory, env, cells, bindings, rfl⟩

/-- Seeds whose sources have names that differ are refused exactly if something in them is no
word or some name is empty. -/
theorem startFrom_error_iff {seeds : Seeds} (mapping : (seeds.inputs.map Prod.fst).Nodup)
    (given : Option Inputs) :
    (∃ error, seeds.startFrom given = .error error) ↔ seeds.Refused given := by
  have admitted : (∃ s, seeds.startFrom given = .ok s) ↔
      (given = none → ∀ stream ∈ seeds.inputs,
        stream.1 ≠ "" ∧ ∀ value ∈ stream.2, value.IsWord) ∧
      (∀ cell ∈ seeds.memory, cell.1.IsWord ∧ cell.2.IsWord) ∧
        ∀ binding ∈ seeds.env, binding.1 ≠ "" ∧ binding.2.IsWord := by
    cases given with
    | some inputs =>
      rw [startFrom, startOn_isOk_iff]
      simp
    | none =>
      have unused : ∀ stream ∈ seeds.inputs, (Table.empty : Inputs).contains stream.1 = false :=
        fun _ _ => rfl
      rw [startFrom, ← Inputs.registerAll_isOk_iff mapping unused]
      simp only [start_eq_ok_iff, true_implies]
      constructor
      · rintro ⟨s, inputs, sources, started⟩
        exact ⟨⟨inputs, sources⟩, startOn_isOk_iff.mp ⟨s, started⟩⟩
      · rintro ⟨⟨inputs, sources⟩, rest⟩
        obtain ⟨s, started⟩ := startOn_isOk_iff.mpr rest
        exact ⟨s, inputs, sources, started⟩
  rw [exists_error_iff, admitted, Refused]
  simp only [Classical.not_and_iff_not_or_not, Classical.not_forall, exists_prop, ne_eq,
    Classical.not_not]

/-! ## Seeds as integers -/

/-- Memory cells are admitted as they are given. -/
theorem admitMemory_integers {memory after : Memory} {cells : List (Json × Json)}
    (admitted : admitMemory memory cells = .ok after) :
    after.integers = cells.foldl
      (fun memory (address, value) => memory.insert address.integer value.integer)
      memory.integers := by
  induction cells generalizing memory with
  | nil =>
    obtain rfl := Except.ok.inj admitted
    rfl
  | cons cell cells ih =>
    obtain ⟨address, value⟩ := cell
    obtain ⟨a, v, rfl, rfl, rest⟩ := admitMemory_cons_eq_ok.mp admitted
    rw [List.foldl_cons, ih rest, Memory.integers_insert]
    rfl

/-- Variables are admitted as they are given. -/
theorem admitEnv_integers {env after : Env} {bindings : List (String × Json)}
    (admitted : admitEnv env bindings = .ok after) :
    after.integers = bindings.foldl (fun env (name, value) => env.insert name value.integer)
      env.integers := by
  induction bindings generalizing env with
  | nil =>
    obtain rfl := Except.ok.inj admitted
    rfl
  | cons binding bindings ih =>
    obtain ⟨name, value⟩ := binding
    obtain ⟨-, v, rfl, rest⟩ := admitEnv_cons_eq_ok.mp admitted
    rw [List.foldl_cons, ih rest, Env.integers_insert]
    rfl

/-- Sources are admitted as they are given. -/
theorem registerAll_integers {inputs after : Inputs} {streams : List (String × List Json)}
    (registered : inputs.registerAll streams = .ok after) :
    after.integers = streams.foldl
      (fun sources (name, values) =>
        sources.insert name { values := values.map Json.integer, cursor := 0 })
      inputs.integers := by
  induction streams generalizing inputs with
  | nil =>
    obtain rfl := Except.ok.inj registered
    rfl
  | cons stream streams ih =>
    obtain ⟨name, values⟩ := stream
    obtain ⟨between, first, rest⟩ := bind_eq_ok.mp registered
    obtain ⟨-, -, words, rfl, rfl⟩ := Inputs.register_eq_ok.mp first
    rw [List.foldl_cons, ih rest, Inputs.integers_insert]
    dsimp only
    rw [List.map_map]
    rfl

/-- A fresh state holds the seeds as they are given. -/
theorem startFrom_integers {seeds : Seeds} {given : Option Inputs} {s : State}
    (started : seeds.startFrom given = .ok s) : s.integers = seeds.integers given := by
  have onSources (inputs : Inputs) (on : seeds.startOn inputs = .ok s)
      (same : inputs.integers = (given.map Inputs.integers).getD seeds.integerSources) :
      s.integers = seeds.integers given := by
    obtain ⟨memory, env, cells, bindings, rfl⟩ := startOn_eq_ok_iff.mp on
    rw [State.integers, admitMemory_integers cells, admitEnv_integers bindings, same]
    rfl
  cases given with
  | some inputs => exact onSources inputs started rfl
  | none =>
    obtain ⟨inputs, sources, on⟩ := start_eq_ok_iff.mp started
    exact onSources inputs on (registerAll_integers sources)

/-- A fresh state is fresh, whatever its sources are. -/
theorem fresh_of_startFrom {seeds : Seeds} {given : Option Inputs} {s : State}
    (started : seeds.startFrom given = .ok s) : s.Fresh := by
  cases given with
  | some inputs => exact ⟨seeds, .inr ⟨inputs, started⟩⟩
  | none => exact ⟨seeds, .inl started⟩

end Seeds

/-! ## Runs -/

namespace Unbounded

/-- Words are in range, read as integers. -/
theorem inRange_integers (s : FlatIL.State) : s.integers.InRange := by
  refine ⟨?_, ?_, ?_⟩
  · intro name value among
    obtain ⟨entry, -, same⟩ := List.mem_map.mp among
    obtain ⟨-, rfl⟩ := Prod.mk.inj same
    exact entry.2.integer_bounds
  · intro address value among
    obtain ⟨entry, -, same⟩ := List.mem_map.mp among
    obtain ⟨rfl, rfl⟩ := Prod.mk.inj same
    exact ⟨entry.1.integer_bounds, entry.2.integer_bounds⟩
  · intro name stream among value within
    obtain ⟨entry, -, same⟩ := List.mem_map.mp among
    obtain ⟨-, rfl⟩ := Prod.mk.inj same
    obtain ⟨word, -, rfl⟩ := List.mem_map.mp within
    exact word.integer_bounds

/-- A number of steps over integers is as many steps over words. -/
theorem steps_integers {p : Program} {n : Nat} {s t : FlatIL.State}
    (stepped : (Engine.program p).steps n s = (t, none)) :
    steps p n s.integers = .ok t.integers := by
  induction n generalizing s with
  | zero =>
    obtain rfl : s = t := congrArg Prod.fst stepped
    rfl
  | succ n ih =>
    rw [Engine.steps, Engine.step] at stepped
    cases next : p.step s with
    | error error =>
      rw [next] at stepped
      cases stepped
    | ok u =>
      rw [next] at stepped
      rw [steps, step_integers, next]
      exact ih stepped

/-- A jump over words leads to a position of the program. -/
theorem jumpsInside_integers (p : Program) (s : FlatIL.State) : s.integers.JumpsInside p := by
  intro stmt t running next jumps stepped notFailed
  rw [step_integers] at stepped
  cases made : p.step s with
  | error error => rw [made] at stepped; cases stepped
  | ok u =>
    rw [made] at stepped
    obtain rfl := Except.ok.inj stepped
    cases Program.transition_of_step made with
    | halted ended => simp [FlatIL.State.isRunning, show s.status = .running from running] at ended
    | finished _ atEnd =>
      have inside := (List.getElem?_eq_some_iff.mp next).1
      have size : p.size = p.statements.length := rfl
      have position : s.integers.pc = s.pc := rfl
      omega
    | faulted _ nonneg _ acted => exact absurd rfl notFailed
    | @executed stmt' change inputs _ nonneg next' performed =>
      obtain rfl := Option.some.inj (next.symm.trans next')
      have target : ∃ word : Word, change = .jump word ∧ word.toNat < p.size := by
        cases stmt with
        | assign | store | assert => cases jumps
        | goto =>
          obtain ⟨word, -, inside, rfl⟩ := performed
          exact ⟨word, rfl, inside⟩
        | branch =>
          obtain ⟨_, _, word, -, -, inside, rfl⟩ := performed
          exact ⟨word, rfl, inside⟩
      obtain ⟨word, rfl, inside⟩ := target
      rw [FlatIL.State.settle_eq]
      exact ⟨word.integer_bounds, Int.ofNat_lt.mpr inside⟩

end Unbounded

/-- Seeds are refused exactly if some value or address is no word or some name is empty. From
admitted seeds, taken as they are given, the machine over the integers makes every step and has
words for its values, its addresses and its jumps after any number of them; it is the machine
over words, read as integers. -/
theorem values_stay_words (p : Program) {seeds : Seeds}
    (mapping : (seeds.inputs.map Prod.fst).Nodup) (given : Option Inputs) :
    ((∃ error, seeds.startFrom given = .error error) ↔ seeds.Refused given) ∧
      ∀ s, seeds.startFrom given = .ok s → ∀ n,
        ∃ u, Unbounded.steps p n (seeds.integers given) = .ok u ∧ u.InRange ∧ u.JumpsInside p ∧
          ∃ t, (Engine.program p).steps n s = (t, none) ∧ u = t.integers := by
  refine ⟨Seeds.startFrom_error_iff mapping given, ?_⟩
  intro s started n
  have within : p.Within s := by
    have start := (Seeds.fresh_of_startFrom started).control.1
    exact ⟨by omega, by omega⟩
  obtain ⟨t, spends⟩ := within.spends n
  have same := Unbounded.steps_integers spends.stepped
  rw [Seeds.startFrom_integers started] at same
  exact ⟨t.integers, same, Unbounded.inRange_integers t, Unbounded.jumpsInside_integers p t, t,
    spends.stepped, rfl⟩

/-- The largest word is admitted and its negation is a word again, but the integer behind it is
refused. -/
theorem values_stay_words_of_negation :
    let p : Program := ⟨[.assign "x" (.unary .neg (.input "a"))]⟩
    let largest : Seeds := { inputs := [("a", [.int 4294967295])] }
    let behind : Seeds := { inputs := [("a", [.int 4294967296])] }
    (largest.inputs.map Prod.fst).Nodup ∧ (behind.inputs.map Prod.fst).Nodup ∧
      (∃ error, behind.startFrom none = .error error) ∧
      ∃ u, Unbounded.steps p 1 (largest.integers none) = .ok u ∧ u.InRange ∧
        u.env.entries = [("x", 1)] := by
  intro p largest behind
  have apart : (largest.inputs.map Prod.fst).Nodup := by decide
  have apart' : (behind.inputs.map Prod.fst).Nodup := by decide
  have refused : behind.Refused none := by
    refine .inl ⟨rfl, _, List.mem_singleton_self _, .inr ⟨_, List.mem_singleton_self _, ?_⟩⟩
    rintro ⟨_, ⟨⟩, -, tooLarge⟩
    exact absurd tooLarge (by decide)
  refine ⟨apart, apart', (values_stay_words p apart' none).1.mpr refused, ?_⟩
  obtain ⟨u, stepped, inRange, -⟩ := (values_stay_words p apart none).2 _ rfl 1
  refine ⟨u, stepped, inRange, ?_⟩
  obtain rfl := Except.ok.inj stepped
  exact congrArg (fun value => [("x", value)]) (Unbounded.wrap_eq_emod (-4294967295))

end FlatIL
