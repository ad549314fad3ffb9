import FlatIL.State
import FlatIL.Proofs.Table

/-!
# Which seeds are admitted

Seeds are admitted exactly if every value and every address is a word and no name is empty.
What is admitted is kept as it is, in the order in which it comes.
-/

namespace FlatIL

/-- A value from outside that is an integer, not negative and below `2 ^ 32`. -/
def Json.IsWord (value : Json) : Prop :=
  ∃ n : Int, value = .int n ∧ 0 ≤ n ∧ n < 4294967296

/-- An integer is a word exactly if it is the number of one. -/
theorem Word.ofInt?_eq_some {n : Int} {w : Word} : Word.ofInt? n = some w ↔ n = w.toNat := by
  have fits := w.toNat_lt
  have size : bound = 4294967296 := rfl
  unfold Word.ofInt?
  by_cases inside : 0 ≤ n ∧ n < bound
  · have kept : (UInt32.ofNat n.toNat).toNat = n.toNat := by
      rw [UInt32.toNat_ofNat']
      exact Nat.mod_eq_of_lt (by omega)
    rw [if_pos inside, Option.some.injEq, ← UInt32.toNat_inj, kept]
    omega
  · rw [if_neg inside]
    constructor
    · intro none
      cases none
    · intro number
      exact absurd ⟨by omega, by omega⟩ inside

/-- A value is admitted as the word whose number it is. -/
theorem Word.accept_eq_ok {subject : SeedSubject} {value : Json} {w : Word} :
    Word.accept subject value = .ok w ↔ value = .int w.toNat := by
  cases value with
  | int n =>
    rw [Json.int.injEq, ← Word.ofInt?_eq_some, Word.accept]
    cases Word.ofInt? n <;> simp
  | null | bool _ | real _ | str _ | arr _ | obj _ => simp [Word.accept]

/-- A value is a word exactly if it is the number of one. -/
theorem Json.isWord_iff {value : Json} : value.IsWord ↔ ∃ w : Word, value = .int w.toNat := by
  constructor
  · rintro ⟨n, rfl, low, high⟩
    refine ⟨UInt32.ofNat n.toNat, congrArg Json.int ?_⟩
    rw [UInt32.toNat_ofNat', Nat.mod_eq_of_lt (by omega)]
    omega
  · rintro ⟨w, rfl⟩
    have fits := w.toNat_lt
    exact ⟨w.toNat, rfl, by omega, by omega⟩

namespace Seeds

/-- One thing after another is admitted if both are. -/
theorem bind_eq_ok {α β ε : Type} {first : Except ε α} {after : α → Except ε β} {result : β} :
    (first >>= after) = .ok result ↔ ∃ value, first = .ok value ∧ after value = .ok result := by
  cases first with
  | error error =>
    constructor
    · intro admitted
      cases admitted
    · rintro ⟨_, refused, _⟩
      cases refused
  | ok value =>
    constructor
    · intro admitted
      exact ⟨value, rfl, admitted⟩
    · rintro ⟨value', same, admitted⟩
      obtain rfl := Except.ok.inj same
      exact admitted

/-- Seeds are refused exactly if they are not admitted. -/
theorem exists_error_iff {α : Type} {result : Except SeedError α} :
    (∃ error, result = .error error) ↔ ¬ ∃ value, result = .ok value := by
  cases result <;> simp

end Seeds

/-! ## Input sources -/

namespace Inputs

/-- The values of a source are admitted as the words whose numbers they are. -/
theorem admitFrom_eq_ok {source : String} {index : Nat} {values : List Json} {words : List Word} :
    admitFrom source index values = .ok words ↔ values = words.map (.int ·.toNat) := by
  induction values generalizing index words with
  | nil => cases words <;> simp [admitFrom]
  | cons value values ih =>
    rw [admitFrom, Seeds.bind_eq_ok]
    simp only [Seeds.bind_eq_ok, Word.accept_eq_ok, ih]
    constructor
    · rintro ⟨first, rfl, others, rfl, admitted⟩
      obtain rfl := Except.ok.inj admitted
      rfl
    · intro same
      cases words with
      | nil => cases same
      | cons first others =>
        obtain ⟨rfl, rfl⟩ := List.cons.inj same
        exact ⟨first, rfl, others, rfl, rfl⟩

/-- The values of a source are words exactly if they are the numbers of some. -/
theorem forall_isWord_iff {values : List Json} :
    (∀ value ∈ values, value.IsWord) ↔ ∃ words : List Word, values = words.map (.int ·.toNat) := by
  induction values with
  | nil => exact ⟨fun _ => ⟨[], rfl⟩, fun _ _ none => nomatch none⟩
  | cons value values ih =>
    rw [List.forall_mem_cons, ih, Json.isWord_iff]
    constructor
    · rintro ⟨⟨first, rfl⟩, others, rfl⟩
      exact ⟨first :: others, rfl⟩
    · rintro ⟨_ | ⟨first, others⟩, same⟩
      · cases same
      · obtain ⟨rfl, rfl⟩ := List.cons.inj same
        exact ⟨⟨first, rfl⟩, others, rfl⟩

/-- A source is registered under a new name that is not empty, with words for its values. -/
theorem register_eq_ok {inputs after : Inputs} {name : String} {values : List Json} :
    inputs.register name values = .ok after ↔
      name ≠ "" ∧ inputs.contains name = false ∧
        ∃ words : List Word, values = words.map (.int ·.toNat) ∧
          after = inputs.insert name { values := words } := by
  rw [register]
  by_cases empty : name = ""
  · simp [empty]
  · by_cases known : inputs.contains name = true
    · simp [empty, known]
    · simp only [String.isEmpty_iff, if_neg empty, if_neg known, Seeds.bind_eq_ok, admitFrom_eq_ok]
      constructor
      · rintro ⟨words, rfl, admitted⟩
        obtain rfl := Except.ok.inj admitted
        exact ⟨empty, by simpa using known, words, rfl, rfl⟩
      · rintro ⟨-, -, words, rfl, rfl⟩
        exact ⟨words, rfl, rfl⟩

/-- Sources with names that differ are registered exactly if no name is empty and all values are
words. -/
theorem registerAll_isOk_iff {inputs : Inputs} {streams : List (String × List Json)}
    (distinct : (streams.map Prod.fst).Nodup)
    (fresh : ∀ stream ∈ streams, inputs.contains stream.1 = false) :
    (∃ after, inputs.registerAll streams = .ok after) ↔
      ∀ stream ∈ streams, stream.1 ≠ "" ∧ ∀ value ∈ stream.2, value.IsWord := by
  induction streams generalizing inputs with
  | nil => simp [registerAll]
  | cons stream streams ih =>
    obtain ⟨name, values⟩ := stream
    obtain ⟨unused, differ⟩ := List.nodup_cons.mp distinct
    obtain ⟨new, fresh⟩ := List.forall_mem_cons.mp fresh
    have stillFresh (words : List Word) : ∀ stream ∈ streams,
        (inputs.insert name { values := words }).contains stream.1 = false := by
      intro stream among
      have apart : ¬ stream.1 = name := by
        intro same
        have used : stream.1 ∈ streams.map Prod.fst := List.mem_map_of_mem among
        rw [same] at used
        exact unused used
      rw [Table.contains, Table.get?_insert, if_neg apart]
      exact fresh stream among
    rw [List.forall_mem_cons, forall_isWord_iff]
    simp only [registerAll, Seeds.bind_eq_ok, register_eq_ok]
    constructor
    · rintro ⟨after, _, ⟨named, -, words, rfl, rfl⟩, rest⟩
      exact ⟨⟨named, words, rfl⟩, (ih differ (stillFresh words)).mp ⟨after, rest⟩⟩
    · rintro ⟨⟨named, words, rfl⟩, others⟩
      obtain ⟨after, rest⟩ := (ih differ (stillFresh words)).mpr others
      exact ⟨after, _, ⟨named, new, words, rfl, rfl⟩, rest⟩

/-- Registered sources are appended in order, with all their values and nothing read of them. -/
theorem entries_of_registerAll {inputs after : Inputs} {streams : List (String × List Json)}
    (registered : inputs.registerAll streams = .ok after) :
    ∃ admitted : List (String × List Word),
      streams = admitted.map (fun (name, words) => (name, words.map (.int ·.toNat))) ∧
      after.entries = inputs.entries ++ admitted.map fun (name, words) =>
        (name, { values := words }) := by
  induction streams generalizing inputs with
  | nil =>
    obtain rfl := Except.ok.inj registered
    exact ⟨[], rfl, by simp⟩
  | cons stream streams ih =>
    obtain ⟨name, values⟩ := stream
    obtain ⟨between, first, rest⟩ := Seeds.bind_eq_ok.mp registered
    obtain ⟨-, fresh, words, rfl, rfl⟩ := register_eq_ok.mp first
    have unbound : inputs.get? name = none := by simpa [Table.contains] using fresh
    obtain ⟨admitted, rfl, entries⟩ := ih rest
    refine ⟨(name, words) :: admitted, rfl, ?_⟩
    rw [entries, Table.entries_insert_of_none unbound, List.append_assoc]
    rfl

end Inputs

/-! ## Memory and variables -/

namespace Seeds

/-- A memory cell is admitted if its address and its contents are words. -/
theorem admitMemory_cons_eq_ok {memory after : Memory} {address value : Json}
    {cells : List (Json × Json)} :
    admitMemory memory ((address, value) :: cells) = .ok after ↔
      ∃ a v : Word, address = .int a.toNat ∧ value = .int v.toNat ∧
        admitMemory (memory.insert a v) cells = .ok after := by
  simp only [admitMemory, bind_eq_ok, Word.accept_eq_ok, exists_and_left]

/-- Memory cells are admitted exactly if all addresses and all contents are words. -/
theorem admitMemory_isOk_iff (memory : Memory) {cells : List (Json × Json)} :
    (∃ after, admitMemory memory cells = .ok after) ↔
      ∀ cell ∈ cells, cell.1.IsWord ∧ cell.2.IsWord := by
  induction cells generalizing memory with
  | nil => simp [admitMemory]
  | cons cell cells ih =>
    obtain ⟨address, value⟩ := cell
    rw [List.forall_mem_cons, Json.isWord_iff, Json.isWord_iff]
    simp only [admitMemory_cons_eq_ok]
    constructor
    · rintro ⟨after, a, v, rfl, rfl, rest⟩
      exact ⟨⟨⟨a, rfl⟩, v, rfl⟩, (ih _).mp ⟨after, rest⟩⟩
    · rintro ⟨⟨⟨a, rfl⟩, v, rfl⟩, others⟩
      obtain ⟨after, rest⟩ := (ih (memory.insert a v)).mpr others
      exact ⟨after, a, v, rfl, rfl, rest⟩

/-- A variable is admitted if its name is not empty and its value is a word. -/
theorem admitEnv_cons_eq_ok {env after : Env} {name : String} {value : Json}
    {bindings : List (String × Json)} :
    admitEnv env ((name, value) :: bindings) = .ok after ↔
      name ≠ "" ∧ ∃ v : Word, value = .int v.toNat ∧
        admitEnv (env.insert name v) bindings = .ok after := by
  rw [admitEnv]
  by_cases empty : name = ""
  · simp [empty]
  · simp only [String.isEmpty_iff, if_neg empty, bind_eq_ok, Word.accept_eq_ok]
    exact (and_iff_right empty).symm

/-- Variables are admitted exactly if no name is empty and all values are words. -/
theorem admitEnv_isOk_iff (env : Env) {bindings : List (String × Json)} :
    (∃ after, admitEnv env bindings = .ok after) ↔
      ∀ binding ∈ bindings, binding.1 ≠ "" ∧ binding.2.IsWord := by
  induction bindings generalizing env with
  | nil => simp [admitEnv]
  | cons binding bindings ih =>
    obtain ⟨name, value⟩ := binding
    rw [List.forall_mem_cons, Json.isWord_iff]
    simp only [admitEnv_cons_eq_ok]
    constructor
    · rintro ⟨after, named, v, rfl, rest⟩
      exact ⟨⟨named, v, rfl⟩, (ih _).mp ⟨after, rest⟩⟩
    · rintro ⟨⟨named, v, rfl⟩, others⟩
      obtain ⟨after, rest⟩ := (ih (env.insert name v)).mpr others
      exact ⟨after, named, v, rfl, rest⟩

/-! ## Fresh states -/

/-- What a fresh state over given sources is made of. -/
theorem startOn_eq_ok_iff {seeds : Seeds} {inputs : Inputs} {s : State} :
    seeds.startOn inputs = .ok s ↔
      ∃ memory env, admitMemory .empty seeds.memory = .ok memory ∧
        admitEnv .empty seeds.env = .ok env ∧ s = { env, memory, inputs } := by
  simp only [startOn, bind_eq_ok]
  constructor
  · rintro ⟨memory, cells, env, bindings, started⟩
    exact ⟨memory, env, cells, bindings, (Except.ok.inj started).symm⟩
  · rintro ⟨memory, env, cells, bindings, rfl⟩
    exact ⟨memory, cells, env, bindings, rfl⟩

/-- What a fresh state over its own sources is made of. -/
theorem start_eq_ok_iff {seeds : Seeds} {s : State} :
    seeds.start = .ok s ↔
      ∃ inputs, Inputs.registerAll .empty seeds.inputs = .ok inputs ∧
        seeds.startOn inputs = .ok s :=
  bind_eq_ok

end Seeds

end FlatIL
