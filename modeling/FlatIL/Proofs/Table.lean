import FlatIL.Table

/-!
# Laws of tables

Binding a key changes what is found under that key and nothing else, and a key that is
already bound keeps its place. Keys and values may be read as others: what is found and what is
bound is read in the same way. A table may also be read under some of its keys only, and what is
found and bound under those does not depend on the others.
-/

namespace FlatIL.Table

variable {κ α : Type} [DecidableEq κ]

/-- After a key is bound, its value is found under it and all else under other keys. -/
theorem find?_put (key other : κ) (value : α) (entries : List (κ × α)) :
    find? other (put key value entries) =
      if other = key then some value else find? other entries := by
  induction entries with
  | nil => simp [put, find?, eq_comm]
  | cons entry entries ih =>
    obtain ⟨k, v⟩ := entry
    by_cases here : k = key
    · by_cases same : other = key
      · simp [put, find?, here, same]
      · have apart : ¬ key = other := fun h => same h.symm
        simp [put, find?, here, same, apart]
    · simp only [put, if_neg here, find?, ih]
      by_cases same : other = key
      · have apart : ¬ k = other := fun h => here (h.trans same)
        rw [if_neg apart, if_pos same, if_pos same]
      · rw [if_neg same, if_neg same]

/-- What a table finds after a key is bound. -/
theorem get?_insert (table : Table κ α) (key other : κ) (value : α) :
    (table.insert key value).get? other =
      if other = key then some value else table.get? other :=
  find?_put key other value table.entries

/-- A key is bound exactly if it is one of the keys. -/
theorem mem_keys_iff {table : Table κ α} {key : κ} :
    key ∈ table.keys ↔ (table.get? key).isSome := by
  obtain ⟨entries, distinct⟩ := table
  simp only [keys, get?]
  induction entries with
  | nil => simp [find?]
  | cons entry entries ih =>
    obtain ⟨k, v⟩ := entry
    have tail := ih (List.nodup_cons.mp distinct).2
    by_cases here : k = key
    · simp [find?, here]
    · have apart : ¬ key = k := fun h => here h.symm
      simp only [find?, if_neg here, List.map_cons, List.mem_cons, apart, false_or]
      exact tail

/-- Binding a key that is bound already keeps the keys and their order. -/
theorem keys_insert_of_some {table : Table κ α} {key : κ} {old : α}
    (bound : table.get? key = some old) (value : α) :
    (table.insert key value).keys = table.keys := by
  have known : key ∈ table.entries.map Prod.fst := mem_keys_iff.mpr (by rw [bound]; rfl)
  exact (map_fst_put key value table.entries).trans (if_pos known)

/-- Binding a key that is not bound appends it. -/
theorem entries_insert_of_none {table : Table κ α} {key : κ} (unbound : table.get? key = none)
    (value : α) : (table.insert key value).entries = table.entries ++ [(key, value)] := by
  obtain ⟨entries, distinct⟩ := table
  simp only [get?, insert] at unbound ⊢
  clear distinct
  induction entries with
  | nil => rfl
  | cons entry entries ih =>
    obtain ⟨k, v⟩ := entry
    by_cases here : k = key
    · simp [find?, here] at unbound
    · simp only [find?, if_neg here] at unbound
      simp only [put, if_neg here, List.cons_append, ih unbound]

/-- Binding a key to what it is bound to already changes nothing. -/
theorem insert_of_get? {table : Table κ α} {key : κ} {value : α}
    (bound : table.get? key = some value) : table.insert key value = table := by
  obtain ⟨entries, distinct⟩ := table
  simp only [get?, insert, Table.mk.injEq] at bound ⊢
  clear distinct
  induction entries with
  | nil => cases bound
  | cons entry entries ih =>
    obtain ⟨k, v⟩ := entry
    by_cases here : k = key
    · simp only [find?, if_pos here, Option.some.injEq] at bound
      simp only [put, if_pos here, bound]
    · simp only [find?, if_neg here] at bound
      simp only [put, if_neg here, ih bound]

/-- What is found under a key is bound to it. -/
theorem mem_entries_of_get? {table : Table κ α} {key : κ} {value : α}
    (found : table.get? key = some value) : (key, value) ∈ table.entries := by
  obtain ⟨entries, distinct⟩ := table
  simp only [get?] at found ⊢
  clear distinct
  induction entries with
  | nil => cases found
  | cons entry entries ih =>
    obtain ⟨k, v⟩ := entry
    by_cases here : k = key
    · simp only [find?, if_pos here, Option.some.injEq] at found
      rw [here, found]
      exact List.mem_cons_self
    · simp only [find?, if_neg here] at found
      exact List.mem_cons_of_mem _ (ih found)

end FlatIL.Table

/-! ## Tables under a change of keys and values -/

namespace FlatIL.Table

variable {κ κ' α α' : Type}

/-- The table with its keys and its values changed, keys that differ to keys that differ. -/
def map (f : κ → κ') (injective : ∀ a b, f a = f b → a = b) (g : α → α') (table : Table κ α) :
    Table κ' α' where
  entries := table.entries.map fun (key, value) => (f key, g value)
  distinct := by
    have keys : (table.entries.map fun (key, value) => (f key, g value)).map Prod.fst =
        (table.entries.map Prod.fst).map f := by
      simp only [List.map_map, Function.comp_def]
    rw [keys, List.nodup_iff_pairwise_ne, List.pairwise_map]
    exact table.distinct.imp fun differ same => differ (injective _ _ same)

variable [DecidableEq κ] [DecidableEq κ']

/-- A changed key finds the changed value. -/
theorem get?_map (f : κ → κ') (injective : ∀ a b, f a = f b → a = b) (g : α → α')
    (table : Table κ α) (key : κ) :
    (table.map f injective g).get? (f key) = (table.get? key).map g := by
  obtain ⟨entries, distinct⟩ := table
  simp only [get?, map]
  clear distinct
  induction entries with
  | nil => rfl
  | cons entry entries ih =>
    obtain ⟨k, v⟩ := entry
    by_cases here : k = key
    · simp [find?, here]
    · have apart : ¬ f k = f key := fun same => here (injective _ _ same)
      simp only [List.map_cons, find?, if_neg here, if_neg apart]
      exact ih

/-- Binding a key and changing the table is changing the table and binding the changed key. -/
theorem map_insert (f : κ → κ') (injective : ∀ a b, f a = f b → a = b) (g : α → α')
    (table : Table κ α) (key : κ) (value : α) :
    (table.insert key value).map f injective g =
      (table.map f injective g).insert (f key) (g value) := by
  obtain ⟨entries, distinct⟩ := table
  simp only [insert, map, Table.mk.injEq]
  clear distinct
  induction entries with
  | nil => rfl
  | cons entry entries ih =>
    obtain ⟨k, v⟩ := entry
    by_cases here : k = key
    · simp [put, here]
    · have apart : ¬ f k = f key := fun same => here (injective _ _ same)
      simp only [put, List.map_cons, if_neg here, if_neg apart, ih]

/-- The table with its values changed. -/
def mapValues (g : α → α') (table : Table κ α) : Table κ α' :=
  table.map id (fun _ _ same => same) g

omit [DecidableEq κ] in
/-- Changing values keeps the keys and their order. -/
theorem keys_mapValues (g : α → α') (table : Table κ α) :
    (table.mapValues g).keys = table.keys := by
  simp [mapValues, map, keys, Function.comp_def]

/-- A key finds the changed value. -/
theorem get?_mapValues (g : α → α') (table : Table κ α) (key : κ) :
    (table.mapValues g).get? key = (table.get? key).map g :=
  get?_map id _ g table key

/-- Binding a key and changing values is changing values and binding the key. -/
theorem mapValues_insert (g : α → α') (table : Table κ α) (key : κ) (value : α) :
    (table.insert key value).mapValues g = (table.mapValues g).insert key (g value) :=
  map_insert id _ g table key value

end FlatIL.Table

/-! ## Tables under some of their keys -/

namespace FlatIL.Table

variable {κ α : Type} [DecidableEq κ]

/-- The bindings of the keys that are kept, in their order. -/
def only (kept : List κ) (table : Table κ α) : Table κ α where
  entries := table.entries.filter fun entry => entry.1 ∈ kept
  distinct := (List.filter_sublist.map Prod.fst).nodup table.distinct

/-- A key that is kept finds what it found. -/
theorem get?_only {kept : List κ} {key : κ} (known : key ∈ kept) (table : Table κ α) :
    (table.only kept).get? key = table.get? key := by
  obtain ⟨entries, distinct⟩ := table
  simp only [get?, only]
  clear distinct
  induction entries with
  | nil => rfl
  | cons entry entries ih =>
    obtain ⟨k, v⟩ := entry
    by_cases here : k = key
    · simp [find?, here, known]
    · by_cases other : k ∈ kept <;> simp [find?, here, other, ih]

/-- Binding a key that is kept binds it among the keys that are kept. -/
theorem only_insert {kept : List κ} {key : κ} (known : key ∈ kept) (table : Table κ α)
    (value : α) : (table.insert key value).only kept = (table.only kept).insert key value := by
  obtain ⟨entries, distinct⟩ := table
  simp only [insert, only, Table.mk.injEq]
  clear distinct
  induction entries with
  | nil => simp [put, known]
  | cons entry entries ih =>
    obtain ⟨k, v⟩ := entry
    by_cases here : k = key
    · simp [put, here, known]
    · by_cases other : k ∈ kept <;> simp [put, here, other, ih]

/-- Binding a key that is not kept changes nothing among the keys that are. -/
theorem only_insert_of_notMem {kept : List κ} {key : κ} (unknown : key ∉ kept)
    (table : Table κ α) (value : α) : (table.insert key value).only kept = table.only kept := by
  obtain ⟨entries, distinct⟩ := table
  simp only [insert, only, Table.mk.injEq]
  clear distinct
  induction entries with
  | nil => simp [put, unknown]
  | cons entry entries ih =>
    obtain ⟨k, v⟩ := entry
    by_cases here : k = key
    · simp [put, here, unknown]
    · by_cases other : k ∈ kept <;> simp [put, here, other, ih]

end FlatIL.Table
