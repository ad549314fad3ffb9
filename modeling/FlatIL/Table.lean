/-!
# Tables

A table binds keys to values and remembers the order in which keys were first
bound. Binding a key again changes its value and keeps its position; no operation
removes a key.
-/

namespace FlatIL

/-- Bindings in the order their keys were first bound. -/
structure Table (κ α : Type) where
  entries : List (κ × α)
  distinct : (entries.map Prod.fst).Nodup
  deriving DecidableEq

namespace Table

variable {κ α : Type}

/-- The keys in order. -/
def keys (table : Table κ α) : List κ :=
  table.entries.map Prod.fst

/-- The table without bindings. -/
def empty : Table κ α where
  entries := []
  distinct := by simp

instance : Inhabited (Table κ α) := ⟨empty⟩

variable [DecidableEq κ]

/-- The first value bound to a key. -/
def find? (key : κ) : List (κ × α) → Option α
  | [] => none
  | (k, v) :: entries => if k = key then some v else find? key entries

/-- The value bound to a key. -/
def get? (table : Table κ α) (key : κ) : Option α :=
  find? key table.entries

/-- Changes the value of a key in place, or appends the key. -/
def put (key : κ) (value : α) : List (κ × α) → List (κ × α)
  | [] => [(key, value)]
  | (k, v) :: entries => if k = key then (k, value) :: entries else (k, v) :: put key value entries

/-- Binding keeps the keys there are and appends the key if it is new. -/
theorem map_fst_put (key : κ) (value : α) (entries : List (κ × α)) :
    (put key value entries).map Prod.fst =
      if key ∈ entries.map Prod.fst then entries.map Prod.fst
      else entries.map Prod.fst ++ [key] := by
  induction entries with
  | nil => simp [put]
  | cons entry entries ih =>
    obtain ⟨k, v⟩ := entry
    by_cases same : k = key
    · simp [put, same]
    · have other : ¬ key = k := fun h => same h.symm
      by_cases known : key ∈ entries.map Prod.fst
      · simp only [put, if_neg same, List.map_cons, ih, if_pos known]
        rw [if_pos (List.mem_cons_of_mem _ known)]
      · simp only [put, if_neg same, List.map_cons, ih, if_neg known]
        rw [if_neg (by simp only [List.mem_cons, not_or]; exact ⟨other, known⟩)]
        simp

/-- Binds a key to a value. -/
def insert (table : Table κ α) (key : κ) (value : α) : Table κ α where
  entries := put key value table.entries
  distinct := by
    rw [map_fst_put]
    split
    · exact table.distinct
    · next fresh =>
      rw [List.nodup_append]
      refine ⟨table.distinct, by simp, ?_⟩
      intro a ha b hb h
      rw [List.mem_singleton] at hb
      exact fresh (hb ▸ h ▸ ha)

/-- Whether a key is bound. -/
def contains (table : Table κ α) (key : κ) : Bool :=
  (table.get? key).isSome

end Table

end FlatIL
