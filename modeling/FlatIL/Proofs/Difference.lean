import FlatIL.Proofs.Table
import Mathlib.Tactic.ByContra

/-!
# What differs between two tables

A list shows what differs between a table and a later one if it has exactly the keys under which
the two find something else, each once and in order, with the values of the later one. The bindings
of the later table that the earlier does not have are such a list if no key was taken away, and
binding them turns the earlier table into one that finds what the later finds.
-/

namespace FlatIL.Table

variable {κ α : Type} [DecidableEq κ]

/-- What is bound to a key is found under it. -/
theorem get?_of_mem_entries {table : Table κ α} {key : κ} {value : α}
    (bound : (key, value) ∈ table.entries) : table.get? key = some value := by
  obtain ⟨entries, distinct⟩ := table
  simp only [get?] at bound ⊢
  induction entries with
  | nil => cases bound
  | cons entry entries ih =>
    obtain ⟨k, v⟩ := entry
    obtain ⟨fresh, others⟩ := List.nodup_cons.mp distinct
    rcases List.mem_cons.mp bound with same | later
    · obtain ⟨rfl, rfl⟩ := Prod.mk.inj same
      simp [find?]
    · have apart : k ≠ key := by
        rintro rfl
        exact fresh (List.mem_map.mpr ⟨_, later, rfl⟩)
      rw [find?, if_neg apart]
      exact ih others later

/-- A list shows what differs between two tables. -/
structure Shows [LT κ] (before after : Table κ α) (listed : List (κ × α)) : Prop where
  /-- Keys are listed once and in ascending order. -/
  ascending : listed.Pairwise fun a b => a.1 < b.1
  /-- A key is listed with its value in the later table. -/
  value : ∀ key value, (key, value) ∈ listed → after.get? key = some value
  /-- A key is listed exactly if what is found under it differs. -/
  exactly : ∀ key, key ∈ listed.map Prod.fst ↔ after.get? key ≠ before.get? key

/-- Nothing differs between a table and itself. -/
theorem Shows.refl [LT κ] (table : Table κ α) : table.Shows table [] :=
  ⟨.nil, nofun, by simp⟩

/-- Binds keys one after the other. -/
def insertAll (table : Table κ α) (listed : List (κ × α)) : Table κ α :=
  listed.foldl (fun table entry => table.insert entry.1 entry.2) table

/-- Keys that are not listed keep what is found under them. -/
theorem get?_insertAll_of_notMem {listed : List (κ × α)} {key : κ}
    (absent : key ∉ listed.map Prod.fst) (table : Table κ α) :
    (table.insertAll listed).get? key = table.get? key := by
  induction listed generalizing table with
  | nil => rfl
  | cons entry listed ih =>
    rw [List.map_cons, List.mem_cons, not_or] at absent
    rw [insertAll, List.foldl_cons]
    refine (ih absent.2 _).trans ?_
    rw [get?_insert, if_neg absent.1]

/-- Keys that are listed once are bound to the value they are listed with. -/
theorem get?_insertAll_of_mem {listed : List (κ × α)} {key : κ} {value : α}
    (once : (listed.map Prod.fst).Nodup) (inside : (key, value) ∈ listed) (table : Table κ α) :
    (table.insertAll listed).get? key = some value := by
  induction listed generalizing table with
  | nil => cases inside
  | cons entry listed ih =>
    obtain ⟨fresh, others⟩ := List.nodup_cons.mp once
    rw [insertAll, List.foldl_cons]
    rcases List.mem_cons.mp inside with rfl | later
    · refine (get?_insertAll_of_notMem fresh _).trans ?_
      rw [get?_insert, if_pos rfl]
    · exact ih others later _

section

variable [LE κ] [LT κ] [Std.IsLinearOrder κ] [Std.LawfulOrderLT κ]

omit [DecidableEq κ] in
/-- Sorting the bindings of a table by key puts the keys in ascending order. -/
theorem ascending_mergeSort [DecidableLE κ] (table : Table κ α) :
    (table.entries.mergeSort fun a b => decide (a.1 ≤ b.1)).Pairwise fun a b => a.1 < b.1 := by
  have sorted : (table.entries.mergeSort fun a b => decide (a.1 ≤ b.1)).Pairwise
      fun a b => decide (a.1 ≤ b.1) = true := by
    refine List.pairwise_mergeSort ?_ ?_ _
    · intro a b c first second
      simp only [decide_eq_true_eq] at first second ⊢
      exact Std.le_trans first second
    · intro a b
      simpa using Std.le_total
  have distinct : (table.entries.mergeSort fun a b => decide (a.1 ≤ b.1)).Pairwise
      fun a b => a.1 ≠ b.1 := by
    have once := List.pairwise_map.mp table.distinct
    exact ((List.mergeSort_perm _ _).pairwise_iff Ne.symm).mpr once
  exact sorted.imp₂ (fun _ _ le ne => Std.lt_of_le_of_ne (of_decide_eq_true le) ne) distinct

/-- The bindings of a table that another does not have, sorted by key, are what differs, if the
table binds every key that the other binds. -/
theorem shows_changes [DecidableLE κ] [DecidableEq α] {before after : Table κ α}
    (kept : before.keys ⊆ after.keys) :
    before.Shows after ((after.entries.mergeSort fun a b => decide (a.1 ≤ b.1)).filter
      fun entry => before.get? entry.1 != some entry.2) := by
  have listed (key : κ) (value : α) : (key, value) ∈
      ((after.entries.mergeSort fun a b => decide (a.1 ≤ b.1)).filter
        fun entry => before.get? entry.1 != some entry.2) ↔
      (key, value) ∈ after.entries ∧ before.get? key ≠ some value := by
    simp [List.mem_filter, List.mem_mergeSort]
  refine ⟨after.ascending_mergeSort.filter _, ?_, ?_⟩
  · intro key value inside
    exact get?_of_mem_entries ((listed key value).mp inside).1
  · intro key
    constructor
    · intro shown
      obtain ⟨⟨_, value⟩, inside, rfl⟩ := List.mem_map.mp shown
      obtain ⟨bound, differs⟩ := (listed _ value).mp inside
      rw [get?_of_mem_entries bound]
      exact Ne.symm differs
    · intro differs
      cases found : after.get? key with
      | none =>
        have unbound : key ∉ after.keys := by simp [mem_keys_iff, found]
        have missing : before.get? key = none := by
          rw [← Option.not_isSome_iff_eq_none, ← mem_keys_iff]
          exact fun bound => unbound (kept bound)
        exact absurd (found.trans missing.symm) differs
      | some value =>
        have other : before.get? key ≠ some value := fun same => differs (found.trans same.symm)
        have inside := (listed key value).mpr ⟨mem_entries_of_get? found, other⟩
        exact List.mem_map.mpr ⟨_, inside, rfl⟩

omit [Std.IsLinearOrder κ] in
/-- What differs turns a table that finds what the first finds into one that finds what the second
finds. -/
theorem Shows.get?_insertAll {before after table : Table κ α} {listed : List (κ × α)}
    (shows : before.Shows after listed)
    (same : ∀ key, table.get? key = before.get? key) (key : κ) :
    (table.insertAll listed).get? key = after.get? key := by
  have once : (listed.map Prod.fst).Nodup := by
    refine List.pairwise_map.mpr (shows.ascending.imp ?_)
    intro a b less equal
    rw [equal] at less
    exact Std.lt_irrefl less
  by_cases shown : key ∈ listed.map Prod.fst
  · obtain ⟨⟨_, value⟩, inside, rfl⟩ := List.mem_map.mp shown
    rw [get?_insertAll_of_mem once inside, shows.value _ value inside]
  · have equal : after.get? key = before.get? key := by
      by_contra differs
      exact shown ((shows.exactly key).mpr differs)
    rw [get?_insertAll_of_notMem shown, same key, equal]

end

end FlatIL.Table
