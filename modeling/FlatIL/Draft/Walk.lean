import FlatIL.Draft

/-!
# Working through a draft

What is computed from a draft node by node, operands from left to right before the node itself, is
worked through with a work list of drafts and a stack of results, as a checked expression is. A
draft may lack an operand: all operands of a node are looked up when it comes up, before anything
is computed from any of them.
-/

namespace FlatIL.Draft

/-! ## Operands -/

/-- The fields that hold the operands of what has the form of an expression, in the order in which
they are worked through. -/
def operandNames : Option NodeForm → List String
  | some .binary => ["left", "right"]
  | some .unary => ["operand"]
  | some .load => ["address"]
  | _ => []

/-- The fields of some names, or the first of the names that there is no field of. -/
def fetch (draft : Draft) : List String → Except String (List Draft)
  | [] => .ok []
  | name :: names =>
    match draft.field? name with
    | none => .error name
    | some value => (draft.fetch names).map (value :: ·)

/-- What is fetched first is held under the first name, and the rest under the others. -/
theorem fetch_cons_eq_ok {draft : Draft} {name : String} {names : List String}
    {found : List Draft} (fetched : draft.fetch (name :: names) = .ok found) :
    ∃ value others, found = value :: others ∧ draft.field? name = some value ∧
      draft.fetch names = .ok others := by
  unfold fetch at fetched
  split at fetched
  · cases fetched
  · next value there =>
    cases rest : draft.fetch names with
    | error missing => rw [rest] at fetched; cases fetched
    | ok others =>
      rw [rest] at fetched
      exact ⟨value, others, (Except.ok.inj fetched).symm, there, rfl⟩

/-- One draft is fetched for each name. -/
theorem length_fetch {draft : Draft} {names : List String} {found : List Draft}
    (fetched : draft.fetch names = .ok found) : found.length = names.length := by
  induction names generalizing found with
  | nil =>
    obtain rfl := Except.ok.inj fetched
    rfl
  | cons name names ih =>
    obtain ⟨value, others, rfl, -, rest⟩ := fetch_cons_eq_ok fetched
    rw [List.length_cons, List.length_cons, ih rest]

/-- Every draft has a size. -/
theorem sizeOf_pos (draft : Draft) : 0 < sizeOf draft := by
  cases draft with
  | plain value =>
    rw [plain.sizeOf_spec]
    omega
  | node form tag fields =>
    rw [node.sizeOf_spec]
    omega

/-- What to compute at each node, from the results at its operands. -/
structure Algebra (m : Type → Type) (α : Type) where
  /-- The form that a draft is taken to have, if it is taken to have any. -/
  form : Draft → Option NodeForm
  /-- What comes of an operand that is missing. -/
  missing : String → m α
  /-- What is computed at a node from one result for each operand, in their order. -/
  node : (draft : Draft) → (results : List α) →
    results.length = (operandNames (form draft)).length → m α

/-- The fields that hold the operands of a draft. -/
def Algebra.names {m : Type → Type} {α : Type} (alg : Algebra m α) (draft : Draft) :
    List String :=
  operandNames (alg.form draft)

variable {m : Type → Type} {α : Type} {alg : Algebra m α}

/-! ## The work list -/

/-- A draft on the work list, and whether its operands have been put in front of it. -/
structure Pending where
  draft : Draft
  expanded : Bool := false

namespace Pending

/-- How many results a draft finds on the stack that are meant for it. -/
def takes (alg : Algebra m α) (entry : Pending) : Nat :=
  if entry.expanded then (alg.names entry.draft).length else 0

/-- With so many results on the stack every pending draft finds those of its operands, and in the
end one result is left. -/
def Balanced (alg : Algebra m α) : List Pending → Nat → Prop
  | [], count => count = 1
  | entry :: pending, count =>
    entry.takes alg ≤ count ∧ Balanced alg pending (count - entry.takes alg + 1)

/-- Whether the operands of a draft are still to be put in front of it. -/
def waits (alg : Algebra m α) (entry : Pending) : Bool :=
  !entry.expanded && !(alg.names entry.draft).isEmpty

/-- A draft with its operands in front of it. -/
def expand (entry : Pending) (operands : List Draft) : List Pending :=
  operands.map ({ draft := · }) ++ [{ entry with expanded := true }]

/-- A bound on the steps that a draft and its operands still take. -/
noncomputable def cost (entry : Pending) : Nat :=
  if entry.expanded then 1 else 2 * sizeOf entry.draft

/-- A bound on the steps that all pending drafts still take. -/
noncomputable def totalCost : List Pending → Nat
  | [] => 0
  | entry :: pending => entry.cost + totalCost pending

variable {entry : Pending} {pending : List Pending} {operands : List Draft} {results : List α}

/-- A draft that waits has not been expanded. -/
theorem expanded_of_waits (waits : entry.waits alg = true) : entry.expanded = false := by
  simp only [Pending.waits, Bool.and_eq_true, Bool.not_eq_true'] at waits
  exact waits.1

/-- A draft that does not wait takes as many results as it has operands. -/
theorem takes_of_waits (ready : entry.waits alg = false) :
    entry.takes alg = (alg.names entry.draft).length := by
  obtain ⟨draft, expanded⟩ := entry
  cases expanded with
  | true => rfl
  | false =>
    have none : alg.names draft = [] := by simpa [waits] using ready
    simp [takes, none]

/-- Drafts put on the work list leave one result each. -/
theorem balanced_append (drafts : List Draft) (count : Nat) :
    Balanced alg (drafts.map ({ draft := · }) ++ pending) count ↔
      Balanced alg pending (count + drafts.length) := by
  induction drafts generalizing count with
  | nil => rfl
  | cons draft drafts ih =>
    have same : count + 1 + drafts.length = count + (drafts.length + 1) := by omega
    simp [Balanced, takes, ih, same]

/-- Putting its operands in front of a draft keeps the balance. -/
theorem balanced_expand {count : Nat}
    (fetched : entry.draft.fetch (alg.names entry.draft) = .ok operands)
    (waits : entry.waits alg = true) (balanced : Balanced alg (entry :: pending) count) :
    Balanced alg (entry.expand operands ++ pending) count := by
  have rest : Balanced alg pending (count + 1) := by
    simpa [takes, expanded_of_waits waits] using balanced.2
  rw [expand, List.append_assoc, balanced_append, length_fetch fetched]
  exact ⟨by simp [takes], by simpa [takes] using rest⟩

/-- A draft that does not wait finds one result for each operand. -/
theorem length_taken (ready : entry.waits alg = false)
    (balanced : Balanced alg (entry :: pending) results.length) :
    (results.take (alg.names entry.draft).length).reverse.length =
      (alg.names entry.draft).length := by
  have enough := balanced.1
  rw [takes_of_waits ready] at enough
  rw [List.length_reverse, List.length_take, Nat.min_eq_left enough]

/-- A draft that does not wait leaves one result in place of those of its operands. -/
theorem balanced_leave (ready : entry.waits alg = false)
    (balanced : Balanced alg (entry :: pending) results.length) (result : α) :
    Balanced alg pending (result :: results.drop (alg.names entry.draft).length).length := by
  have rest := balanced.2
  rw [takes_of_waits ready] at rest
  simpa using rest

/-- The bound for two lists is what the bounds for each come to. -/
theorem totalCost_append (first second : List Pending) :
    totalCost (first ++ second) = totalCost first + totalCost second := by
  induction first with
  | nil => exact (Nat.zero_add _).symm
  | cons entry first ih => rw [List.cons_append, totalCost, totalCost, ih, Nat.add_assoc]

/-- Its operands take at least two steps less than a draft, whatever form it is taken to have. -/
theorem totalCost_fetch_lt {draft : Draft} {form : Option NodeForm}
    (fetched : draft.fetch (operandNames form) = .ok operands) :
    totalCost (operands.map ({ draft := · })) + 1 < 2 * sizeOf draft := by
  have single {name : String} (fetched : draft.fetch [name] = .ok operands) :
      totalCost (operands.map ({ draft := · })) + 1 < 2 * sizeOf draft := by
    obtain ⟨operand, _, rfl, there, rest⟩ := fetch_cons_eq_ok fetched
    obtain rfl := Except.ok.inj rest
    have smaller := sizeOf_field?_lt there
    simp only [List.map_cons, List.map_nil, totalCost, cost, Bool.false_eq_true, if_false]
    omega
  unfold operandNames at fetched
  split at fetched
  · obtain ⟨left, _, rfl, holdsLeft, rest⟩ := fetch_cons_eq_ok fetched
    obtain ⟨right, _, rfl, holdsRight, rest⟩ := fetch_cons_eq_ok rest
    obtain rfl := Except.ok.inj rest
    have smaller := sizeOf_field?_add_lt (by decide) holdsLeft holdsRight
    simp only [List.map_cons, List.map_nil, totalCost, cost, Bool.false_eq_true, if_false]
    omega
  · exact single fetched
  · exact single fetched
  · obtain rfl := Except.ok.inj fetched
    have positive := draft.sizeOf_pos
    simp only [List.map_nil, totalCost]
    omega

/-- Putting its operands in front of a draft takes one step off the bound. -/
theorem totalCost_expand (fetched : entry.draft.fetch (alg.names entry.draft) = .ok operands)
    (waits : entry.waits alg = true) (pending : List Pending) :
    totalCost (entry.expand operands ++ pending) < totalCost (entry :: pending) := by
  have fewer := totalCost_fetch_lt fetched
  have parts : totalCost (entry.expand operands ++ pending) =
      totalCost (operands.map ({ draft := · })) + 1 + totalCost pending := by
    rw [expand, List.append_assoc, totalCost_append, Nat.add_assoc]
    rfl
  have whole : totalCost (entry :: pending) = 2 * sizeOf entry.draft + totalCost pending := by
    rw [totalCost, cost, expanded_of_waits waits, if_neg Bool.false_ne_true]
  omega

/-- Every pending draft takes at least one step. -/
theorem cost_pos (entry : Pending) : 0 < entry.cost := by
  have positive := entry.draft.sizeOf_pos
  unfold cost
  split <;> omega

end Pending

variable [Monad m]

/-- Applies an algebra with a work list of drafts and a stack of results, the last one on top. A
draft is looked at for its operands each time it comes up: if they are still to come they are put
in front of it, and otherwise it takes their results off the stack and leaves its own there. -/
@[specialize]
def walk (alg : Algebra m α) (pending : List Pending) (results : List α)
    (balanced : Pending.Balanced alg pending results.length) : m α :=
  match pending, balanced with
  | [], single => pure (results.head (List.ne_nil_of_length_eq_add_one single))
  | entry :: pending, balanced =>
    match fetched : entry.draft.fetch (alg.names entry.draft) with
    | .error name => alg.missing name
    | .ok operands =>
      if waits : entry.waits alg then
        walk alg (entry.expand operands ++ pending) results
          (Pending.balanced_expand fetched waits balanced)
      else do
        have ready : entry.waits alg = false := by simpa using waits
        let count := (alg.names entry.draft).length
        let result ← alg.node entry.draft (results.take count).reverse
          (Pending.length_taken ready balanced)
        walk alg pending (result :: results.drop count)
          (Pending.balanced_leave ready balanced result)
termination_by Pending.totalCost pending
decreasing_by
  · exact Pending.totalCost_expand fetched waits pending
  · exact Nat.lt_add_of_pos_left entry.cost_pos

section

variable {entry : Pending} {pending : List Pending} {operands : List Draft} {results : List α}

/-- Once nothing is pending, the one result on the stack is the answer. -/
theorem walk_done (single : Pending.Balanced alg [] results.length) :
    walk alg [] results single =
      pure (results.head (List.ne_nil_of_length_eq_add_one single)) := by
  rw [walk]

/-- A draft with a missing operand is gone into no further. -/
theorem walk_missing {name : String}
    (missing : entry.draft.fetch (alg.names entry.draft) = .error name)
    (balanced : Pending.Balanced alg (entry :: pending) results.length) :
    walk alg (entry :: pending) results balanced = alg.missing name := by
  rw [walk]
  split
  · next other failed => rw [Except.error.inj (failed.symm.trans missing)]
  · next found => cases found.symm.trans missing

/-- A draft that waits is put back behind its operands. -/
theorem walk_waits (fetched : entry.draft.fetch (alg.names entry.draft) = .ok operands)
    (waits : entry.waits alg = true)
    (balanced : Pending.Balanced alg (entry :: pending) results.length) :
    walk alg (entry :: pending) results balanced =
      walk alg (entry.expand operands ++ pending) results
        (Pending.balanced_expand fetched waits balanced) := by
  rw [walk]
  split
  · next failed => cases failed.symm.trans fetched
  · next again =>
    obtain rfl := Except.ok.inj (again.symm.trans fetched)
    rw [dif_pos waits]

/-- A draft that does not wait is computed from the results of its operands. -/
theorem walk_ready (fetched : entry.draft.fetch (alg.names entry.draft) = .ok operands)
    (ready : entry.waits alg = false)
    (balanced : Pending.Balanced alg (entry :: pending) results.length) :
    walk alg (entry :: pending) results balanced =
      alg.node entry.draft (results.take (alg.names entry.draft).length).reverse
          (Pending.length_taken ready balanced) >>= fun result =>
        walk alg pending (result :: results.drop (alg.names entry.draft).length)
          (Pending.balanced_leave ready balanced result) := by
  rw [walk]
  split
  · next failed => cases failed.symm.trans fetched
  · next again => rw [dif_neg (by simp [ready])]

end

/-- The walk over a whole draft. -/
def traverse (alg : Algebra m α) (draft : Draft) : m α :=
  walk alg [{ draft }] [] ⟨Nat.le_refl 0, rfl⟩

end FlatIL.Draft
