import FlatIL.Expr

/-!
# Working through an expression

What is computed from an expression node by node, operands from left to right
before the node itself, is given by an algebra. `fold` applies it by recursion;
`walk` applies it with a work list of nodes and a stack of results, so that the depth
of an expression is bounded by memory alone. The work list and the stack are kept in
balance: whenever a node is computed, the results of its operands are on the stack.
`walk_node` says that the two agree, whatever effects the algebra has.
-/

namespace FlatIL.Expr

/-- What to compute at each kind of node, from the results at its operands. -/
structure Algebra (m : Type → Type) (α : Type) where
  lit : Word → m α
  var : String → m α
  input : String → m α
  load : Expr → α → m α
  unary : UnaryOp → Expr → α → m α
  binary : BinaryOp → Expr → Expr → α → α → m α

variable {m : Type → Type} [Monad m] {α : Type}

/-- Applies an algebra by recursion. -/
def fold (alg : Algebra m α) : Expr → m α
  | .lit v => alg.lit v
  | .var x => alg.var x
  | .input s => alg.input s
  | .load e => do alg.load e (← fold alg e)
  | .unary op e => do alg.unary op e (← fold alg e)
  | .binary op l r => do
    let left ← fold alg l
    let right ← fold alg r
    alg.binary op l r left right

/-- The operands of a node, in the order in which they are worked through. -/
def operands : Expr → List Expr
  | lit _ | var _ | input _ => []
  | load e | unary _ e => [e]
  | binary _ l r => [l, r]

/-- What an algebra computes at a node from one result for each operand, in their order. -/
def Algebra.node (alg : Algebra m α) :
    (e : Expr) → (results : List α) → results.length = e.operands.length → m α
  | .lit v, _, _ => alg.lit v
  | .var x, _, _ => alg.var x
  | .input s, _, _ => alg.input s
  | .load e, [address], _ => alg.load e address
  | .unary op e, [operand], _ => alg.unary op e operand
  | .binary op l r, [left, right], _ => alg.binary op l r left right

/-- A node on the work list, and whether its operands have been put in front of it. -/
structure Pending where
  node : Expr
  expanded : Bool := false

namespace Pending

/-- Whether the operands of a node are still to be put in front of it. -/
def waits (entry : Pending) : Bool :=
  !entry.expanded && !entry.node.operands.isEmpty

/-- A node with its operands in front of it. -/
def expand (entry : Pending) : List Pending :=
  entry.node.operands.map ({ node := · }) ++ [{ entry with expanded := true }]

/-- How many results a node finds on the stack that are meant for it. -/
def takes (entry : Pending) : Nat :=
  if entry.expanded then entry.node.operands.length else 0

/-- With so many results on the stack every pending node finds those of its operands, and in
the end one result is left. -/
def Balanced : List Pending → Nat → Prop
  | [], count => count = 1
  | entry :: pending, count => entry.takes ≤ count ∧ Balanced pending (count - entry.takes + 1)

/-- A bound on the steps that a node and its operands still take. -/
def cost (entry : Pending) : Nat :=
  if entry.expanded then 1 else 2 * entry.node.size

/-- A bound on the steps that all pending nodes still take. -/
def totalCost : List Pending → Nat
  | [] => 0
  | entry :: pending => entry.cost + totalCost pending

/-- A node that does not wait takes as many results as it has operands. -/
theorem takes_of_waits {entry : Pending} (ready : entry.waits = false) :
    entry.takes = entry.node.operands.length := by
  obtain ⟨node, expanded⟩ := entry
  cases expanded with
  | true => rfl
  | false =>
    have none : node.operands = [] := by simpa [waits] using ready
    simp [takes, none]

/-- Nodes put on the work list leave one result each. -/
theorem balanced_append {pending : List Pending} (es : List Expr) (count : Nat) :
    Balanced (es.map ({ node := · }) ++ pending) count ↔ Balanced pending (count + es.length) := by
  induction es generalizing count with
  | nil => rfl
  | cons e es ih =>
    have same : count + 1 + es.length = count + (es.length + 1) := by omega
    simp [Balanced, takes, ih, same]

/-- Putting its operands in front of a node keeps the balance. -/
theorem balanced_expand {entry : Pending} {pending : List Pending} {count : Nat}
    (waits : entry.waits = true) (balanced : Balanced (entry :: pending) count) :
    Balanced (entry.expand ++ pending) count := by
  have fresh : entry.expanded = false := by
    simp only [Pending.waits, Bool.and_eq_true, Bool.not_eq_true'] at waits
    exact waits.1
  have rest : Balanced pending (count + 1) := by simpa [takes, fresh] using balanced.2
  rw [expand, List.append_assoc, balanced_append]
  exact ⟨by simp [takes], by simpa [takes] using rest⟩

/-- A node that does not wait finds one result for each operand. -/
theorem length_taken {entry : Pending} {pending : List Pending} {results : List α}
    (ready : entry.waits = false) (balanced : Balanced (entry :: pending) results.length) :
    (results.take entry.node.operands.length).reverse.length = entry.node.operands.length := by
  have enough := balanced.1
  rw [takes_of_waits ready] at enough
  rw [List.length_reverse, List.length_take, Nat.min_eq_left enough]

/-- A node that does not wait leaves one result in place of those of its operands. -/
theorem balanced_leave {entry : Pending} {pending : List Pending} {results : List α}
    (ready : entry.waits = false) (balanced : Balanced (entry :: pending) results.length)
    (result : α) :
    Balanced pending (result :: results.drop entry.node.operands.length).length := by
  have rest := balanced.2
  rw [takes_of_waits ready] at rest
  simpa using rest

/-- Putting its operands in front of a node takes one step off the bound. -/
theorem totalCost_expand {entry : Pending} (waits : entry.waits = true) (pending : List Pending) :
    totalCost (entry.expand ++ pending) < totalCost (entry :: pending) := by
  obtain ⟨node, expanded⟩ := entry
  simp only [Pending.waits, Bool.and_eq_true, Bool.not_eq_true'] at waits
  obtain ⟨rfl, some⟩ := waits
  cases node with
  | lit v | var x | input s => simp [operands] at some
  | load e | unary op e =>
    simp [expand, operands, totalCost, cost, size]
    omega
  | binary op l r =>
    simp [expand, operands, totalCost, cost, size]
    omega

/-- Every pending node takes at least one step. -/
theorem cost_pos (entry : Pending) : 0 < entry.cost := by
  have positive : 0 < entry.node.size := by cases entry.node <;> simp [size]
  unfold cost
  split <;> omega

end Pending

/-- Applies an algebra with a work list of nodes and a stack of results, the last one on top.
A node whose operands are still to come is put back behind them; any other node takes the
results of its operands off the stack and leaves its own there. -/
@[specialize]
def walk (alg : Algebra m α) (pending : List Pending) (results : List α)
    (balanced : Pending.Balanced pending results.length) : m α :=
  match pending, balanced with
  | [], single => pure (results.head (List.ne_nil_of_length_eq_add_one single))
  | entry :: pending, balanced =>
    if waits : entry.waits then
      walk alg (entry.expand ++ pending) results (Pending.balanced_expand waits balanced)
    else do
      have ready : entry.waits = false := by simpa using waits
      let count := entry.node.operands.length
      let result ← alg.node entry.node (results.take count).reverse
        (Pending.length_taken ready balanced)
      walk alg pending (result :: results.drop count)
        (Pending.balanced_leave ready balanced result)
termination_by Pending.totalCost pending
decreasing_by
  · exact Pending.totalCost_expand waits pending
  · exact Nat.lt_add_of_pos_left entry.cost_pos

/-- Once nothing is pending, the one result on the stack is the answer. -/
theorem walk_done (alg : Algebra m α) (results : List α)
    (single : Pending.Balanced [] results.length) :
    walk alg [] results single =
      pure (results.head (List.ne_nil_of_length_eq_add_one single)) := by
  rw [walk]

/-- A node that does not wait is computed from the results of its operands. -/
theorem walk_ready (alg : Algebra m α) {entry : Pending} {pending : List Pending}
    {results : List α} (ready : entry.waits = false)
    (balanced : Pending.Balanced (entry :: pending) results.length) :
    walk alg (entry :: pending) results balanced =
      alg.node entry.node (results.take entry.node.operands.length).reverse
          (Pending.length_taken ready balanced) >>= fun result =>
        walk alg pending (result :: results.drop entry.node.operands.length)
          (Pending.balanced_leave ready balanced result) := by
  rw [walk, dif_neg (by simp [ready])]

/-- A node that waits is put back behind its operands. -/
theorem walk_waits (alg : Algebra m α) {entry : Pending} {pending : List Pending}
    {results : List α} (waits : entry.waits = true)
    (balanced : Pending.Balanced (entry :: pending) results.length) :
    walk alg (entry :: pending) results balanced =
      walk alg (entry.expand ++ pending) results (Pending.balanced_expand waits balanced) := by
  rw [walk, dif_pos waits]

/-- Working through a node is applying the algebra to it, leaving the result on the stack, and
going on with what is pending. -/
theorem walk_node [LawfulMonad m] (alg : Algebra m α) (e : Expr) (pending : List Pending)
    (results : List α) (balanced : Pending.Balanced ({ node := e } :: pending) results.length) :
    walk alg ({ node := e } :: pending) results balanced =
      fold alg e >>= fun result => walk alg pending (result :: results) balanced.2 := by
  induction e generalizing pending results with
  | lit v => exact walk_ready alg rfl balanced
  | var x => exact walk_ready alg rfl balanced
  | input s => exact walk_ready alg rfl balanced
  | load e ih =>
    rw [walk_waits alg rfl balanced, fold, bind_assoc]
    refine (ih _ _ _).trans ?_
    congr 1; funext result
    exact walk_ready alg rfl _
  | unary op e ih =>
    rw [walk_waits alg rfl balanced, fold, bind_assoc]
    refine (ih _ _ _).trans ?_
    congr 1; funext result
    exact walk_ready alg rfl _
  | binary op l r ihl ihr =>
    rw [walk_waits alg rfl balanced, fold, bind_assoc]
    refine (ihl _ _ _).trans ?_
    congr 1; funext left
    rw [bind_assoc]
    refine (ihr _ _ _).trans ?_
    congr 1; funext right
    exact walk_ready alg rfl _

/-- The walk over a whole expression. -/
def traverse (alg : Algebra m α) (e : Expr) : m α :=
  walk alg [{ node := e }] [] ⟨Nat.le_refl 0, rfl⟩

/-- The walk computes what the recursion does. -/
theorem traverse_eq_fold [LawfulMonad m] (alg : Algebra m α) (e : Expr) :
    traverse alg e = fold alg e := by
  calc traverse alg e
      = fold alg e >>= fun result => walk alg [] [result] rfl := walk_node alg e [] [] _
    _ = fold alg e >>= pure := by
      congr 1; funext result
      exact walk_done alg [result] _
    _ = fold alg e := bind_pure _

end FlatIL.Expr
