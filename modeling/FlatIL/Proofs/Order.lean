import FlatIL.Eval

/-!
# The order of evaluation

The post-order listing of an expression is worked through from its first node to its last, with
the values found so far on a stack. `Works` says how that goes: every node takes the values of
its operands off the stack and leaves its own there, and the first node that faults ends it.
An expression has a value or a fault exactly if working through its listing gives it, so the
fault of an expression is the first one in this order.
-/

namespace FlatIL.Expr

namespace Node

/-- What a node gives from a stack and the input sources: its value or its fault, with the stack
below its operands and the sources that it leaves. -/
inductive Gives (env : Env) (memory : Memory) :
    Node → List Word → Inputs → Except Fault Word → List Word → Inputs → Prop where
  | lit {value : Word} {stack : List Word} {inputs : Inputs} :
      Gives env memory (.lit value) stack inputs (.ok value) stack inputs
  | var {name : String} {stack : List Word} {inputs : Inputs} :
      Gives env memory (.var name) stack inputs (env.lookup name) stack inputs
  | input {source : String} {stack : List Word} {inputs : Inputs} :
      Gives env memory (.input source) stack inputs (inputs.read source).1 stack
        (inputs.read source).2
  | load {address : Word} {stack : List Word} {inputs : Inputs} :
      Gives env memory .load (address :: stack) inputs (memory.lookup address) stack inputs
  | unary {op : UnaryOp} {operand : Word} {stack : List Word} {inputs : Inputs} :
      Gives env memory (.unary op) (operand :: stack) inputs (.ok (op.apply operand)) stack inputs
  | binary {op : BinaryOp} {left right : Word} {stack : List Word} {inputs : Inputs} :
      Gives env memory (.binary op) (right :: left :: stack) inputs (op.apply left right) stack
        inputs

/-- How working through nodes ends: with the stack after the last one, or with the fault of the
first one that has a fault, and with the sources as they are then. -/
inductive Works (env : Env) (memory : Memory) :
    List Node → List Word → Inputs → Except Fault (List Word) → Inputs → Prop where
  /-- No node is left. -/
  | done {stack : List Word} {inputs : Inputs} :
      Works env memory [] stack inputs (.ok stack) inputs
  /-- The next node faults, and those behind it are not worked through. -/
  | faults {node : Node} {nodes : List Node} {stack left : List Word} {inputs rest : Inputs}
      {fault : Fault} (gives : node.Gives env memory stack inputs (.error fault) left rest) :
      Works env memory (node :: nodes) stack inputs (.error fault) rest
  /-- The next node has a value, with which the others are worked through. -/
  | goesOn {node : Node} {nodes : List Node} {stack left : List Word}
      {inputs between rest : Inputs} {value : Word} {result : Except Fault (List Word)}
      (gives : node.Gives env memory stack inputs (.ok value) left between)
      (works : Works env memory nodes (value :: left) between result rest) :
      Works env memory (node :: nodes) stack inputs result rest

variable {env : Env} {memory : Memory} {stack : List Word} {inputs rest : Inputs}

/-- A node gives one thing only. -/
theorem Gives.unique {node : Node} {result result' : Except Fault Word} {left left' : List Word}
    {rest' : Inputs} (gives : node.Gives env memory stack inputs result left rest)
    (gives' : node.Gives env memory stack inputs result' left' rest') :
    result = result' ∧ left = left' ∧ rest = rest' := by
  cases gives <;> cases gives' <;> exact ⟨rfl, rfl, rfl⟩

/-- Working through nodes ends in one way only. -/
theorem Works.unique {nodes : List Node} {result result' : Except Fault (List Word)}
    {rest' : Inputs} (works : Works env memory nodes stack inputs result rest)
    (works' : Works env memory nodes stack inputs result' rest') :
    result = result' ∧ rest = rest' := by
  induction works with
  | done =>
    cases works'
    exact ⟨rfl, rfl⟩
  | faults gives =>
    cases works' with
    | faults gives' =>
      obtain ⟨same, -, rfl⟩ := gives.unique gives'
      exact ⟨congrArg Except.error (Except.error.inj same), rfl⟩
    | goesOn gives' _ => cases (gives.unique gives').1
  | goesOn gives _ ih =>
    cases works' with
    | faults gives' => cases (gives.unique gives').1
    | goesOn gives' works' =>
      obtain ⟨same, rfl, rfl⟩ := gives.unique gives'
      obtain rfl := Except.ok.inj same
      exact ih works'

/-- Nodes behind some that all have values are worked through from what those leave. -/
theorem Works.append {nodes others : List Node} {between : List Word} {middle : Inputs}
    {result : Except Fault (List Word)}
    (works : Works env memory nodes stack inputs (.ok between) middle)
    (after : Works env memory others between middle result rest) :
    Works env memory (nodes ++ others) stack inputs result rest := by
  generalize ended : Except.ok between = result' at works
  induction works with
  | done =>
    obtain rfl := Except.ok.inj ended
    exact after
  | faults gives => cases ended
  | goesOn gives _ ih => exact .goesOn gives (ih after ended)

/-- Nodes behind one that faults are not worked through. -/
theorem Works.append_of_fault {nodes : List Node} {fault : Fault}
    (works : Works env memory nodes stack inputs (.error fault) rest) (others : List Node) :
    Works env memory (nodes ++ others) stack inputs (.error fault) rest := by
  generalize ended : Except.error fault = result at works
  induction works with
  | done => cases ended
  | faults gives =>
    obtain rfl := Except.error.inj ended
    exact .faults gives
  | goesOn gives _ ih => exact .goesOn gives (ih ended)

/-- A single node works as it gives. -/
theorem Works.single {node : Node} {result : Except Fault Word} {left : List Word}
    (gives : node.Gives env memory stack inputs result left rest) :
    Works env memory [node] stack inputs (result.map (· :: left)) rest := by
  cases result with
  | error fault => exact .faults gives
  | ok value => exact .goesOn gives .done

end Node

open Node (Works Gives)

variable {env : Env} {memory : Memory}

/-! ## Listings -/

/-- The listing of an expression stands in front of what follows it. -/
theorem postorderOnto_eq (e : Expr) (nodes : List Node) :
    e.postorderOnto nodes = e.postorder ++ nodes := by
  induction e generalizing nodes with
  | lit value | var name | input source => rfl
  | load address ih =>
    rw [postorder, postorderOnto, postorderOnto, ih, ih [Node.load], List.append_assoc]
    rfl
  | unary op operand ih =>
    rw [postorder, postorderOnto, postorderOnto, ih, ih [Node.unary op], List.append_assoc]
    rfl
  | binary op left right ihLeft ihRight =>
    rw [postorder, postorderOnto, postorderOnto, ihLeft, ihRight, ihLeft (right.postorderOnto _),
      ihRight [Node.binary op], List.append_assoc, List.append_assoc]
    rfl

/-- The address is listed before the memory read. -/
theorem postorder_load (address : Expr) :
    (load address).postorder = address.postorder ++ [.load] :=
  postorderOnto_eq address [.load]

/-- The operand is listed before its operator. -/
theorem postorder_unary (op : UnaryOp) (operand : Expr) :
    (unary op operand).postorder = operand.postorder ++ [.unary op] :=
  postorderOnto_eq operand [.unary op]

/-- The operands are listed from left to right before their operator. -/
theorem postorder_binary (op : BinaryOp) (left right : Expr) :
    (binary op left right).postorder = left.postorder ++ (right.postorder ++ [.binary op]) := by
  rw [postorder, postorderOnto, postorderOnto_eq left, postorderOnto_eq right]

/-! ## Evaluation in order -/

/-- Working through the listing of an expression puts its value on the stack, or ends with its
fault. -/
theorem works_postorder (env : Env) (memory : Memory) (e : Expr) (stack : List Word)
    (inputs : Inputs) :
    Works env memory e.postorder stack inputs
      ((e.denote env memory inputs).1.map (· :: stack)) (e.denote env memory inputs).2 := by
  -- The stack is arbitrary, since the right operand finds the value of the left one on it.
  induction e generalizing stack inputs with
  | lit value => exact .single .lit
  | var name => exact .single .var
  | input source => exact .single .input
  | load address ih =>
    have operand := ih stack inputs
    rw [postorder_load, denote]
    rcases outcome : address.denote env memory inputs with ⟨fault | a, rest⟩ <;>
      rw [outcome] at operand
    · exact operand.append_of_fault _
    · exact operand.append (.single .load)
  | unary op operand ih =>
    have first := ih stack inputs
    rw [postorder_unary, denote]
    rcases outcome : operand.denote env memory inputs with ⟨fault | v, rest⟩ <;>
      rw [outcome] at first
    · exact first.append_of_fault _
    · exact first.append (.single .unary)
  | binary op left right ihLeft ihRight =>
    have first := ihLeft stack inputs
    rw [postorder_binary, denote]
    rcases outcome : left.denote env memory inputs with ⟨fault | l, between⟩ <;>
      rw [outcome] at first
    · exact first.append_of_fault _
    · refine first.append ?_
      have second := ihRight (l :: stack) between
      dsimp only
      rcases outcome' : right.denote env memory between with ⟨fault | r, rest⟩ <;>
        rw [outcome'] at second
      · exact second.append_of_fault _
      · exact second.append (.single .binary)

/-- Working through an expression on its own leaves its value. -/
def Yields (env : Env) (memory : Memory) (e : Expr) (inputs : Inputs) (value : Word)
    (rest : Inputs) : Prop :=
  Works env memory e.postorder [] inputs (.ok [value]) rest

/-- Working through an expression on its own meets a fault. -/
def Faults (env : Env) (memory : Memory) (e : Expr) (inputs : Inputs) (fault : Fault)
    (rest : Inputs) : Prop :=
  Works env memory e.postorder [] inputs (.error fault) rest

/-- An expression has the value that working through it leaves. -/
theorem denote_eq_ok_iff {e : Expr} {inputs rest : Inputs} {value : Word} :
    e.denote env memory inputs = (.ok value, rest) ↔ e.Yields env memory inputs value rest := by
  have works := e.works_postorder env memory [] inputs
  constructor
  · intro evaluated
    rw [evaluated] at works
    exact works
  · intro yields
    obtain ⟨result, left⟩ := works.unique yields
    rcases outcome : e.denote env memory inputs with ⟨fault | v, rest'⟩ <;>
      rw [outcome] at result left
    · cases result
    · obtain rfl : v = value := by simpa [Except.map] using result
      obtain rfl : rest' = rest := left
      rfl

/-- The fault of an expression is the first one met in order. -/
theorem denote_eq_error_iff {e : Expr} {inputs rest : Inputs} {fault : Fault} :
    e.denote env memory inputs = (.error fault, rest) ↔ e.Faults env memory inputs fault rest := by
  have works := e.works_postorder env memory [] inputs
  constructor
  · intro evaluated
    rw [evaluated] at works
    exact works
  · intro faults
    obtain ⟨result, left⟩ := works.unique faults
    rcases outcome : e.denote env memory inputs with ⟨fault' | v, rest'⟩ <;>
      rw [outcome] at result left
    · obtain rfl : fault' = fault := Except.error.inj result
      obtain rfl : rest' = rest := left
      rfl
    · cases result

end FlatIL.Expr
