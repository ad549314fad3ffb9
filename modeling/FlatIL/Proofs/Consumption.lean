import FlatIL.Proofs.Evaluation
import FlatIL.Proofs.Order

/-!
# What an evaluation reads

An evaluation moves cursors and nothing else. Where it gives a value, every node of the expression
has been worked through, and each cursor has moved once for every read of its source in the
expression. Where it faults, the nodes in front of the one that faults have been worked through,
and each cursor has moved once for every read of its source among those.
-/

namespace FlatIL

/-- How often an expression reads a source. -/
def Expr.reads (source : String) : Expr → Nat
  | lit _ | var _ => 0
  | input name => if name = source then 1 else 0
  | load e | unary _ e => e.reads source
  | binary _ l r => l.reads source + r.reads source

namespace Inputs

/-- The cursor of each source is so many values further on, and no other source is there. -/
def MovedBy (before after : Inputs) (count : String → Nat) : Prop :=
  ∀ source, after.position? source = (before.position? source).map (· + count source)

/-- Cursors that stay where they are have moved by nothing. -/
theorem MovedBy.refl (inputs : Inputs) : MovedBy inputs inputs fun _ => 0 := by
  intro source
  simp

/-- Cursors that move twice have moved by both counts. -/
theorem MovedBy.trans {first second third : Inputs} {count more : String → Nat}
    (before : MovedBy first second count) (after : MovedBy second third more) :
    MovedBy first third fun source => count source + more source := by
  intro source
  rw [after source, before source, Option.map_map]
  congr 1
  funext position
  simp only [Function.comp_apply]
  omega

/-- Only how much each count is matters. -/
theorem MovedBy.congr {before after : Inputs} {count count' : String → Nat}
    (moved : MovedBy before after count) (same : ∀ source, count source = count' source) :
    MovedBy before after count' := by
  intro source
  rw [moved source, same source]

/-- A read that gives a value moves the cursor of its source past that value. -/
theorem movedBy_of_read {inputs after : Inputs} {source : String} {value : Word}
    (read : inputs.read source = (.ok value, after)) :
    MovedBy inputs after fun name => if name = source then 1 else 0 := by
  obtain ⟨-, unknown⟩ | ⟨stream, registered, ⟨-, exhausted⟩ | ⟨found, -, moved⟩⟩ :=
    inputs.read_cases source
  · cases read.symm.trans unknown
  · cases read.symm.trans exhausted
  · have left : after = inputs.insert source { stream with cursor := stream.cursor + 1 } :=
      congrArg Prod.snd (read.symm.trans moved)
    intro name
    rw [left, position?_insert]
    by_cases here : name = source
    · have cursor : inputs.position? name = some stream.cursor := by
        rw [here, position?, registered]
        rfl
      simp only [if_pos here, cursor, Option.map_some]
    · simp [here]

/-- A read that faults moves no cursor. -/
theorem eq_of_read_fault {inputs after : Inputs} {source : String} {fault : Fault}
    (read : inputs.read source = (.error fault, after)) : after = inputs := by
  obtain ⟨-, unknown⟩ | ⟨stream, -, ⟨-, exhausted⟩ | ⟨value, -, moved⟩⟩ :=
    inputs.read_cases source
  · exact congrArg Prod.snd (read.symm.trans unknown)
  · exact congrArg Prod.snd (read.symm.trans exhausted)
  · cases read.symm.trans moved

end Inputs

namespace Expr

open Node (Works Gives)

variable {env : Env} {memory : Memory} {inputs rest : Inputs}

/-! ## Nodes in order -/

namespace Node

/-- A node that has a value moves the cursor of the source that it reads, if it reads one. -/
theorem Gives.movedBy {node : Node} {stack left : List Word} {value : Word}
    (gives : node.Gives env memory stack inputs (.ok value) left rest) :
    inputs.MovedBy rest fun source => [node].count (.input source) := by
  generalize outcome : Except.ok value = result at gives
  cases gives with
  | @input source =>
    have read : inputs.read source = (.ok value, (inputs.read source).2) := by rw [outcome]
    refine (Inputs.movedBy_of_read read).congr fun name => ?_
    by_cases here : name = source
    · simp [here]
    · have other : source ≠ name := fun same => here same.symm
      simp [here, other]
  | lit | var | load | unary | binary => exact (Inputs.MovedBy.refl inputs).congr fun _ => rfl

/-- A node that faults moves no cursor. -/
theorem Gives.eq_of_fault {node : Node} {stack left : List Word} {fault : Fault}
    (gives : node.Gives env memory stack inputs (.error fault) left rest) : rest = inputs := by
  generalize outcome : Except.error fault = result at gives
  cases gives with
  | @input source =>
    have read : inputs.read source = (.error fault, (inputs.read source).2) := by rw [outcome]
    exact Inputs.eq_of_read_fault read
  | lit | var | load | unary | binary => rfl

/-- Nodes that all have values move each cursor once for every read of its source among them. -/
theorem Works.movedBy {nodes : List Node} {stack left : List Word}
    (works : Works env memory nodes stack inputs (.ok left) rest) :
    inputs.MovedBy rest fun source => nodes.count (.input source) := by
  generalize outcome : Except.ok left = result at works
  induction works with
  | done => exact .refl _
  | faults gives => cases outcome
  | @goesOn node nodes stack left inputs between rest value result gives works ih =>
    refine (gives.movedBy.trans (ih outcome)).congr fun source => ?_
    exact List.count_append.symm

/-- Nodes that do not all have values stop at the first one that faults. -/
theorem Works.exists_fault {nodes : List Node} {stack : List Word} {fault : Fault}
    (works : Works env memory nodes stack inputs (.error fault) rest) :
    ∃ finished node others top left, nodes = finished ++ node :: others ∧
      Works env memory finished stack inputs (.ok top) rest ∧
      node.Gives env memory top rest (.error fault) left rest := by
  generalize outcome : Except.error fault = result at works
  induction works with
  | done => cases outcome
  | @faults node nodes stack left inputs rest fault' gives =>
    obtain rfl : fault = fault' := Except.error.inj outcome
    obtain rfl : rest = inputs := gives.eq_of_fault
    exact ⟨[], node, nodes, stack, left, rfl, .done, gives⟩
  | @goesOn node nodes stack left inputs between rest value result gives works ih =>
    obtain ⟨finished, last, others, top, left', rfl, completed, faults⟩ := ih outcome
    exact ⟨node :: finished, last, others, top, left', rfl, .goesOn gives completed, faults⟩

end Node

/-- The listing of an expression has each read of a source once. -/
theorem count_postorder (e : Expr) (source : String) :
    e.postorder.count (.input source) = e.reads source := by
  induction e with
  | lit value | var name => rfl
  | input name => simp [postorder, postorderOnto, reads, List.count_singleton]
  | load address ih =>
    rw [postorder_load, List.count_append, ih, reads]
    rfl
  | unary op operand ih =>
    rw [postorder_unary, List.count_append, ih, reads]
    rfl
  | binary op left right ihLeft ihRight =>
    rw [postorder_binary, List.count_append, List.count_append, ihLeft, ihRight, reads]
    rfl

/-! ## The node that faults -/

/-- `e.StopsAt env memory inputs finished node fault`: in the post-order listing of the expression
the nodes `finished` have values, and the one behind them faults. -/
structure StopsAt (env : Env) (memory : Memory) (e : Expr) (inputs : Inputs)
    (finished : List Node) (node : Node) (fault : Fault) : Prop where
  listed : finished ++ [node] <+: e.postorder
  faults : ∃ top between left rest, Works env memory finished [] inputs (.ok top) between ∧
    node.Gives env memory top between (.error fault) left rest

/-- Working through an expression ends at the node where it stops. -/
theorem StopsAt.works {e : Expr} {finished : List Node} {node : Node} {fault : Fault}
    (stops : e.StopsAt env memory inputs finished node fault) (others : List Node) :
    ∃ rest, Works env memory (finished ++ node :: others) [] inputs (.error fault) rest := by
  obtain ⟨top, between, left, rest, completed, gives⟩ := stops.faults
  exact ⟨rest, completed.append (.faults gives)⟩

/-- Of two nodes where an expression stops, none stands behind the other. -/
theorem StopsAt.length_le {e : Expr} {finished finished' : List Node} {node node' : Node}
    {fault fault' : Fault} (stops : e.StopsAt env memory inputs finished node fault)
    (stops' : e.StopsAt env memory inputs finished' node' fault') :
    finished'.length ≤ finished.length := by
  apply Nat.le_of_not_lt
  intro longer
  -- The node of the shorter list would be one of the longer list, and those all have values.
  have short : (finished ++ [node]).length ≤ finished'.length := by
    rw [List.length_append, List.length_singleton]
    omega
  have inside : finished ++ [node] <+: finished' :=
    List.prefix_of_prefix_length_le stops.listed
      ((List.prefix_append finished' [node']).trans stops'.listed) short
  obtain ⟨others, rfl⟩ := inside
  obtain ⟨top, between, left, rest, completed, -⟩ := stops'.faults
  obtain ⟨rest', failed⟩ := stops.works others
  rw [List.append_assoc] at completed
  cases (completed.unique failed).1

/-- An expression stops at one node only. -/
theorem StopsAt.unique {e : Expr} {finished finished' : List Node} {node node' : Node}
    {fault fault' : Fault} (stops : e.StopsAt env memory inputs finished node fault)
    (stops' : e.StopsAt env memory inputs finished' node' fault') :
    finished' = finished ∧ node' = node := by
  have same : (finished' ++ [node']).length = (finished ++ [node]).length := by
    have one := stops.length_le stops'
    have other := stops'.length_le stops
    rw [List.length_append, List.length_append, List.length_singleton, List.length_singleton]
    omega
  have within : finished' ++ [node'] <+: finished ++ [node] :=
    List.prefix_of_prefix_length_le stops'.listed stops.listed (Nat.le_of_eq same)
  obtain ⟨front, last⟩ := List.append_inj' (within.eq_of_length same) rfl
  exact ⟨front, List.singleton_inj.mp last⟩

end Expr

/-! ## Evaluation in a state -/

/-- An evaluation changes nothing of the state but cursors. If it gives a value, the cursor of each
source has moved by the number of reads of that source in the expression. If it faults, there is
one node at which the listing of the expression stops, and the cursor of each source has moved by
the number of its reads in front of that node, which is no more than all. -/
theorem State.evaluate_consumes (s : State) (e : Expr) :
    ∃ rest, (s.evaluate e).2 = { s with inputs := rest } ∧ s.inputs.SameStreams rest ∧
      ((∃ value, (s.evaluate e).1 = .ok value ∧
          s.inputs.MovedBy rest fun source => e.reads source) ∨
        ∃ fault finished node, (s.evaluate e).1 = .error fault ∧
          e.StopsAt s.env s.memory s.inputs finished node fault ∧
          (∀ finished' node' fault', e.StopsAt s.env s.memory s.inputs finished' node' fault' →
            finished' = finished ∧ node' = node) ∧
          (s.inputs.MovedBy rest fun source => finished.count (.input source)) ∧
          ∀ source, finished.count (.input source) ≤ e.reads source) := by
  have ran := e.eval_run s.env s.memory s.inputs
  have same := e.denote_sameStreams s.env s.memory s.inputs
  have works := e.works_postorder s.env s.memory [] s.inputs
  rcases outcome : e.denote s.env s.memory s.inputs with ⟨fault | value, rest⟩ <;>
    rw [outcome] at ran same works <;>
    refine ⟨rest, by simp only [evaluate, ran], same, ?_⟩
  · obtain ⟨finished, node, others, top, left, listed, completed, gives⟩ := works.exists_fault
    have stops : e.StopsAt s.env s.memory s.inputs finished node fault :=
      ⟨⟨others, by rw [listed, List.append_assoc]; rfl⟩, top, rest, left, rest, completed, gives⟩
    refine .inr ⟨fault, finished, node, by simp only [evaluate, ran], stops,
      fun _ _ _ stops' => stops.unique stops', completed.movedBy, fun source => ?_⟩
    rw [← e.count_postorder, listed, List.count_append]
    omega
  · refine .inl ⟨value, by simp only [evaluate, ran], ?_⟩
    exact Expr.Node.Works.movedBy works |>.congr e.count_postorder

end FlatIL
