import FlatIL.Proofs.Atomicity

/-!
# Which faults arise

Evaluating an expression ends in a fault of a read or of a division, and what it could not read has
a name that stands in the expression. Statements add two faults of their own: a jump that leads
outside the program, and an assertion that fails where it stands.
-/

namespace FlatIL

/-- The faults that evaluating an expression with some names can end in. -/
inductive Expr.Raises (names : List String) : Fault → Prop where
  | undefinedVariable {x : String} (named : x ∈ names) : Raises names (.undefinedVariable x)
  | unwrittenAddress (address : Word) : Raises names (.unwrittenAddress address)
  | divideByZero (op : BinaryOp) (dividend : Word) : Raises names (.divideByZero op dividend)
  | inputExhausted {source : String} (named : source ∈ names) (count : Nat) :
      Raises names (.inputExhausted source count)
  | unknownSource {source : String} (named : source ∈ names) (available : List String) :
      Raises names (.unknownSource source available)

/-- More names can only add faults. -/
theorem Expr.Raises.mono {names more : List String} {fault : Fault} (raises : Raises names fault)
    (contained : names ⊆ more) : Raises more fault := by
  cases raises with
  | undefinedVariable named => exact .undefinedVariable (contained named)
  | unwrittenAddress address => exact .unwrittenAddress address
  | divideByZero op dividend => exact .divideByZero op dividend
  | inputExhausted named count => exact .inputExhausted (contained named) count
  | unknownSource named available => exact .unknownSource (contained named) available

/-- An operator faults only on a zero divisor. -/
theorem BinaryOp.raises_of_apply {op : BinaryOp} {left right : Word} {fault : Fault}
    (faulted : op.apply left right = .error fault) (names : List String) :
    Expr.Raises names fault := by
  cases op with
  | div | mod =>
    simp only [apply] at faulted
    split at faulted
    · obtain rfl := Except.error.inj faulted
      exact .divideByZero _ left
    · cases faulted
  | add | sub | mul | eq | ne | lt | le | and | or | xor => cases faulted

/-- A read of an input source faults by its name. -/
theorem Inputs.raises_of_read {inputs rest : Inputs} {source : String} {fault : Fault}
    (faulted : inputs.read source = (.error fault, rest)) : Expr.Raises [source] fault := by
  obtain ⟨-, read⟩ | ⟨stream, -, ⟨-, read⟩ | ⟨value, -, read⟩⟩ := inputs.read_cases source
  · cases read.symm.trans faulted
    exact .unknownSource List.mem_cons_self _
  · cases read.symm.trans faulted
    exact .inputExhausted List.mem_cons_self _
  · cases read.symm.trans faulted

namespace Expr

/-- A fault of an expression is one that its names allow. -/
theorem raises_of_denote {env : Env} {memory : Memory} {e : Expr} {inputs rest : Inputs}
    {fault : Fault} (faulted : e.denote env memory inputs = (.error fault, rest)) :
    Raises e.names fault := by
  induction e generalizing inputs rest with
  | lit value => cases faulted
  | var x =>
    have missing : env.lookup x = .error fault := congrArg Prod.fst faulted
    unfold Env.lookup at missing
    split at missing
    · cases missing
    · obtain rfl := Except.error.inj missing
      exact .undefinedVariable List.mem_cons_self
  | input source => exact Inputs.raises_of_read faulted
  | load address ih =>
    rw [denote] at faulted
    rcases operand : address.denote env memory inputs with ⟨fault' | a, between⟩
    · rw [operand] at faulted
      cases faulted
      exact ih operand
    · rw [operand] at faulted
      have missing : memory.lookup a = .error fault := congrArg Prod.fst faulted
      unfold Memory.lookup at missing
      split at missing
      · cases missing
      · obtain rfl := Except.error.inj missing
        exact .unwrittenAddress a
  | unary op operand ih =>
    rw [denote] at faulted
    rcases outcome : operand.denote env memory inputs with ⟨fault' | v, between⟩
    · rw [outcome] at faulted
      cases faulted
      exact ih outcome
    · rw [outcome] at faulted
      cases faulted
  | binary op left right ihLeft ihRight =>
    rw [denote] at faulted
    rcases first : left.denote env memory inputs with ⟨fault' | l, between⟩
    · rw [first] at faulted
      cases faulted
      exact (ihLeft first).mono (List.subset_append_left _ _)
    · rw [first] at faulted
      dsimp only at faulted
      rcases second : right.denote env memory between with ⟨fault' | r, behind⟩
      · rw [second] at faulted
        cases faulted
        exact (ihRight second).mono (List.subset_append_right _ _)
      · rw [second] at faulted
        exact BinaryOp.raises_of_apply (congrArg Prod.fst faulted) _

end Expr

/-- The faults that a statement at a position of a program of the given size can end in. -/
inductive Stmt.Raises (size : Nat) (pc : Int) (stmt : Stmt) : Fault → Prop where
  | evaluating {fault : Fault} (raises : Expr.Raises stmt.names fault) : Raises size pc stmt fault
  | jumping (jumps : stmt.jumps = true) (target : Word) :
      Raises size pc stmt (.invalidTarget target size)
  | asserting (jumps : stmt.jumps = false) : Raises size pc stmt (.assertionFailed pc)

/-- A fault of a statement is one that its names allow, or one of its own. -/
theorem Stmt.raises_of_action {size : Nat} {pc : Int} {env : Env} {memory : Memory} {stmt : Stmt}
    {inputs rest : Inputs} {fault : Fault}
    (acted : (stmt.action size pc env memory).run inputs = (.error fault, rest)) :
    stmt.Raises size pc fault := by
  have evaluated {e : Expr} {inputs : Inputs} (contained : e.names ⊆ stmt.names)
      (faults : e.Faults env memory inputs fault rest) : stmt.Raises size pc fault :=
    .evaluating ((Expr.raises_of_denote (Expr.denote_eq_error_iff.mpr faults)).mono contained)
  have jumped {e : Expr} {inputs : Inputs} (jumps : stmt.jumps = true)
      (contained : e.names ⊆ stmt.names)
      (faults : e.FaultsAsTarget size env memory inputs fault rest) :
      stmt.Raises size pc fault := by
    obtain faults | ⟨t, -, -, rfl⟩ := faults
    · exact evaluated contained faults
    · exact .jumping jumps t
  have faults := Stmt.action_eq_error.mp acted
  cases stmt with
  | assign target value => exact evaluated (List.subset_cons_self _ _) faults
  | store address value =>
    obtain first | ⟨a, between, -, second⟩ := faults
    · exact evaluated (List.subset_append_left _ _) first
    · exact evaluated (List.subset_append_right _ _) second
  | goto target => exact jumped rfl (List.Subset.refl _) faults
  | assert condition =>
    obtain tested | ⟨v, -, -, rfl⟩ := faults
    · exact evaluated (List.Subset.refl _) tested
    · exact .asserting rfl
  | branch condition thenTarget elseTarget =>
    have inNames {names : List String} (contained : names ⊆ thenTarget.names ++ elseTarget.names) :
        names ⊆ condition.names ++ thenTarget.names ++ elseTarget.names := by
      rw [List.append_assoc]
      exact List.Subset.trans contained (List.subset_append_right _ _)
    obtain tested | ⟨v, between, -, target⟩ := faults
    · exact evaluated (List.subset_append_of_subset_left _ (List.subset_append_left _ _)) tested
    · split at target
      · exact jumped rfl (inNames (List.subset_append_left _ _)) target
      · exact jumped rfl (inNames (List.subset_append_right _ _)) target

end FlatIL
