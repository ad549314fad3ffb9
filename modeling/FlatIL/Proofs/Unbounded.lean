import FlatIL.Proofs.Execution
import Mathlib.Data.Int.Bitwise

/-!
# The machine over the integers

Words are a type of their own, so that no value can leave their range. Here is the machine
without that: values are integers of any size, an operator reduces its result only where it is
meant to, and a jump is checked against the end of the program but not against its start. Read
as integers, every step of the machine over words is a step of this one, and so no operator takes
it out of the words.
-/

namespace FlatIL

namespace Unbounded

/-! ## The machine -/

/-- The values of a source and how many of them have been read. -/
structure Stream where
  values : List Int
  cursor : Nat

/-- Named sources in the order of their registration. -/
abbrev Sources := Table String Stream

/-- Reads the next value of a source. -/
def Sources.read (sources : Sources) (source : String) : Option Int × Sources :=
  match sources.get? source with
  | none => (none, sources)
  | some stream =>
    match stream.values[stream.cursor]? with
    | none => (none, sources)
    | some value => (some value, sources.insert source { stream with cursor := stream.cursor + 1 })

/-- The state of a run, without its fault and its count of statements, which no value comes from. -/
structure State where
  pc : Int := 0
  env : Table String Int
  memory : Table Int Int
  inputs : Sources
  status : Status := .running

/-- A computation that may read input and may fault. -/
abbrev Computing := OptionT (StateM Sources)

namespace Computing

/-- A result that may be missing. -/
def ofOption {α : Type} (result : Option α) : Computing α :=
  OptionT.mk (pure result)

/-- The next value of an input source. -/
def next (source : String) : Computing Int :=
  OptionT.mk fun sources => sources.read source

/-- Runs a computation on input sources. -/
def run {α : Type} (computing : Computing α) (sources : Sources) : Option α × Sources :=
  (OptionT.run computing).run sources

end Computing

/-- The integer whose lowest 32 bits are set. -/
def mask : Int := 4294967295

/-- The lowest 32 bits of an integer, which may be negative. -/
def wrap (n : Int) : Int :=
  Int.land n mask

/-- One for a condition that holds and zero for one that does not. -/
def indicator (condition : Bool) : Int :=
  if condition then 1 else 0

/-- Applies a binary operator to integers. Quotients are rounded down, and remainders have the
sign of the divisor. -/
def binary (op : BinaryOp) (left right : Int) : Option Int :=
  match op with
  | .add => some (wrap (left + right))
  | .sub => some (wrap (left - right))
  | .mul => some (wrap (left * right))
  | .div => if right = 0 then none else some (left.fdiv right)
  | .mod => if right = 0 then none else some (left.fmod right)
  | .eq => some (indicator (left = right))
  | .ne => some (indicator (left ≠ right))
  | .lt => some (indicator (left < right))
  | .le => some (indicator (left ≤ right))
  | .and => some (left.land right)
  | .or => some (left.lor right)
  | .xor => some (left.xor right)

/-- Applies a unary operator to an integer. -/
def unary (op : UnaryOp) (operand : Int) : Int :=
  match op with
  | .neg => wrap (-operand)
  | .not => operand.xor mask
  | .lnot => indicator (operand = 0)

/-- The value of an expression. -/
def eval (env : Table String Int) (memory : Table Int Int) : Expr → Computing Int
  | .lit value => pure value.toNat
  | .var name => .ofOption (env.get? name)
  | .input source => .next source
  | .load address => do
    let address ← eval env memory address
    .ofOption (memory.get? address)
  | .unary op operand => do
    let operand ← eval env memory operand
    return unary op operand
  | .binary op left right => do
    let left ← eval env memory left
    let right ← eval env memory right
    .ofOption (binary op left right)

/-- What a statement does once everything in it is evaluated. -/
inductive Change where
  | bind (name : String) (value : Int)
  | write (address value : Int)
  | jump (target : Int)
  | proceed

/-- A jump into a program of the given size, unless the target is at or behind its end. -/
def jumpTo (size : Nat) (target : Int) : Option Change :=
  if (size : Int) ≤ target then none else some (.jump target)

/-- The outcome of an assertion, given the value of its condition. -/
def assertion (condition : Int) : Option Change :=
  if condition = 0 then none else some .proceed

/-- What a statement of a program of the given size does. -/
def action (size : Nat) (env : Table String Int) (memory : Table Int Int) :
    Stmt → Computing Change
  | .assign target value => do
    let value ← eval env memory value
    return .bind target value
  | .store address value => do
    let address ← eval env memory address
    let value ← eval env memory value
    return .write address value
  | .goto target => do
    let target ← eval env memory target
    .ofOption (jumpTo size target)
  | .assert condition => do
    let condition ← eval env memory condition
    .ofOption (assertion condition)
  | .branch condition thenTarget elseTarget => do
    let condition ← eval env memory condition
    let target ← eval env memory (if condition = 0 then elseTarget else thenTarget)
    .ofOption (jumpTo size target)

namespace State

/-- Carries out a change. -/
def apply (s : State) : Change → State
  | .bind name value => { s with env := s.env.insert name value, pc := s.pc + 1 }
  | .write address value => { s with memory := s.memory.insert address value, pc := s.pc + 1 }
  | .jump target => { s with pc := target }
  | .proceed => { s with pc := s.pc + 1 }

/-- Ends the run with success if it has come to the end of a program of the given size. -/
def settle (s : State) (size : Nat) : State :=
  if s.pc = size then { s with status := .succeeded } else s

end State

/-- Executes the next statement. -/
def step (p : Program) (s : State) : Except CounterError State :=
  if s.status ≠ .running then .ok s
  else if s.pc < 0 ∨ p.size < s.pc then .error { pc := s.pc, size := p.size }
  else
    match p.statements[s.pc.toNat]? with
    | none => .ok { s with status := .succeeded }
    | some stmt =>
      match (action p.size s.env s.memory stmt).run s.inputs with
      | (none, inputs) => .ok { s with inputs, status := .failed }
      | (some change, inputs) => .ok ((({ s with inputs } : State).apply change).settle p.size)

/-- Executes a number of statements. -/
def steps (p : Program) : Nat → State → Except CounterError State
  | 0, s => .ok s
  | n + 1, s => do
    let t ← step p s
    steps p n t

end Unbounded

/-! ## Words as integers -/

/-- The integer that a word stands for. -/
def Word.integer (w : Word) : Int :=
  w.toNat

/-- Words that stand for one integer are one word. -/
theorem Word.integer_inj (v w : Word) (same : v.integer = w.integer) : v = w :=
  UInt32.toNat_inj.mp (Int.ofNat.inj same)

/-- A word stands for zero exactly if it is zero. -/
theorem Word.integer_eq_zero {w : Word} : w.integer = 0 ↔ w = 0 :=
  ⟨Word.integer_inj w 0, fun zero => zero ▸ rfl⟩

/-- A word stands for a nonnegative integer below `2 ^ 32`. -/
theorem Word.integer_bounds (w : Word) : 0 ≤ w.integer ∧ w.integer < 2 ^ 32 :=
  ⟨Int.natCast_nonneg _, Int.ofNat_lt.mpr w.toNat_lt⟩

/-- A source with its values as integers. -/
def InputStream.integers (stream : InputStream) : Unbounded.Stream where
  values := stream.values.map Word.integer
  cursor := stream.cursor

/-- Sources with their values as integers. -/
def Inputs.integers (inputs : Inputs) : Unbounded.Sources :=
  inputs.map id (fun _ _ same => same) InputStream.integers

/-- Variables with their values as integers. -/
def Env.integers (env : Env) : Table String Int :=
  env.map id (fun _ _ same => same) Word.integer

/-- Memory cells with their addresses and contents as integers. -/
def Memory.integers (memory : Memory) : Table Int Int :=
  memory.map Word.integer Word.integer_inj Word.integer

/-- Registering a source registers its values as integers. -/
theorem Inputs.integers_insert (inputs : Inputs) (source : String) (stream : InputStream) :
    Inputs.integers (inputs.insert source stream) =
      inputs.integers.insert source stream.integers :=
  Table.map_insert id _ InputStream.integers inputs source stream

/-- Binding a variable binds it to an integer. -/
theorem Env.integers_insert (env : Env) (name : String) (value : Word) :
    Env.integers (env.insert name value) = env.integers.insert name value.integer :=
  Table.map_insert id _ Word.integer env name value

/-- Writing a memory cell writes an integer at an integer. -/
theorem Memory.integers_insert (memory : Memory) (address value : Word) :
    Memory.integers (memory.insert address value) =
      memory.integers.insert address.integer value.integer :=
  Table.map_insert Word.integer _ Word.integer memory address value

/-- A change with its values as integers. -/
def Change.integers : Change → Unbounded.Change
  | bind name value => .bind name value.integer
  | write address value => .write address.integer value.integer
  | jump target => .jump target.integer
  | proceed => .proceed

/-- A state with all its values as integers. -/
def State.integers (s : State) : Unbounded.State where
  pc := s.pc
  env := s.env.integers
  memory := s.memory.integers
  inputs := s.inputs.integers
  status := s.status

namespace State

variable (s : State)

@[simp] theorem integers_pc : s.integers.pc = s.pc := rfl

@[simp] theorem integers_env : s.integers.env = s.env.integers := rfl

@[simp] theorem integers_memory : s.integers.memory = s.memory.integers := rfl

@[simp] theorem integers_inputs : s.integers.inputs = s.inputs.integers := rfl

@[simp] theorem integers_status : s.integers.status = s.status := rfl

end State

/-! ## Operators -/

namespace Unbounded

/-- The lowest 32 bits of an integer are its remainder modulo `2 ^ 32`, also below zero. -/
theorem wrap_eq_emod (n : Int) : wrap n = n % 2 ^ 32 := by
  unfold wrap mask
  cases n with
  | ofNat m =>
    have low := Nat.and_two_pow_sub_one_eq_mod m 32
    change ((m &&& 4294967295 : Nat) : Int) = _
    rw [low]
    rfl
  | negSucc m =>
    -- The bits of a negative integer are the complement of those of a natural number.
    have low : Nat.ldiff 4294967295 m = 2 ^ 32 - (m % 2 ^ 32 + 1) := by
      apply Nat.eq_of_testBit_eq
      intro i
      have ones : (4294967295 : Nat) = 2 ^ 32 - 1 := by decide
      rw [Nat.testBit_two_pow_sub_succ (Nat.mod_lt _ (by decide)), Nat.testBit_ldiff,
        Nat.testBit_mod_two_pow, ones, Nat.testBit_two_pow_sub_one]
      by_cases inside : i < 32 <;> simp [inside]
    change ((Nat.ldiff 4294967295 m : Nat) : Int) = _
    rw [low]
    omega

/-- A condition is the same word and the same integer. -/
theorem integer_ofBool (condition : Bool) :
    (Word.ofBool condition).integer = indicator condition := by
  cases condition <;> rfl

/-- Binary operators do to words what they do to the integers that these stand for. -/
theorem binary_integer (op : BinaryOp) (left right : Word) :
    binary op left.integer right.integer = (op.apply left right).toOption.map Word.integer := by
  have bound := right.toNat_lt
  cases op with
  | add =>
    have sum : (left + right).integer = wrap (left.integer + right.integer) := by
      rw [wrap_eq_emod, Word.integer, UInt32.toNat_add]
      rfl
    exact congrArg some sum.symm
  | sub =>
    have difference : (left - right).integer = wrap (left.integer - right.integer) := by
      rw [wrap_eq_emod, Word.integer, UInt32.toNat_sub, Word.integer, Word.integer]
      omega
    exact congrArg some difference.symm
  | mul =>
    have product : (left * right).integer = wrap (left.integer * right.integer) := by
      rw [wrap_eq_emod, Word.integer, UInt32.toNat_mul]
      rfl
    exact congrArg some product.symm
  | div =>
    by_cases zero : right = 0
    · simp [binary, BinaryOp.apply, zero, Word.integer_eq_zero, Except.toOption]
    · have quotient : left.integer.fdiv right.integer = (left / right).integer := by
        rw [Int.fdiv_eq_ediv_of_nonneg _ right.integer_bounds.1]
        rfl
      simp [binary, BinaryOp.apply, zero, Word.integer_eq_zero, Except.toOption, quotient]
  | mod =>
    by_cases zero : right = 0
    · simp [binary, BinaryOp.apply, zero, Word.integer_eq_zero, Except.toOption]
    · have remainder : left.integer.fmod right.integer = (left % right).integer := by
        rw [Int.fmod_eq_emod_of_nonneg _ right.integer_bounds.1]
        rfl
      simp [binary, BinaryOp.apply, zero, Word.integer_eq_zero, Except.toOption, remainder]
  | eq =>
    have same : decide (left.integer = right.integer) = (left == right) := by
      by_cases equal : left = right
      · simp [equal]
      · simp [equal, mt (Word.integer_inj left right) equal]
    simp [binary, BinaryOp.apply, Except.toOption, integer_ofBool, same]
  | ne =>
    have apart : decide (left.integer ≠ right.integer) = (left != right) := by
      by_cases equal : left = right
      · simp [equal]
      · simp [equal, mt (Word.integer_inj left right) equal]
    simp only [binary, BinaryOp.apply, Except.toOption, Option.map_some, integer_ofBool, apart]
  | lt =>
    have less : decide (left.integer < right.integer) = decide (left < right) :=
      decide_eq_decide.mpr (Int.ofNat_lt.trans UInt32.lt_iff_toNat_lt.symm)
    simp only [binary, BinaryOp.apply, Except.toOption, Option.map_some, integer_ofBool, less]
  | le =>
    have less : decide (left.integer ≤ right.integer) = decide (left ≤ right) :=
      decide_eq_decide.mpr (Int.ofNat_le.trans UInt32.le_iff_toNat_le.symm)
    simp only [binary, BinaryOp.apply, Except.toOption, Option.map_some, integer_ofBool, less]
  | and | or | xor => rfl

/-- Unary operators do to a word what they do to the integer that it stands for. -/
theorem unary_integer (op : UnaryOp) (operand : Word) :
    unary op operand.integer = (op.apply operand).integer := by
  have bound := operand.toNat_lt
  cases op with
  | neg =>
    change wrap (-operand.integer) = (-operand).integer
    have size : UInt32.size = 2 ^ 32 := rfl
    rw [wrap_eq_emod, Word.integer, Word.integer, UInt32.toNat_neg, size]
    omega
  | not =>
    have flipped : operand.toNat ^^^ 4294967295 = (~~~operand).toNat := by
      have bits := congrArg BitVec.toNat (BitVec.xor_allOnes (x := operand.toBitVec))
      rw [BitVec.toNat_xor] at bits
      exact bits
    exact congrArg Int.ofNat flipped
  | lnot =>
    have zero : decide (operand.integer = 0) = (operand == 0) := by
      by_cases zero : operand = 0 <;> simp [zero, Word.integer_eq_zero]
    simp only [unary, UnaryOp.apply, integer_ofBool, zero]

/-! ## Computations -/

/-- Reading integers is reading words. -/
theorem read_integers (inputs : Inputs) (source : String) :
    inputs.integers.read source =
      ((inputs.read source).1.toOption.map Word.integer, (inputs.read source).2.integers) := by
  have found : inputs.integers.get? source = (inputs.get? source).map InputStream.integers :=
    Table.get?_map id _ InputStream.integers inputs source
  obtain ⟨missing, unknown⟩ | ⟨stream, registered, read⟩ := inputs.read_cases source
  · simp only [Sources.read, found, missing, unknown]
    rfl
  · have item : stream.integers.values[stream.integers.cursor]? =
        (stream.values[stream.cursor]?).map Word.integer := List.getElem?_map
    simp only [Sources.read, found, registered, Option.map_some, item]
    obtain ⟨spent, exhausted⟩ | ⟨value, held, advanced⟩ := read
    · rw [spent, exhausted]
      rfl
    · rw [held, advanced]
      refine congrArg (some value.integer, ·) (Eq.symm ?_)
      exact inputs.integers_insert source _

namespace Computing

variable {α β γ δ : Type}

/-- Running one computation after another goes on from the sources that the first one leaves,
unless it faults. -/
theorem run_bind (computing : Computing α) (after : α → Computing β) (sources : Sources) :
    (computing >>= after).run sources =
      match computing.run sources with
      | (some value, sources) => (after value).run sources
      | (none, sources) => (none, sources) := by
  simp only [run, OptionT.run_bind, Option.elimM, StateT.run_bind]
  change Id.run _ = _
  rcases outcome : StateT.run (OptionT.run computing) sources with ⟨_ | value, rest⟩
  · rfl
  · rfl

/-- A computation over integers does what one over words does: it gives the same value, changed
by `f`, or faults as well, and leaves the same sources. -/
def Follows (f : α → β) (reading : Reading α) (computing : Computing β) : Prop :=
  ∀ inputs : Inputs, computing.run inputs.integers =
    ((reading.run inputs).1.toOption.map f, (reading.run inputs).2.integers)

/-- A value follows a value. -/
theorem Follows.pure (f : α → β) (value : α) :
    Follows f (Pure.pure value) (Pure.pure (f value)) :=
  fun _ => rfl

/-- A result that may be missing follows one that may be a fault. -/
theorem Follows.ofOption {f : α → β} {result : Except Fault α} {result' : Option β}
    (same : result' = result.toOption.map f) :
    Follows f (Reading.ofExcept result) (ofOption result') :=
  fun inputs => congrArg (·, inputs.integers) same

/-- One computation after another follows one after another. -/
theorem Follows.bind {f : α → β} {g : γ → δ} {reading : Reading α} {computing : Computing β}
    {after : α → Reading γ} {after' : β → Computing δ} (first : Follows f reading computing)
    (second : ∀ value, Follows g (after value) (after' (f value))) :
    Follows g (reading >>= after) (computing >>= after') := by
  intro inputs
  rw [run_bind, Reading.run_bind, first inputs]
  rcases reading.run inputs with ⟨fault | value, rest⟩
  · rfl
  · exact second value rest

/-- Reading integers follows reading words. -/
theorem Follows.next (source : String) :
    Follows Word.integer (Reading.next source) (Computing.next source) :=
  fun inputs => read_integers inputs source

end Computing

open Computing (Follows)

/-- Evaluation over integers follows evaluation over words. -/
theorem eval_follows (env : Env) (memory : Memory) (e : Expr) :
    Follows Word.integer (e.eval env memory) (eval env.integers memory.integers e) := by
  rw [Expr.eval, Expr.traverse_eq_fold]
  induction e with
  | lit value => exact .pure Word.integer value
  | var name =>
    refine .ofOption ((Table.get?_map id _ Word.integer env name).trans ?_)
    rw [Env.lookup]
    cases env.get? name <;> rfl
  | input source => exact .next source
  | load address ih =>
    refine ih.bind fun a => .ofOption ?_
    refine (Table.get?_map Word.integer _ Word.integer memory a).trans ?_
    rw [Memory.lookup]
    cases memory.get? a <;> rfl
  | unary op operand ih =>
    refine ih.bind fun v => ?_
    rw [unary_integer]
    exact .pure Word.integer (op.apply v)
  | binary op left right ihLeft ihRight =>
    exact ihLeft.bind fun l => ihRight.bind fun r => .ofOption (binary_integer op l r)

/-- A jump over integers follows a jump over words: a word is never in front of the program. -/
theorem jumpTo_integer (size : Nat) (target : Word) :
    jumpTo size target.integer =
      (FlatIL.Change.jumpTo size target).toOption.map FlatIL.Change.integers := by
  unfold jumpTo FlatIL.Change.jumpTo
  have bounds : (size : Int) ≤ target.integer ↔ ¬ target.toNat < size := by
    rw [Word.integer]
    omega
  by_cases inside : target.toNat < size
  · rw [if_neg (by simpa [bounds] using inside), if_pos inside]
    rfl
  · rw [if_pos (bounds.mpr inside), if_neg inside]
    rfl

/-- An assertion over integers follows an assertion over words. -/
theorem assertion_integer (pc : Int) (condition : Word) :
    assertion condition.integer =
      (FlatIL.Change.assertion pc condition).toOption.map FlatIL.Change.integers := by
  unfold assertion FlatIL.Change.assertion
  by_cases zero : condition = 0
  · simp [zero, Word.truth, Word.integer_eq_zero, Except.toOption]
  · simp [zero, Word.truth, Word.integer_eq_zero, Except.toOption, FlatIL.Change.integers]

/-- A statement over integers follows a statement over words. -/
theorem action_follows (size : Nat) (pc : Int) (env : Env) (memory : Memory) (stmt : Stmt) :
    Follows FlatIL.Change.integers (stmt.action size pc env memory)
      (action size env.integers memory.integers stmt) := by
  have evaluated := eval_follows env memory
  have jump (target : Expr) : Follows FlatIL.Change.integers
      (target.eval env memory >>= fun t => Reading.ofExcept (FlatIL.Change.jumpTo size t))
      (eval env.integers memory.integers target >>= fun t => Computing.ofOption (jumpTo size t)) :=
    (evaluated target).bind fun t => .ofOption (jumpTo_integer size t)
  cases stmt with
  | assign target value =>
    exact (evaluated value).bind fun v => .pure FlatIL.Change.integers (.bind target v)
  | store address value =>
    exact (evaluated address).bind fun a => (evaluated value).bind fun v =>
      .pure FlatIL.Change.integers (.write a v)
  | goto target => exact jump target
  | assert condition =>
    exact (evaluated condition).bind fun v => .ofOption (assertion_integer pc v)
  | branch condition thenTarget elseTarget =>
    refine (evaluated condition).bind fun v => ?_
    have chosen : (if v.integer = 0 then elseTarget else thenTarget) =
        if v.truth then thenTarget else elseTarget := by
      by_cases zero : v = 0 <;> simp [zero, Word.truth, Word.integer_eq_zero]
    rw [chosen]
    exact jump _

/-! ## Steps -/

/-- Carrying out a change over integers is carrying it out over words. -/
theorem integers_apply (s : FlatIL.State) (change : FlatIL.Change) :
    (s.apply change).integers = s.integers.apply change.integers := by
  cases change with
  | bind name value =>
    have bound := s.env.integers_insert name value
    exact congrArg (fun env => { s.integers with env, pc := s.pc + 1 }) bound
  | write address value =>
    have written := s.memory.integers_insert address value
    exact congrArg (fun memory => { s.integers with memory, pc := s.pc + 1 }) written
  | jump target => rfl
  | proceed => rfl

/-- Settling a state over integers is settling it over words. -/
theorem integers_settle (s : FlatIL.State) (size : Nat) :
    (s.settle size).integers = s.integers.settle size := by
  unfold FlatIL.State.settle State.settle
  by_cases atEnd : s.pc = size
  · rw [if_pos atEnd, if_pos (s.integers_pc.trans atEnd)]
    rfl
  · rw [if_neg atEnd, if_neg (s.integers_pc ▸ atEnd)]

/-- A step over integers is a step over words. -/
theorem step_integers (p : Program) (s : FlatIL.State) :
    step p s.integers = (p.step s).map FlatIL.State.integers := by
  unfold step Program.step
  have ended : s.integers.status ≠ .running ↔ s.isHalted = true := by
    simp [FlatIL.State.isHalted]
  have escaped : s.integers.pc < 0 ∨ p.size < s.integers.pc ↔ s.pc < 0 ∨ p.size < s.pc := .rfl
  by_cases halted : s.isHalted = true
  · rw [if_pos (ended.mpr halted), if_pos halted]
    rfl
  · rw [if_neg (mt ended.mp halted), if_neg halted]
    by_cases outside : s.pc < 0 ∨ p.size < s.pc
    · rw [if_pos (escaped.mpr outside), if_pos outside]
      rfl
    · rw [if_neg (mt escaped.mp outside), if_neg outside]
      simp only [FlatIL.State.integers_pc, FlatIL.State.integers_env,
        FlatIL.State.integers_memory, FlatIL.State.integers_inputs]
      cases p.statements[s.pc.toNat]? with
      | none => rfl
      | some stmt =>
        dsimp only
        rw [action_follows p.size s.pc s.env s.memory stmt s.inputs]
        rcases (stmt.action p.size s.pc s.env s.memory).run s.inputs with ⟨fault | change, inputs⟩
        · rfl
        · have settled := integers_settle ((s.count inputs).apply change) p.size
          rw [integers_apply] at settled
          exact congrArg Except.ok settled.symm

end Unbounded

end FlatIL
