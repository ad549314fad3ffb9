import FlatIL.Eval
import FlatIL.Proofs.Table

/-!
# What expressions mean

The meaning of an expression is given by recursion over vectors of 32 bits, with
variables, memory cells and input sources as functions and the cursors passed from each
operand to the next. Evaluation, with its work list and its stack of results, is shown
to give the same value or the same first fault, and to leave the same cursors.
-/

namespace FlatIL

/-- A value as a vector of bits. -/
abbrev Bits := BitVec 32

/-- The vector that is one for a condition that holds and zero for one that does not. -/
def Bits.indicator (condition : Bool) : Bits :=
  if condition then 1 else 0

/-- The meaning of a binary operator: arithmetic modulo `2 ^ 32`, unsigned division that faults
exactly on a zero divisor, unsigned comparison that gives one or zero, and bitwise operations. -/
def BinaryOp.meaning (op : BinaryOp) (left right : Bits) : Except Fault Bits :=
  match op with
  | add => .ok (left + right)
  | sub => .ok (left - right)
  | mul => .ok (left * right)
  | div => if right = 0 then .error (.divideByZero .div (.ofBitVec left)) else .ok (left.udiv right)
  | mod => if right = 0 then .error (.divideByZero .mod (.ofBitVec left)) else .ok (left.umod right)
  | eq => .ok (Bits.indicator (left = right))
  | ne => .ok (Bits.indicator (left ≠ right))
  | lt => .ok (Bits.indicator (left.ult right))
  | le => .ok (Bits.indicator (left.ule right))
  | and => .ok (left &&& right)
  | or => .ok (left ||| right)
  | xor => .ok (left ^^^ right)

/-- The meaning of a unary operator: negation modulo `2 ^ 32`, complement of every bit, and the
test for zero. -/
def UnaryOp.meaning (op : UnaryOp) (operand : Bits) : Bits :=
  match op with
  | neg => -operand
  | not => ~~~operand
  | lnot => Bits.indicator (operand = 0)

/-- How many values of each source have been read, and nothing for a name that is no source. -/
abbrev Cursors := String → Option Nat

/-- What an evaluation reads and does not change. -/
structure Surroundings where
  /-- The values of the variables that are bound. -/
  binding : String → Option Bits
  /-- The contents of the memory cells that are written. -/
  cell : Bits → Option Bits
  /-- All values of a source, those already read included. -/
  values : String → List Bits
  /-- The names of all sources in ascending order. -/
  sources : List String

namespace Surroundings

/-- The value of a variable. -/
def lookup (around : Surroundings) (name : String) : Except Fault Bits :=
  match around.binding name with
  | some value => .ok value
  | none => .error (.undefinedVariable name)

/-- The contents of a memory cell. -/
def fetch (around : Surroundings) (address : Bits) : Except Fault Bits :=
  match around.cell address with
  | some value => .ok value
  | none => .error (.unwrittenAddress (.ofBitVec address))

/-- The next value of a source, whose cursor alone moves on. -/
def next (around : Surroundings) (source : String) (cursors : Cursors) :
    Except Fault Bits × Cursors :=
  match cursors source with
  | none => (.error (.unknownSource source around.sources), cursors)
  | some position =>
    match (around.values source)[position]? with
    | none => (.error (.inputExhausted source (around.values source).length), cursors)
    | some value =>
      (.ok value, fun name => if name = source then some (position + 1) else cursors name)

/-- What variables, memory and input sources are to an evaluation. -/
def of (env : Env) (memory : Memory) (inputs : Inputs) : Surroundings where
  binding name := (env.get? name).map UInt32.toBitVec
  cell address := (memory.get? (.ofBitVec address)).map UInt32.toBitVec
  values name := (((inputs.get? name).map (·.values)).getD []).map UInt32.toBitVec
  sources := Inputs.sortNames inputs.names

end Surroundings

/-- The meaning of an expression: operands from left to right, each with the cursors that the
one before it leaves, and no further after a fault. -/
def Expr.meaning (around : Surroundings) : Expr → Cursors → Except Fault Bits × Cursors
  | .lit value, cursors => (.ok value.toBitVec, cursors)
  | .var name, cursors => (around.lookup name, cursors)
  | .input source, cursors => around.next source cursors
  | .load address, cursors =>
    match meaning around address cursors with
    | (.error fault, cursors) => (.error fault, cursors)
    | (.ok a, cursors) => (around.fetch a, cursors)
  | .unary op operand, cursors =>
    match meaning around operand cursors with
    | (.error fault, cursors) => (.error fault, cursors)
    | (.ok v, cursors) => (.ok (op.meaning v), cursors)
  | .binary op left right, cursors =>
    match meaning around left cursors with
    | (.error fault, cursors) => (.error fault, cursors)
    | (.ok l, cursors) =>
      match meaning around right cursors with
      | (.error fault, cursors) => (.error fault, cursors)
      | (.ok r, cursors) => (op.meaning l r, cursors)

/-! ## Operators -/

/-- A condition is the same word and the same vector of bits. -/
theorem Word.toBitVec_ofBool (flag : Bool) : (Word.ofBool flag).toBitVec = Bits.indicator flag := by
  cases flag <;> rfl

/-- A word is zero exactly if its bits are. -/
theorem Word.toBitVec_eq_zero {w : Word} : w.toBitVec = 0 ↔ w = 0 :=
  UInt32.toBitVec_inj

/-- Binary operators do to words what they mean on bits. -/
theorem BinaryOp.apply_meaning (op : BinaryOp) (left right : Word) :
    (op.apply left right).map UInt32.toBitVec = op.meaning left.toBitVec right.toBitVec := by
  cases op with
  | add | sub | mul | and | or | xor => rfl
  | div | mod =>
    by_cases zero : right = 0
    · simp [apply, meaning, zero, Except.map]
    · have nonzero : ¬ right.toBitVec = 0 := fun h => zero (Word.toBitVec_eq_zero.mp h)
      rw [apply, meaning, if_neg zero, if_neg nonzero]
      rfl
  | eq =>
    have same : (left == right) = decide (left.toBitVec = right.toBitVec) := by
      rw [decide_eq_decide.mpr UInt32.toBitVec_inj]
      rfl
    rw [apply, meaning, Except.map, Word.toBitVec_ofBool, same]
  | ne =>
    have apart : (left != right) = decide (left.toBitVec ≠ right.toBitVec) := by
      rw [decide_not, decide_eq_decide.mpr UInt32.toBitVec_inj]
      rfl
    rw [apply, meaning, Except.map, Word.toBitVec_ofBool, apart]
  | lt => exact congrArg Except.ok (Word.toBitVec_ofBool _)
  | le => exact congrArg Except.ok (Word.toBitVec_ofBool _)

/-- Unary operators do to words what they mean on bits. -/
theorem UnaryOp.apply_meaning (op : UnaryOp) (operand : Word) :
    (op.apply operand).toBitVec = op.meaning operand.toBitVec := by
  cases op with
  | neg | not => rfl
  | lnot =>
    have zero : (operand == 0) = decide (operand.toBitVec = 0) := by
      rw [decide_eq_decide.mpr Word.toBitVec_eq_zero]
      rfl
    rw [apply, meaning, Word.toBitVec_ofBool, zero]

/-! ## Evaluation as recursion -/

section

variable {ε σ α β : Type} {first : ExceptT ε (StateM σ) α} {after : α → ExceptT ε (StateM σ) β}
  {s t : σ}

/-- A computation goes on from the value and the state that the one before it leaves. -/
theorem exceptT_run_bind_ok {value : α} (ran : (ExceptT.run first).run s = (.ok value, t)) :
    (ExceptT.run (first >>= after)).run s = (ExceptT.run (after value)).run t := by
  change (ExceptT.bindCont after : Except ε α → StateM σ (Except ε β)) (first s).1 (first s).2 = _
  rw [show first s = (.ok value, t) from ran]
  rfl

/-- A computation does not go on if the one before it is stopped. -/
theorem exceptT_run_bind_error {error : ε} (ran : (ExceptT.run first).run s = (.error error, t)) :
    (ExceptT.run (first >>= after)).run s = (.error error, t) := by
  change (ExceptT.bindCont after : Except ε α → StateM σ (Except ε β)) (first s).1 (first s).2 = _
  rw [show first s = (.error error, t) from ran]
  rfl

end

namespace Reading

variable {α β : Type}

/-- Running a value leaves the sources as they are. -/
@[simp]
theorem run_pure (value : α) (inputs : Inputs) :
    (pure value : Reading α).run inputs = (.ok value, inputs) :=
  rfl

/-- Running a result leaves the sources as they are. -/
@[simp]
theorem run_ofExcept (result : Except Fault α) (inputs : Inputs) :
    (ofExcept result).run inputs = (result, inputs) :=
  rfl

/-- Running one computation after another goes on from the sources that the first one leaves,
unless it faults. -/
theorem run_bind (reading : Reading α) (after : α → Reading β) (inputs : Inputs) :
    (reading >>= after).run inputs =
      match reading.run inputs with
      | (.ok value, inputs) => (after value).run inputs
      | (.error fault, inputs) => (.error fault, inputs) := by
  rcases result : reading.run inputs with ⟨fault | value, rest⟩
  · exact exceptT_run_bind_error result
  · exact exceptT_run_bind_ok result

end Reading

namespace Expr

/-- Evaluation with a work list gives what plain recursion gives. -/
theorem eval_run (e : Expr) (env : Env) (memory : Memory) (inputs : Inputs) :
    (e.eval env memory).run inputs = e.denote env memory inputs := by
  rw [eval, traverse_eq_fold]
  induction e generalizing inputs with
  | lit value => rfl
  | var name => rfl
  | input source => rfl
  | load address ih =>
    rw [fold, Reading.run_bind, ih, denote]
    rcases address.denote env memory inputs with ⟨fault | value, rest⟩ <;> rfl
  | unary op operand ih =>
    rw [fold, Reading.run_bind, ih, denote]
    rcases operand.denote env memory inputs with ⟨fault | value, rest⟩ <;> rfl
  | binary op left right ihLeft ihRight =>
    rw [fold, Reading.run_bind, ihLeft, denote]
    rcases left.denote env memory inputs with ⟨fault | l, between⟩
    · rfl
    · simp only [Reading.run_bind, ihRight]
      rcases right.denote env memory between with ⟨fault | r, rest⟩ <;> rfl

end Expr

/-! ## What an evaluation keeps -/

/-- Two states of the same input sources, which differ in their cursors at most. -/
structure Inputs.SameStreams (before after : Inputs) : Prop where
  names : after.names = before.names
  values (name : String) :
    (after.get? name).map (·.values) = (before.get? name).map (·.values)

/-- What is kept by every read, and by one step after another, is kept by an evaluation. -/
theorem Expr.denote_keeps {keeps : Inputs → Inputs → Prop}
    (refl : ∀ inputs, keeps inputs inputs)
    (trans : ∀ {first second third}, keeps first second → keeps second third → keeps first third)
    (read : ∀ inputs source, keeps inputs (inputs.read source).2)
    (env : Env) (memory : Memory) (e : Expr) (inputs : Inputs) :
    keeps inputs (e.denote env memory inputs).2 := by
  induction e generalizing inputs with
  | lit value => exact refl inputs
  | var name => exact refl inputs
  | input source => exact read inputs source
  | load address ih =>
    have operand := ih inputs
    rw [denote]
    rcases outcome : address.denote env memory inputs with ⟨fault | value, rest⟩ <;>
      rw [outcome] at operand <;> exact operand
  | unary op operand ih =>
    have operand := ih inputs
    rw [denote]
    rcases outcome : denote env memory _ inputs with ⟨fault | value, rest⟩ <;>
      rw [outcome] at operand <;> exact operand
  | binary op left right ihLeft ihRight =>
    have first := ihLeft inputs
    rw [denote]
    rcases outcome : left.denote env memory inputs with ⟨fault | l, between⟩ <;>
      rw [outcome] at first
    · exact first
    · have second := ihRight between
      refine trans first ?_
      dsimp only
      rcases outcome' : right.denote env memory between with ⟨fault | r, rest⟩ <;>
        rw [outcome'] at second <;> exact second

namespace Inputs

/-- A read finds no source, finds it exhausted, or moves its cursor past the value it gives. -/
theorem read_cases (inputs : Inputs) (source : String) :
    (inputs.get? source = none ∧
        inputs.read source = (.error (.unknownSource source (sortNames inputs.names)), inputs)) ∨
      ∃ stream, inputs.get? source = some stream ∧
        ((stream.values[stream.cursor]? = none ∧ inputs.read source =
            (.error (.inputExhausted source stream.values.length), inputs)) ∨
          ∃ value, stream.values[stream.cursor]? = some value ∧ inputs.read source =
            (.ok value, inputs.insert source { stream with cursor := stream.cursor + 1 })) := by
  cases registered : inputs.get? source with
  | none => exact .inl ⟨rfl, by simp only [read, registered]⟩
  | some stream =>
    refine .inr ⟨stream, rfl, ?_⟩
    cases left : stream.values[stream.cursor]? with
    | none => exact .inl ⟨rfl, by simp only [read, registered, left]⟩
    | some value => exact .inr ⟨value, rfl, by simp only [read, registered, left]⟩

/-- Sources are the same as themselves. -/
theorem SameStreams.refl (inputs : Inputs) : SameStreams inputs inputs :=
  ⟨rfl, fun _ => rfl⟩

/-- Sources that stay the same twice stay the same. -/
theorem SameStreams.trans {first second third : Inputs} (before : SameStreams first second)
    (after : SameStreams second third) : SameStreams first third :=
  ⟨after.names.trans before.names, fun name => (after.values name).trans (before.values name)⟩

/-- Moving the cursor of a source keeps all sources the same. -/
theorem SameStreams.moved {inputs : Inputs} {source : String} {stream : InputStream}
    (registered : inputs.get? source = some stream) (cursor : Nat) :
    SameStreams inputs (inputs.insert source { stream with cursor }) := by
  refine ⟨Table.keys_insert_of_some registered _, fun name => ?_⟩
  rw [Table.get?_insert]
  by_cases here : name = source
  · rw [if_pos here, here, registered]
    rfl
  · rw [if_neg here]

/-- A read keeps all sources the same. -/
theorem SameStreams.read (inputs : Inputs) (source : String) :
    SameStreams inputs (inputs.read source).2 := by
  obtain ⟨-, unknown⟩ | ⟨stream, registered, ⟨-, exhausted⟩ | ⟨value, -, found⟩⟩ :=
    inputs.read_cases source
  · rw [unknown]
    exact .refl inputs
  · rw [exhausted]
    exact .refl inputs
  · rw [found]
    exact .moved registered _

/-- Binding a source sets its cursor and no other. -/
theorem position?_insert (inputs : Inputs) (source : String) (stream : InputStream) :
    position? (inputs.insert source stream) =
      fun name => if name = source then some stream.cursor else inputs.position? name := by
  funext name
  simp only [position?, Table.get?_insert]
  split <;> rfl

/-- Cursors move forward or stay, and no source is lost. -/
def Advances (before after : Inputs) : Prop :=
  ∀ name old, before.position? name = some old →
    ∃ new, after.position? name = some new ∧ old ≤ new

/-- Cursors that stay do not move back. -/
theorem Advances.refl (inputs : Inputs) : Advances inputs inputs :=
  fun _ old start => ⟨old, start, Nat.le_refl old⟩

/-- Cursors that twice do not move back do not move back. -/
theorem Advances.trans {first second third : Inputs} (before : Advances first second)
    (after : Advances second third) : Advances first third := by
  intro name old start
  obtain ⟨between, middle, least⟩ := before name old start
  obtain ⟨new, finish, more⟩ := after name between middle
  exact ⟨new, finish, Nat.le_trans least more⟩

/-- A read moves no cursor back. -/
theorem Advances.read (inputs : Inputs) (source : String) :
    Advances inputs (inputs.read source).2 := by
  obtain ⟨-, unknown⟩ | ⟨stream, registered, ⟨-, exhausted⟩ | ⟨value, -, found⟩⟩ :=
    inputs.read_cases source
  · rw [unknown]
    exact .refl inputs
  · rw [exhausted]
    exact .refl inputs
  · intro name old start
    rw [found, position?_insert]
    by_cases here : name = source
    · have cursor : stream.cursor = old := by
        rw [here, position?, registered] at start
        exact Option.some.inj start
      exact ⟨stream.cursor + 1, if_pos here, by omega⟩
    · exact ⟨old, (if_neg here).trans start, Nat.le_refl old⟩

end Inputs

/-- An evaluation keeps all sources the same. -/
theorem Expr.denote_sameStreams (env : Env) (memory : Memory) (e : Expr) (inputs : Inputs) :
    inputs.SameStreams (e.denote env memory inputs).2 :=
  denote_keeps .refl .trans .read env memory e inputs

/-- Evaluations from the same sources have the same surroundings. -/
theorem Surroundings.of_sameStreams {before after : Inputs} (same : before.SameStreams after)
    (env : Env) (memory : Memory) : of env memory after = of env memory before := by
  simp only [of, same.names, same.values]

/-! ## Evaluation gives the meaning -/

/-- What is seen of an outcome: its value in bits or its fault, and the cursors. -/
def Outcome.observe (outcome : Except Fault Word × Inputs) : Except Fault Bits × Cursors :=
  (outcome.1.map UInt32.toBitVec, outcome.2.position?)

/-- A value is seen in bits. -/
@[simp]
theorem Outcome.observe_ok (value : Word) (inputs : Inputs) :
    observe (.ok value, inputs) = (.ok value.toBitVec, inputs.position?) :=
  rfl

/-- Variables are looked up as they are meant to be. -/
theorem Env.lookup_meaning (env : Env) (memory : Memory) (inputs : Inputs) (name : String) :
    (env.lookup name).map UInt32.toBitVec = (Surroundings.of env memory inputs).lookup name := by
  simp only [Env.lookup, Surroundings.lookup, Surroundings.of]
  cases env.get? name <;> rfl

/-- Memory cells are looked up as they are meant to be. -/
theorem Memory.lookup_meaning (env : Env) (memory : Memory) (inputs : Inputs) (address : Word) :
    (memory.lookup address).map UInt32.toBitVec =
      (Surroundings.of env memory inputs).fetch address.toBitVec := by
  simp only [Memory.lookup, Surroundings.fetch, Surroundings.of, UInt32.ofBitVec_toBitVec]
  cases memory.get? address <;> rfl

/-- Sources are read as they are meant to be. -/
theorem Inputs.read_meaning (env : Env) (memory : Memory) (inputs : Inputs) (source : String) :
    Outcome.observe (inputs.read source) =
      (Surroundings.of env memory inputs).next source inputs.position? := by
  obtain ⟨missing, unknown⟩ | ⟨stream, registered, read⟩ := inputs.read_cases source
  · have noCursor : inputs.position? source = none := by simp [position?, missing]
    simp only [unknown, Surroundings.next, noCursor]
    rfl
  · have cursor : inputs.position? source = some stream.cursor := by simp [position?, registered]
    have values : (Surroundings.of env memory inputs).values source =
        stream.values.map UInt32.toBitVec := by simp [Surroundings.of, registered]
    simp only [Surroundings.next, cursor, values, List.getElem?_map, List.length_map]
    obtain ⟨spent, exhausted⟩ | ⟨value, held, found⟩ := read
    · rw [exhausted, spent]
      rfl
    · rw [found, held, Outcome.observe_ok, position?_insert]
      rfl

/-- Plain recursion over words gives the meaning. -/
theorem Expr.denote_meaning (env : Env) (memory : Memory) (e : Expr) (inputs : Inputs) :
    Outcome.observe (e.denote env memory inputs) =
      e.meaning (.of env memory inputs) inputs.position? := by
  induction e generalizing inputs with
  | lit value => rfl
  | var name => exact congrArg (·, inputs.position?) (env.lookup_meaning memory inputs name)
  | input source => exact inputs.read_meaning env memory source
  | load address ih =>
    rw [denote, meaning, ← ih]
    rcases address.denote env memory inputs with ⟨fault | value, rest⟩
    · rfl
    · exact congrArg (·, rest.position?) (memory.lookup_meaning env inputs value)
  | unary op operand ih =>
    rw [denote, meaning, ← ih]
    rcases operand.denote env memory inputs with ⟨fault | value, rest⟩
    · rfl
    · simp only [Outcome.observe_ok, op.apply_meaning]
  | binary op left right ihLeft ihRight =>
    have same := left.denote_sameStreams env memory inputs
    rw [denote, meaning, ← ihLeft]
    rcases outcome : left.denote env memory inputs with ⟨fault | l, between⟩
    · rfl
    · rw [outcome] at same
      have second := ihRight between
      rw [Surroundings.of_sameStreams same] at second
      simp only [Outcome.observe_ok, ← second]
      rcases right.denote env memory between with ⟨fault | r, rest⟩
      · rfl
      · exact congrArg (·, rest.position?) (op.apply_meaning l r)

/-- Evaluation in a state gives the meaning of the expression there: the same value or the same
first fault, and in both cases the same cursors. -/
theorem evaluate_meaning (s : State) (e : Expr) :
    ((s.evaluate e).1.map UInt32.toBitVec, (s.evaluate e).2.inputs.position?) =
      e.meaning (.of s.env s.memory s.inputs) s.inputs.position? := by
  have outcome := e.eval_run s.env s.memory s.inputs
  have meant := e.denote_meaning s.env s.memory s.inputs
  rw [← outcome] at meant
  exact meant

end FlatIL
