import FlatIL.Proofs.Unbounded

/-!
# Wrapping once is enough

Sums, differences, products, negations and complements are reduced modulo `2 ^ 32` wherever they
are computed. Reducing is compatible with all five, so an expression made of nothing else has the
value that it has over the integers, where nothing is reduced, reduced once at the end. How large
the integers grow in between does not matter.
-/

namespace FlatIL

/-! ## Reducing integers -/

namespace Word

/-- Reducing an integer leaves its remainder modulo `2 ^ 32`. -/
theorem integer_wrap (n : Int) : (wrap n).integer = n % 2 ^ 32 := by
  have nonnegative : 0 ≤ n % 2 ^ 32 := Int.emod_nonneg n (by decide)
  have small : n % 2 ^ 32 < 2 ^ 32 := Int.emod_lt_of_pos n (by decide)
  have fits : (n % 2 ^ 32).toNat < UInt32.size := by
    have size : UInt32.size = 2 ^ 32 := rfl
    omega
  have kept : (wrap n).toNat = (n % 2 ^ 32).toNat := UInt32.toNat_ofNat_of_lt' fits
  rw [integer, kept, Int.toNat_of_nonneg nonnegative]

/-- Integers with one remainder are reduced to one word. -/
theorem wrap_eq_of_integer {w : Word} {n : Int} (same : w.integer = n % 2 ^ 32) : w = wrap n :=
  integer_inj w (wrap n) (same.trans (integer_wrap n).symm)

/-- A word is not changed by reducing it. -/
theorem wrap_integer (w : Word) : wrap w.integer = w := by
  have bounds := w.integer_bounds
  exact (wrap_eq_of_integer (Int.emod_eq_of_lt bounds.1 bounds.2).symm).symm

/-- Sums may be reduced before or after adding. -/
theorem wrap_add (m n : Int) : wrap m + wrap n = wrap (m + n) := by
  apply wrap_eq_of_integer
  calc (wrap m + wrap n).integer
      = ((wrap m).integer + (wrap n).integer) % 2 ^ 32 := by
        rw [integer, UInt32.toNat_add]
        rfl
    _ = (m + n) % 2 ^ 32 := by rw [integer_wrap, integer_wrap, ← Int.add_emod]

/-- Products may be reduced before or after multiplying. -/
theorem wrap_mul (m n : Int) : wrap m * wrap n = wrap (m * n) := by
  apply wrap_eq_of_integer
  calc (wrap m * wrap n).integer
      = ((wrap m).integer * (wrap n).integer) % 2 ^ 32 := by
        rw [integer, UInt32.toNat_mul]
        rfl
    _ = (m * n) % 2 ^ 32 := by rw [integer_wrap, integer_wrap, ← Int.mul_emod]

/-- Negations may be reduced before or after negating. -/
theorem wrap_neg (n : Int) : -wrap n = wrap (-n) := by
  apply wrap_eq_of_integer
  have negated : (-wrap n).integer = (-(wrap n).integer) % 2 ^ 32 := by
    rw [← Unbounded.wrap_eq_emod]
    exact (Unbounded.unary_integer .neg (wrap n)).symm
  rw [negated, integer_wrap]
  omega

/-- Differences may be reduced before or after subtracting. -/
theorem wrap_sub (m n : Int) : wrap m - wrap n = wrap (m - n) := by
  rw [UInt32.sub_eq_add_neg, wrap_neg, wrap_add, Int.sub_eq_add_neg]

/-- Complementing every bit of a word takes it off the largest word, and so reduces what
complementing every bit of an integer without end gives. -/
theorem wrap_not (n : Int) : ~~~wrap n = wrap (-n - 1) := by
  apply wrap_eq_of_integer
  have flipped : (~~~wrap n).toNat = UInt32.size - 1 - (wrap n).toNat := UInt32.toNat_not _
  have size : UInt32.size = 2 ^ 32 := rfl
  have reduced := integer_wrap n
  simp only [integer] at reduced ⊢
  omega

end Word

/-! ## Expressions over the integers -/

/-- What a binary operator computes from integers when nothing is reduced, if it is a sum, a
difference or a product. -/
def BinaryOp.integer? : BinaryOp → Option (Int → Int → Int)
  | add => some fun m n => m + n
  | sub => some fun m n => m - n
  | mul => some fun m n => m * n
  | _ => none

/-- What a unary operator computes from an integer when nothing is reduced, if it is a negation
or the complement of every bit. -/
def UnaryOp.integer? : UnaryOp → Option (Int → Int)
  | neg => some fun n => -n
  | not => some fun n => -n - 1
  | lnot => none

namespace Expr

/-- The expression is built from literals, variables, sums, differences, products, negations and
complements. -/
def Arithmetic : Expr → Prop
  | lit _ | var _ => True
  | unary op operand => op ∈ [UnaryOp.neg, .not] ∧ operand.Arithmetic
  | binary op left right => op ∈ [BinaryOp.add, .sub, .mul] ∧ left.Arithmetic ∧ right.Arithmetic
  | load _ | input _ => False

/-- The value of an expression over the integers, given those of its variables. -/
def integer? (value : String → Int) : Expr → Option Int
  | lit w => some w.integer
  | var name => some (value name)
  | unary op operand => do
    let compute ← op.integer?
    return compute (← operand.integer? value)
  | binary op left right => do
    let compute ← op.integer?
    return compute (← left.integer? value) (← right.integer? value)
  | load _ | input _ => none

end Expr

/-! ## Reducing once -/

/-- A sum, a difference or a product of reduced integers is the reduced one of the integers. -/
theorem BinaryOp.apply_wrap {op : BinaryOp} (listed : op ∈ [add, sub, mul]) :
    ∃ compute, op.integer? = some compute ∧
      ∀ m n, op.apply (.wrap m) (.wrap n) = .ok (.wrap (compute m n)) := by
  simp only [List.mem_cons, List.not_mem_nil, or_false] at listed
  rcases listed with rfl | rfl | rfl
  · exact ⟨_, rfl, fun m n => congrArg Except.ok (Word.wrap_add m n)⟩
  · exact ⟨_, rfl, fun m n => congrArg Except.ok (Word.wrap_sub m n)⟩
  · exact ⟨_, rfl, fun m n => congrArg Except.ok (Word.wrap_mul m n)⟩

/-- A negation or a complement of a reduced integer is the reduced one of the integer. -/
theorem UnaryOp.apply_wrap {op : UnaryOp} (listed : op ∈ [neg, not]) :
    ∃ compute, op.integer? = some compute ∧ ∀ n, op.apply (.wrap n) = .wrap (compute n) := by
  simp only [List.mem_cons, List.not_mem_nil, or_false] at listed
  rcases listed with rfl | rfl
  · exact ⟨_, rfl, Word.wrap_neg⟩
  · exact ⟨_, rfl, Word.wrap_not⟩

/-- An arithmetic expression over bound variables has a value over the integers, and evaluation
gives that value reduced. -/
theorem Expr.denote_wrap {env : Env} {value : String → Word} {e : Expr}
    (arithmetic : e.Arithmetic)
    (bound : ∀ name ∈ e.names, env.get? name = some (value name)) :
    ∃ n, e.integer? (fun name => (value name).integer) = some n ∧
      ∀ memory inputs, e.denote env memory inputs = (.ok (.wrap n), inputs) := by
  induction e with
  | lit w =>
    refine ⟨w.integer, rfl, fun memory inputs => ?_⟩
    rw [denote, Word.wrap_integer]
  | var name =>
    refine ⟨(value name).integer, rfl, fun memory inputs => ?_⟩
    have found : env.lookup name = .ok (value name) := by
      rw [Env.lookup, bound name List.mem_cons_self]
    rw [denote, found, Word.wrap_integer]
  | load address => exact arithmetic.elim
  | input source => exact arithmetic.elim
  | unary op operand ih =>
    obtain ⟨n, amounts, evaluated⟩ := ih arithmetic.2 bound
    obtain ⟨compute, known, applied⟩ := UnaryOp.apply_wrap arithmetic.1
    refine ⟨compute n, by simp [integer?, known, amounts], fun memory inputs => ?_⟩
    simp only [denote, evaluated, applied]
  | binary op left right ihLeft ihRight =>
    have onLeft : ∀ name ∈ left.names, env.get? name = some (value name) :=
      fun name inside => bound name (List.mem_append_left _ inside)
    have onRight : ∀ name ∈ right.names, env.get? name = some (value name) :=
      fun name inside => bound name (List.mem_append_right _ inside)
    obtain ⟨m, amountsLeft, evaluatedLeft⟩ := ihLeft arithmetic.2.1 onLeft
    obtain ⟨n, amountsRight, evaluatedRight⟩ := ihRight arithmetic.2.2 onRight
    obtain ⟨compute, known, applied⟩ := BinaryOp.apply_wrap arithmetic.1
    refine ⟨compute m n, ?_, fun memory inputs => ?_⟩
    · simp [integer?, known, amountsLeft, amountsRight]
    · simp only [denote, evaluatedLeft, evaluatedRight, applied]

/-- An arithmetic expression whose variables are bound is evaluated without a fault and without
any effect, to its value over the integers reduced modulo `2 ^ 32`: to the lowest 32 bits of that
integer, which may be negative and of any size. -/
theorem State.evaluate_wraps_once {s : State} {e : Expr} {value : String → Word}
    (arithmetic : e.Arithmetic)
    (bound : ∀ name ∈ e.names, s.env.get? name = some (value name)) :
    ∃ n, e.integer? (fun name => (value name).integer) = some n ∧
      s.evaluate e = (.ok (.wrap n), s) ∧
      (Word.wrap n).integer = n % 2 ^ 32 ∧ (Word.wrap n).integer = Unbounded.wrap n := by
  obtain ⟨n, amounts, evaluated⟩ := Expr.denote_wrap arithmetic bound
  have ran := (e.eval_run s.env s.memory s.inputs).trans (evaluated s.memory s.inputs)
  have reduced : (Word.wrap n).integer = n % 2 ^ 32 := Word.integer_wrap n
  refine ⟨n, amounts, ?_, reduced, reduced.trans (Unbounded.wrap_eq_emod n).symm⟩
  simp only [evaluate, ran]

/-- A negative integer of more than 64 bits, with each of the five operators on the way to it. -/
theorem State.evaluate_wraps_once_of_large :
    let s : State := { env := (Table.empty.insert "x" 4294967295).insert "y" 4026531841 }
    let value := fun name => if name = "x" then (4294967295 : Word) else 4026531841
    let square := Expr.binary .mul (.var "x") (.var "x")
    let e := Expr.binary .sub (.unary .not (.binary .mul square (.var "y")))
      (.binary .add (.unary .neg (.var "y")) (.lit 5))
    e.integer? (fun name => (value name).integer) = some (-74276402340981915420861661190) ∧
      ∃ n, e.integer? (fun name => (value name).integer) = some n ∧
        s.evaluate e = (.ok (.wrap n), s) ∧
        (Word.wrap n).integer = n % 2 ^ 32 ∧ (Word.wrap n).integer = Unbounded.wrap n := by
  intro s value square e
  have arithmetic : e.Arithmetic := by simp [e, square, Expr.Arithmetic]
  have bound : ∀ name ∈ e.names, s.env.get? name = some (value name) := by
    simp only [e, square, Expr.names]
    decide
  exact ⟨by decide, State.evaluate_wraps_once arithmetic bound⟩

end FlatIL
