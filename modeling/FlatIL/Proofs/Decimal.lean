import FlatIL.Text.Decimal
import Mathlib.Algebra.Group.Nat.Defs

/-!
# Numerals are read back

The digits of a number are ASCII digits, and their positional value is the number. A
number below a power of ten has no more digits than the exponent says.
-/

namespace FlatIL.Decimal

/-- A digit is an ASCII digit. -/
theorem isDigit_digit (n : Nat) : (digit n).isDigit = true := by
  have table : ∀ d < 10, (Char.ofNat (48 + d)).isDigit = true := by decide
  exact table (n % 10) (Nat.mod_lt n (by decide))

/-- A digit stands for the value it was made of. -/
theorem toNat_digit (n : Nat) : (digit n).toNat - 48 = n % 10 := by
  have table : ∀ d < 10, (Char.ofNat (48 + d)).toNat - 48 = d := by decide
  exact table (n % 10) (Nat.mod_lt n (by decide))

/-- One more digit at the end multiplies the value by ten and adds the digit. -/
theorem value_concat (cs : List Char) (c : Char) :
    value (cs ++ [c]) = 10 * value cs + (c.toNat - 48) := by
  simp [value]

/-- Numerals consist of ASCII digits. -/
theorem isDigit_of_mem_digits (n : Nat) : ∀ c ∈ digits n, c.isDigit = true := by
  fun_induction digits n with
  | case1 n small =>
    intro c member
    obtain rfl := List.mem_singleton.mp member
    exact isDigit_digit n
  | case2 n large ih =>
    intro c member
    rcases List.mem_append.mp member with front | last
    · exact ih c front
    · obtain rfl := List.mem_singleton.mp last
      exact isDigit_digit (n % 10)

/-- The positional value of a numeral is its number. -/
theorem value_digits (n : Nat) : value (digits n) = n := by
  fun_induction digits n with
  | case1 n small =>
    have denoted := toNat_digit n
    simp only [value, List.foldl_cons, List.foldl_nil, denoted]
    omega
  | case2 n large ih =>
    rw [value_concat, ih, toNat_digit]
    omega

/-- Every number has at least one digit. -/
theorem digits_ne_nil (n : Nat) : digits n ≠ [] := by
  rw [digits]
  split <;> simp

/-- A numeral of a positive number does not start with a zero. -/
theorem head?_digits_ne_zero {n : Nat} (positive : 0 < n) :
    ∀ c ∈ (digits n).head?, c ≠ '0' := by
  fun_induction digits n with
  | case1 n small =>
    have table : ∀ d < 10, 0 < d → Char.ofNat (48 + d) ≠ '0' := by decide
    intro c first
    obtain rfl := Option.some.inj first
    rw [digit, Nat.mod_eq_of_lt small]
    exact table n small positive
  | case2 n large ih =>
    have front := ih (by omega)
    obtain ⟨c, cs, numeral⟩ := List.exists_cons_of_ne_nil (digits_ne_nil (n / 10))
    rw [numeral] at front ⊢
    exact front

/-- A number below a power of ten has at most as many digits as the exponent. -/
theorem length_digits_le {n exponent : Nat} (small : n < 10 ^ (exponent + 1)) :
    (digits n).length ≤ exponent + 1 := by
  induction exponent generalizing n with
  | zero =>
    rw [digits, if_pos (by omega)]
    simp
  | succ exponent ih =>
    rw [digits]
    split
    · simp
    · have shorter : n / 10 < 10 ^ (exponent + 1) := by
        rw [Nat.div_lt_iff_lt_mul (by decide)]
        simpa [Nat.pow_succ] using small
      have bound := ih shorter
      rw [List.length_append, List.length_singleton]
      omega

end FlatIL.Decimal
