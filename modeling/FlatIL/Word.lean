/-!
# Machine words

Every value the language computes with is an unsigned 32-bit word. Arithmetic
wraps modulo `2 ^ 32`; integers that come from outside are either admitted
unchanged or refused, never reduced.
-/

namespace FlatIL

/-- An unsigned 32-bit value. -/
abbrev Word := UInt32

namespace Word

/-- The number of words, which is also the first integer that is not one. -/
def bound : Nat := 4294967296

/-- The word congruent to an integer modulo `bound`. -/
def wrap (n : Int) : Word :=
  UInt32.ofNat (n % bound).toNat

/-- The word equal to an integer, for the integers from zero up to `bound`. -/
def ofInt? (n : Int) : Option Word :=
  if 0 ≤ n ∧ n < bound then some (UInt32.ofNat n.toNat) else none

/-- One for a condition that holds and zero for one that does not. -/
def ofBool (flag : Bool) : Word :=
  if flag then 1 else 0

/-- A word counts as true when it is not zero. -/
def truth (w : Word) : Bool :=
  w != 0

end Word

end FlatIL
