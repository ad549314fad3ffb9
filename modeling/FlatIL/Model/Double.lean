import FlatIL.Json

/-!
# Numbers with a fraction

A number written with a fraction or an exponent stands for the nearest double:
`m * 2 ^ k` with `m < 2 ^ 53` and `k ≥ -1074`, ties going to the even `m`. It counts
as an integer when that double is one.
-/

namespace FlatIL.Model

/-- Divides and rounds to the nearest integer, ties to the even one. -/
def roundQuotient (num den : Nat) : Nat :=
  let quotient := num / den
  let remainder := num % den
  if den < 2 * remainder || (2 * remainder == den && quotient % 2 == 1) then quotient + 1
  else quotient

/-- `num / den` in units of `2 ^ k`, rounded to the nearest integer. -/
def scaledRound (num den : Nat) (k : Int) : Nat :=
  if 0 ≤ k then roundQuotient num (den <<< k.toNat)
  else roundQuotient (num <<< (-k).toNat) den

/-- The power of two that the last place of the double nearest `num / den` stands for. -/
def lastPlace (num den : Nat) : Int :=
  let guess : Int := Int.ofNat num.log2 - Int.ofNat den.log2 - 52
  let tight :=
    if 0 ≤ guess then num < den <<< (52 + guess.toNat)
    else num <<< (-guess).toNat < den <<< 52
  max (if tight then guess - 1 else guess) (-1074)

/-- How a number stands to the integers. -/
inductive Wholeness where
  | whole (magnitude : Nat)
  | fractional
  | infinite
  deriving DecidableEq, Repr

/-- The double nearest the positive quotient `num / den`, seen as an integer. -/
def nearestDouble (num den : Nat) : Wholeness :=
  let k := lastPlace num den
  let m := scaledRound num den k
  if 0 ≤ k then
    let magnitude := m <<< k.toNat
    if 1 <<< 1024 ≤ magnitude then .infinite else .whole magnitude
  else
    let unit := 1 <<< (-k).toNat
    if m % unit == 0 then .whole (m / unit) else .fractional

/-- The double nearest `magnitude * 10 ^ exponent`, seen as an integer. Powers far
outside the range of doubles are decided by the number of digits alone. -/
def decimalDouble (magnitude : Nat) (exponent : Int) : Wholeness :=
  if magnitude == 0 then .whole 0
  else
    let order := Int.ofNat (Decimal.digits magnitude).length + exponent
    if 400 < order then .infinite
    else if order < -400 then .whole 0
    else if 0 ≤ exponent then nearestDouble (magnitude * Nat.pow 10 exponent.toNat) 1
    else nearestDouble magnitude (Nat.pow 10 (-exponent).toNat)

end FlatIL.Model
