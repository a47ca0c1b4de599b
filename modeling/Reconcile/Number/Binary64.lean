import Reconcile.Number.Decimal

/-!
# Binary numbers of double precision

A finite number of 53 significant bits. A decimal is rounded to the nearest one, a tie to
the even significand; the arithmetic is exact throughout.
-/

namespace Reconcile

/-- The number `± significand · 2 ^ exponent`. -/
structure Binary64 where
  /-- The sign, which zero has too. -/
  negative : Bool
  /-- At most 53 bits. -/
  significand : Nat
  /-- From -1074 to 971. -/
  exponent : Int
  deriving DecidableEq, Repr

namespace Binary64

/-- The least exponent. -/
def lowestExponent : Int := -1074

/-- The greatest exponent. -/
def highestExponent : Int := 971

/-- The quotient rounded to the nearest whole number, a tie to the even one. -/
def roundedQuotient (numerator denominator : Nat) : Nat :=
  let quotient := numerator / denominator
  let twice := 2 * (numerator % denominator)
  if twice > denominator || (twice == denominator && quotient % 2 == 1) then quotient + 1
  else quotient

/-- Numerator and denominator of a ratio divided by a power of two. -/
def scaled (numerator denominator : Nat) (exponent : Int) : Nat × Nat :=
  (numerator * Nat.pow 2 (-exponent).toNat, denominator * Nat.pow 2 exponent.toNat)

/-- The exponent at which the ratio has a significand of 53 bits, or the least one. -/
def exponentOf (numerator denominator : Nat) : Int :=
  let estimate : Int := (numerator.log2 : Int) - denominator.log2 - 52
  let (top, bottom) := scaled numerator denominator estimate
  max lowestExponent (if top < bottom * Nat.pow 2 52 then estimate - 1 else estimate)

/-- The nearest number to a ratio, unless it is out of range. -/
def ofRatio? (negative : Bool) (numerator denominator : Nat) : Option Binary64 :=
  let exponent := exponentOf numerator denominator
  let (top, bottom) := scaled numerator denominator exponent
  let significand := roundedQuotient top bottom
  let carried := significand == Nat.pow 2 53
  let number : Binary64 :=
    if carried then ⟨negative, Nat.pow 2 52, exponent + 1⟩ else ⟨negative, significand, exponent⟩
  if number.exponent > highestExponent then none else some number

/-- The number of decimal digits. -/
def digitCount (value : Nat) : Nat :=
  (Nat.toDigits 10 value).length

/-- The nearest number to a decimal, unless it is out of range. -/
def ofDecimal? (decimal : Decimal) : Option Binary64 :=
  let magnitude := decimal.exponent + digitCount decimal.significand
  if decimal.significand = 0 || magnitude < -326 then
    some ⟨decimal.negative, 0, lowestExponent⟩
  else if magnitude > 310 then none
  else if decimal.exponent < 0 then
    ofRatio? decimal.negative decimal.significand (Nat.pow 10 (-decimal.exponent).toNat)
  else
    ofRatio? decimal.negative (decimal.significand * Nat.pow 10 decimal.exponent.toNat) 1

end Binary64

end Reconcile
