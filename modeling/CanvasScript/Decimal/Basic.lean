/-
Decimals: a natural number of digits and a power of ten, and the binary64 number that
each one denotes.

A decimal is exact and a binary64 number is not, so reading one is a rounding, and it is
the same rounding as everywhere else: the value counted in units, as one quotient of
naturals, and the position nearest to it. Only decimals that are far outside the range of
the format are decided before the powers of ten are computed, so that an exponent with
many digits costs nothing. The two bounds leave room: a value of order 311 is at least
`10^310` and the largest finite number is below `10^309`; a value of order `-331` is below
`10^-331` and half of one unit is above `10^-325`.
-/
import CanvasScript.Number.Binary64

set_option autoImplicit false

namespace CanvasScript

/-- The decimal number `digits * 10 ^ exponent`. -/
structure Decimal where
  /-- All digits, read as one natural number. -/
  digits : Nat
  /-- The power of ten that the last digit counts. -/
  exponent : Int
  deriving DecidableEq, Repr

namespace Decimal

/-- How many digits a natural number is written with. -/
def digitCount (n : Nat) : Nat := (Nat.toDigits 10 n).length

/-- The place of the decimal point, counted from the first digit: a value of order `p` is
below `10^p` and, unless it is zero, not below `10^(p-1)`. -/
def order (d : Decimal) : Int := digitCount d.digits + d.exponent

/-- From this order on every decimal is beyond the finite numbers. -/
def orderTooLarge : Int := 311

/-- Up to this order every decimal is nearer to zero than to any other number. -/
def orderTooSmall : Int := -331

/-- The numerator of a decimal's value in units. -/
def numerator (d : Decimal) : Nat := d.digits * tenTo d.exponent.toNat * Binary64.unitsInOne

/-- The denominator of a decimal's value in units. -/
def denominator (d : Decimal) : Nat := tenTo (-d.exponent).toNat

/-- The binary64 number nearest to a decimal, with a sign. -/
def toBinary64 (negative : Bool) (d : Decimal) : Binary64 :=
  if d.digits = 0 ∨ d.order ≤ orderTooSmall then Binary64.signedZero negative
  else if orderTooLarge ≤ d.order then .infinity negative
  else Binary64.rounded negative d.numerator d.denominator

theorem denominator_pos (d : Decimal) : 0 < d.denominator := tenTo_pos _

@[simp] theorem toBinary64_zero (negative : Bool) (exponent : Int) :
    toBinary64 negative ⟨0, exponent⟩ = Binary64.signedZero negative := by
  simp [toBinary64]

end Decimal

end CanvasScript
