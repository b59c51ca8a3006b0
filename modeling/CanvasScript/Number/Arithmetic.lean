/-
The operations of binary64 numbers: sign change, sum, difference, product, quotient,
remainder, comparison, and the two ways in which whole numbers and numbers meet.

Each operation on finite numbers computes its exact result in units and rounds once, so
what has to be said beyond that is only what no rounding can say: the sign of a zero
result, and what happens when an operand is infinite, zero in a divisor, or `nan`. Those
cases are the lines of the matches below and nothing else.

Comparison needs no rounding at all. The magnitudes are positions in increasing order, so
the order of two finite numbers is the order of two integers, on which the two zeros
fall together.
-/
import CanvasScript.Number.Binary64

set_option autoImplicit false

namespace CanvasScript

namespace Binary64

/-! ## Sign -/

def neg : Binary64 → Binary64
  | .nan => .nan
  | .infinity negative => .infinity (!negative)
  | .finite negative magnitude => .finite (!negative) magnitude

def abs : Binary64 → Binary64
  | .nan => .nan
  | .infinity _ => .infinity false
  | .finite _ magnitude => .finite false magnitude

@[simp] theorem neg_neg (x : Binary64) : x.neg.neg = x := by
  cases x <;> simp [neg]

/-! ## Sum and difference -/

/-- The number nearest to a signed whole number of units. When the exact result is zero,
the zero has the sign given. -/
def roundedUnits (zeroNegative : Bool) (exact : Int) : Binary64 :=
  if exact = 0 then signedZero zeroNegative
  else rounded (decide (exact < 0)) exact.natAbs 1

/-- The rounded sum. Opposite infinities have none; a zero sum is negative only when both
operands are. -/
def add : Binary64 → Binary64 → Binary64
  | .nan, _ => .nan
  | _, .nan => .nan
  | .infinity a, .infinity b => if a = b then .infinity a else .nan
  | .infinity a, .finite _ _ => .infinity a
  | .finite _ _, .infinity b => .infinity b
  | .finite a m, .finite b n => roundedUnits (a && b) (signedUnits a m + signedUnits b n)

/-- The rounded difference: the sum with the second number's sign changed. -/
def sub (x y : Binary64) : Binary64 := add x y.neg

/-! ## Product, quotient and remainder -/

/-- The rounded product. An infinity times a zero has none. -/
def mul : Binary64 → Binary64 → Binary64
  | .nan, _ => .nan
  | _, .nan => .nan
  | .infinity a, y => if y.isZero then .nan else .infinity (a != y.isNegative)
  | x, .infinity b => if x.isZero then .nan else .infinity (x.isNegative != b)
  | .finite a m, .finite b n => rounded (a != b) (units m * units n) unitsInOne

/-- The rounded quotient. Zero by zero and infinity by infinity have none; any other
number by zero is infinite. -/
def div : Binary64 → Binary64 → Binary64
  | .nan, _ => .nan
  | _, .nan => .nan
  | .infinity _, .infinity _ => .nan
  | .infinity a, .finite b _ => .infinity (a != b)
  | .finite a _, .infinity b => signedZero (a != b)
  | .finite a m, .finite b n =>
    if n.val = 0 then (if m.val = 0 then .nan else .infinity (a != b))
    else rounded (a != b) (units m * unitsInOne) (units n)

/-- The remainder of the division rounded toward zero, with the sign of the dividend. It
is exact. An infinite dividend or a zero divisor has none. -/
def rem : Binary64 → Binary64 → Binary64
  | .nan, _ => .nan
  | _, .nan => .nan
  | .infinity _, _ => .nan
  | .finite a m, .infinity _ => .finite a m
  | .finite a m, .finite _ n =>
    if n.val = 0 then .nan else rounded a (units m % units n) 1

/-! ## Order -/

/-- The place of a number on the line: the position with its sign, so both zeros are at
place zero, and the infinities are one past the last positions. A `nan` has none. -/
def place? : Binary64 → Option Int
  | .nan => none
  | .infinity negative => some (if negative then -(positions : Int) else positions)
  | .finite negative magnitude =>
    some (if negative then -(magnitude.val : Int) else magnitude.val)

/-- How two numbers compare, which a `nan` does with nothing. -/
def compare? (x y : Binary64) : Option Ordering :=
  match x.place?, y.place? with
  | some a, some b => some (compare a b)
  | _, _ => none

/-- Numeric equality: the two zeros are equal, and a `nan` equals nothing. -/
def same (x y : Binary64) : Bool := x.compare? y == some .eq

/-! ## Whole numbers -/

/-- The number nearest to a whole number. -/
def ofInt (n : Int) : Binary64 :=
  rounded (decide (n < 0)) (n.natAbs * unitsInOne) 1

/-- The number nearest to a natural number. -/
def ofNat (n : Nat) : Binary64 := ofInt n

/-- The largest whole number that is not above a signed number of units. -/
def floorUnits (exact : Int) : Int := exact / unitsInOne

/-- The whole number nearest to a signed number of units; a half goes away from zero. -/
def nearestAway (exact : Int) : Int :=
  let magnitude := (2 * exact.natAbs + unitsInOne) / (2 * unitsInOne)
  if exact < 0 then -(magnitude : Int) else magnitude

/-- Confines a whole number to the range from zero to `limit`. -/
def confine (limit : Nat) (n : Int) : Nat := min n.toNat limit

/-- A number taken to a whole number by `toWhole` and confined to the range from zero to
`limit`. Infinities go to the ends of the range and a `nan` to zero. -/
def confined (toWhole : Int → Int) (limit : Nat) : Binary64 → Nat
  | .nan => 0
  | .infinity negative => if negative then 0 else limit
  | .finite negative magnitude => confine limit (toWhole (signedUnits negative magnitude))

theorem confine_le (limit : Nat) (n : Int) : confine limit n ≤ limit := Nat.min_le_right ..

theorem confined_le (toWhole : Int → Int) (limit : Nat) (x : Binary64) :
    confined toWhole limit x ≤ limit := by
  cases x with
  | nan => simp [confined]
  | infinity negative => cases negative <;> simp [confined]
  | finite negative magnitude => exact confine_le ..

end Binary64

end CanvasScript
