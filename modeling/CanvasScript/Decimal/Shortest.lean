/-
The shortest decimal of a number: the one with the fewest digits that reads back.

For a number of digits `n` the decimals with `n` digits around a value are a grid, and if
any point of the grid reads back as the number, then so does one of the two points next
to its exact value, because the values that read back are an interval around it. So for
`n = 1, 2, …` the two neighbours are tried, and the first grid with a hit is the answer;
of two hits the nearer one, and the upper one when both are equally near.

Whether a decimal reads back is decided by reading it. The result therefore reads back by
construction, whatever is known about how many digits are enough; should no grid have a
hit, the exact value itself, which has a finite decimal expansion, is the answer.
-/
import CanvasScript.Decimal.Basic

set_option autoImplicit false

namespace CanvasScript

namespace Decimal

/-- The order of a number of units: its value is below ten to this power and, unless it is
zero, not below the power before it. -/
def orderOfUnits (units : Nat) : Int :=
  if Binary64.unitsInOne ≤ units then digitCount (units / Binary64.unitsInOne)
  else 1 - digitCount ((Binary64.unitsInOne - 1) / units)

/-- The exact value of a number of units, as a decimal. -/
def exactly (units : Nat) : Decimal := ⟨units * Nat.pow 5 1074, -1074⟩

/-- Whether a decimal reads back as the positive number at a position. -/
def readsAs (position : Nat) (d : Decimal) : Bool :=
  d.toBinary64 false == Binary64.atPosition false position

/-- The better of two neighbours among those that read back: the lower one when it is the
nearer one or the only one. -/
def better? (reads : Decimal → Bool) (nearLower : Bool) (lower upper : Decimal) :
    Option Decimal :=
  if reads lower && (nearLower || !reads upper) then some lower
  else if reads upper then some upper
  else none

/-- The better of the two neighbours of a value on the grid with step `10 ^ exponent`. -/
def onGrid? (position : Nat) (exponent : Int) : Option Decimal :=
  let num := Binary64.units position * tenTo (-exponent).toNat
  let den := Binary64.unitsInOne * tenTo exponent.toNat
  better? (readsAs position) (decide (2 * (num % den) < den))
    ⟨num / den, exponent⟩ ⟨num / den + 1, exponent⟩

/-- The greatest number of digits that is tried. -/
def mostDigits : Nat := 17

/-- The shortest decimal that reads back as the positive number at a position. -/
def shortest (position : Nat) : Decimal :=
  let order := orderOfUnits (Binary64.units position)
  ((List.range mostDigits).findSome? fun (fewer : Nat) =>
    onGrid? position (order - (fewer + 1))).getD (exactly (Binary64.units position))

/-- What is chosen of two neighbours reads back. -/
theorem reads_of_better? {reads : Decimal → Bool} {nearLower : Bool} {lower upper d : Decimal}
    (h : better? reads nearLower lower upper = some d) : reads d = true := by
  unfold better? at h
  split at h
  · rename_i hlower
    simp only [Option.some.injEq] at h
    simp_all
  · split at h
    · rename_i hupper
      simp only [Option.some.injEq] at h
      exact h ▸ hupper
    · simp at h

/-- The shortest decimal reads back, or else it is the exact value. -/
theorem readsAs_shortest (position : Nat) :
    readsAs position (shortest position) = true ∨
      shortest position = exactly (Binary64.units position) := by
  unfold shortest
  dsimp only
  cases h : (List.range mostDigits).findSome? fun (fewer : Nat) =>
      onGrid? position (orderOfUnits (Binary64.units position) - (fewer + 1)) with
  | none => exact .inr rfl
  | some d =>
    obtain ⟨_, _, hd⟩ := List.exists_of_findSome?_eq_some h
    exact .inl (reads_of_better? hd)

end Decimal

end CanvasScript
