/-
Binary64 numbers as data: the sixty-four-bit binary floating-point format, kept as
exact integers so that every operation on it is a statement about `Nat`.

A finite number is a sign and a *magnitude*. The magnitude is a position: the number
of non-negative finite numbers below it. Every finite magnitude is a whole number of
*units* of `2^-1074`, the distance between the two smallest numbers of the format, and
`units` gives that whole number for each position. So exact values are natural numbers,
and a rounded operation is always the same two steps: compute the exact result as a
quotient of naturals counted in units, then take the position nearest to it.

`nearestPosition` is that second step, and it is the only place where this project
rounds to binary. It needs one formula for subnormal numbers, normal numbers, the carry
into the next power of two and the step past the largest finite number, because
neighbouring positions are neighbouring numbers across all of these borders.
-/
import CanvasScript.Number.Power

set_option autoImplicit false

namespace CanvasScript

/-! ## Rounding a quotient to a whole number -/

/-- The whole number nearest to `num / den`; of two equally near ones, the even one. -/
def nearestEven (num den : Nat) : Nat :=
  let quotient := num / den
  let twice := 2 * (num % den)
  if twice < den then quotient
  else if den < twice then quotient + 1
  else quotient + quotient % 2

/-- A whole number is its own nearest whole number. -/
theorem nearestEven_mul_self (n den : Nat) (h : 0 < den) : nearestEven (n * den) den = n := by
  simp [nearestEven, Nat.mul_mod_left, Nat.mul_div_cancel n h, h]

/-- The nearest whole number is the quotient rounded down or the one after it. -/
theorem nearestEven_bounds (num den : Nat) :
    num / den ≤ nearestEven num den ∧ nearestEven num den ≤ num / den + 1 := by
  unfold nearestEven
  dsimp only
  split
  · omega
  · split <;> omega

/-! ## Positions and units -/

namespace Binary64

/-- Numbers of one binade: the significand has fifty-two bits after the leading one. -/
def binade : Nat := twoTo 52

/-- The number of finite magnitudes, hence the position one past the largest of them. -/
def positions : Nat := 2047 * binade

/-- The exact value at a position, counted in units of `2^-1074`. Below the first full
binade the positions are the units themselves; from there each binade doubles the step. -/
def units (position : Nat) : Nat :=
  if position < binade then position
  else (binade + position % binade) * twoTo (position / binade - 1)

/-- The whole number of units in the number one. -/
def unitsInOne : Nat := twoTo 1074

/-- The binary places of `num / den` beyond the fifty-three that a significand holds. -/
def excess (num den : Nat) : Nat := Nat.log2 (num / den) - 52

/-- The position nearest to `num / den` units, even positions winning ties. It may reach
`positions` or go past it, which says that the quotient is too large to be finite. -/
def nearestPosition (num den : Nat) : Nat :=
  excess num den * binade + nearestEven num (den * twoTo (excess num den))

/-! ## Exact values round to themselves -/

theorem binade_pos : 0 < binade := by decide

theorem units_of_lt {position : Nat} (h : position < binade) : units position = position := by
  rw [units, if_pos h]

/-- From the first full binade on, the units are a significand with its leading bit and a
power of two. -/
theorem units_of_le {position : Nat} (h : binade ≤ position) :
    units position = (binade + position % binade) * twoTo (position / binade - 1) := by
  rw [units, if_neg (Nat.not_lt.2 h)]

/-- A significand with its leading bit, scaled by a power of two, has just the places that
the power adds beyond fifty-three. -/
theorem excess_scaled {significand : Nat} (hlow : binade ≤ significand)
    (hhigh : significand < 2 * binade) (shift : Nat) :
    excess (significand * twoTo shift) 1 = shift := by
  have hne : significand * twoTo shift ≠ 0 :=
    Nat.ne_of_gt (Nat.mul_pos (Nat.lt_of_lt_of_le binade_pos hlow) (twoTo_pos shift))
  have hge : 52 + shift ≤ Nat.log2 (significand * twoTo shift) := by
    rw [le_log2_iff hne, twoTo_add]
    exact Nat.mul_le_mul_right _ hlow
  have hlt : Nat.log2 (significand * twoTo shift) < 53 + shift := by
    rw [log2_lt_iff hne, twoTo_add]
    refine Nat.mul_lt_mul_of_pos_right ?_ (twoTo_pos shift)
    rw [show (53 : Nat) = 52 + 1 from rfl, twoTo_succ, Nat.mul_comm]
    exact hhigh
  rw [excess, Nat.div_one]
  omega

/-- Small whole numbers of units have no places too many. -/
theorem excess_of_lt {count : Nat} (h : count < binade) : excess count 1 = 0 := by
  rw [excess, Nat.div_one]
  by_cases hzero : count = 0
  · rw [hzero]
    rfl
  · have hlt : Nat.log2 count < 52 := by
      rw [log2_lt_iff hzero]
      exact h
    omega

/-- A value of the format is the value nearest to itself: rounding the exact value at a
position gives the position back, subnormal or not. -/
theorem nearestPosition_units (position : Nat) : nearestPosition (units position) 1 = position := by
  by_cases h : position < binade
  · rw [units_of_lt h, nearestPosition, excess_of_lt h, Nat.zero_mul, Nat.zero_add, twoTo_zero]
    have hself := nearestEven_mul_self position 1 Nat.one_pos
    rw [Nat.mul_one] at hself
    exact hself
  · have hle : binade ≤ position := Nat.not_lt.1 h
    have hmod : position % binade < binade := Nat.mod_lt _ binade_pos
    have hquot : 1 ≤ position / binade := (Nat.one_le_div_iff binade_pos).2 hle
    have hexcess := excess_scaled (Nat.le_add_right binade (position % binade))
      (show binade + position % binade < 2 * binade by omega) (position / binade - 1)
    rw [units_of_le hle, nearestPosition, hexcess, Nat.one_mul,
      nearestEven_mul_self _ _ (twoTo_pos _)]
    have hsplit : binade * (position / binade) + position % binade = position :=
      Nat.div_add_mod position binade
    obtain ⟨q, hq⟩ : ∃ q, position / binade = q + 1 := ⟨position / binade - 1, by omega⟩
    rw [hq, Nat.mul_add, Nat.mul_one] at hsplit
    rw [hq, Nat.add_sub_cancel, Nat.mul_comm]
    omega

end Binary64

/-! ## The numbers -/

/-- A binary64 number. There is one `nan`; a zero has a sign. -/
inductive Binary64 where
  /-- The result of an operation without a value. -/
  | nan
  /-- Beyond every finite number, on the negative or the positive side. -/
  | infinity (negative : Bool)
  /-- A sign and the position of the magnitude. -/
  | finite (negative : Bool) (magnitude : Fin Binary64.positions)
  deriving DecidableEq, Repr

namespace Binary64

theorem positions_pos : 0 < positions := by decide

def signedZero (negative : Bool) : Binary64 := .finite negative ⟨0, positions_pos⟩

def zero : Binary64 := signedZero false

instance : Inhabited Binary64 := ⟨zero⟩

/-- The number at a position, or an infinity when the position is past the finite ones. -/
def atPosition (negative : Bool) (position : Nat) : Binary64 :=
  if h : position < positions then .finite negative ⟨position, h⟩ else .infinity negative

/-- The number nearest to `num / den` units, with a given sign. -/
def rounded (negative : Bool) (num den : Nat) : Binary64 :=
  atPosition negative (nearestPosition num den)

/-- Rounding is exact on the values of the format. -/
theorem rounded_units (negative : Bool) (magnitude : Fin positions) :
    rounded negative (units magnitude.val) 1 = .finite negative magnitude := by
  rw [rounded, nearestPosition_units]
  unfold atPosition
  exact dif_pos magnitude.isLt

/-- Whether the sign is negative; a `nan` has none. -/
def isNegative : Binary64 → Bool
  | .nan => false
  | .infinity negative => negative
  | .finite negative _ => negative

def isFinite : Binary64 → Bool
  | .finite _ _ => true
  | _ => false

/-- Whether the number is zero, of either sign. -/
def isZero : Binary64 → Bool
  | .finite _ magnitude => magnitude.val == 0
  | _ => false

/-- The exact value of a finite number in units, with its sign. -/
def signedUnits (negative : Bool) (position : Nat) : Int :=
  if negative then -(units position : Int) else units position

/-! ## Sixty-four-bit words

The positions are the words of the format: a finite number's word is its position with
the sign above it, the infinities follow the last position, and every later word is a
`nan`. -/

/-- The weight of the sign in a word. -/
def signWeight : Nat := twoTo 63

theorem positions_lt_signWeight : positions < signWeight := by decide

/-- What a sign adds to a word. -/
def signWord (negative : Bool) : Nat := if negative then signWeight else 0

/-- The word of a number; a `nan` gets the quiet one with an empty payload. -/
def toBits : Binary64 → Nat
  | .nan => positions + twoTo 51
  | .infinity negative => signWord negative + positions
  | .finite negative magnitude => signWord negative + magnitude.val

/-- The number with a given sign whose word, without the sign, is given. -/
def ofUnsignedWord (negative : Bool) (word : Nat) : Binary64 :=
  if h : word < positions then .finite negative ⟨word, h⟩
  else if word = positions then .infinity negative
  else .nan

/-- Words below the infinities are positions. -/
theorem ofUnsignedWord_magnitude (negative : Bool) (magnitude : Fin positions) :
    ofUnsignedWord negative magnitude.val = .finite negative magnitude := by
  unfold ofUnsignedWord
  exact dif_pos magnitude.isLt

/-- The first word after the positions is the one of the infinities. -/
theorem ofUnsignedWord_positions (negative : Bool) :
    ofUnsignedWord negative positions = .infinity negative := by
  unfold ofUnsignedWord
  rw [dif_neg (Nat.lt_irrefl positions), if_pos rfl]

/-- The number of a sixty-four-bit word. -/
def ofBits (word : Nat) : Binary64 :=
  ofUnsignedWord (word / signWeight % 2 == 1) (word % signWeight)

/-- A word splits into the sign that it was made with and the rest. -/
theorem ofBits_signWord_add (negative : Bool) {word : Nat} (h : word < signWeight) :
    ofBits (signWord negative + word) = ofUnsignedWord negative word := by
  have hpos : 0 < signWeight := Nat.lt_of_le_of_lt (Nat.zero_le _) h
  cases negative with
  | false =>
    rw [ofBits, signWord, if_neg (by decide), Nat.zero_add, Nat.div_eq_of_lt h,
      Nat.mod_eq_of_lt h]
    rfl
  | true =>
    rw [ofBits, signWord, if_pos rfl, Nat.add_div_left _ hpos, Nat.add_mod_left,
      Nat.div_eq_of_lt h, Nat.mod_eq_of_lt h]
    rfl

/-- A word read back is the number it was written for. -/
theorem ofBits_toBits (x : Binary64) : ofBits x.toBits = x := by
  cases x with
  | nan => decide
  | infinity negative =>
    exact (ofBits_signWord_add negative positions_lt_signWeight).trans
      (ofUnsignedWord_positions negative)
  | finite negative magnitude =>
    exact (ofBits_signWord_add negative
      (Nat.lt_trans magnitude.isLt positions_lt_signWeight)).trans
      (ofUnsignedWord_magnitude negative magnitude)

end Binary64

end CanvasScript
