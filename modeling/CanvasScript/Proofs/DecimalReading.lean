/-
The number that a decimal is read as depends on its value alone.

A decimal has many spellings: zeros can go from its digits to its exponent and back. Reading
it compares its order with two bounds and rounds one quotient, and neither sees the
difference. The order stays because the digits lose just the places that the exponent gains;
the nearest position stays because the two quotients are equal, and it depends on the
quotient and not on its two parts.

The second half is about the shortest decimal of a number. By its construction it reads back,
or else it is the exact value of the number. The exact value reads back as well: it is within
the bounds of the orders, and as a quotient it is the units of the number over one.
-/
import CanvasScript.Decimal.Shortest
import Mathlib.Tactic.Ring

set_option autoImplicit false

namespace CanvasScript

theorem twoTo_le_twoTo {a b : Nat} (h : a ≤ b) : twoTo a ≤ twoTo b :=
  Nat.pow_le_pow_right (by decide) h

/-! ## Rounding depends on the quotient -/

/-- Rounding depends on the quotient: a common factor makes no difference. -/
theorem nearestEven_mul_right {c : Nat} (hc : 0 < c) (num den : Nat) :
    nearestEven (num * c) (den * c) = nearestEven num den := by
  have htwice : 2 * (num * c % (den * c)) = 2 * (num % den) * c := by
    rw [Nat.mul_mod_mul_right, Nat.mul_assoc]
  simp only [nearestEven, htwice, Nat.mul_div_mul_right num den hc, Nat.mul_lt_mul_right hc]

namespace Binary64

/-- Nor does it to the nearest position. -/
theorem nearestPosition_mul_right {c : Nat} (hc : 0 < c) (num den : Nat) :
    nearestPosition (num * c) (den * c) = nearestPosition num den := by
  have hexcess : excess (num * c) (den * c) = excess num den := by
    rw [excess, excess, Nat.mul_div_mul_right num den hc]
  rw [nearestPosition, nearestPosition, hexcess, Nat.mul_right_comm den c,
    nearestEven_mul_right hc]

/-- Equal quotients have the same nearest position. -/
theorem nearestPosition_congr {num den num' den' : Nat} (hden : 0 < den) (hden' : 0 < den')
    (h : num * den' = num' * den) : nearestPosition num den = nearestPosition num' den' := by
  calc nearestPosition num den
      = nearestPosition (num * den') (den * den') := (nearestPosition_mul_right hden' _ _).symm
    _ = nearestPosition (num' * den) (den' * den) := by rw [h, Nat.mul_comm den]
    _ = nearestPosition num' den' := nearestPosition_mul_right hden _ _

/-! ## The units of a finite number -/

/-- All positions but the first are worth something. -/
theorem units_pos {position : Nat} (h : 0 < position) : 0 < units position := by
  by_cases hsmall : position < binade
  · rwa [units_of_lt hsmall]
  · rw [units_of_le (Nat.not_lt.1 hsmall)]
    exact Nat.mul_pos (Nat.add_pos_left binade_pos _) (twoTo_pos _)

/-- Every finite magnitude has fewer than `2^2098` units. From this comes a bound on the digits of
its exact value, which are the most that can be asked of the reader. -/
theorem units_lt {position : Nat} (h : position < positions) :
    units position < twoTo 2098 := by
  by_cases hsmall : position < binade
  · rw [units_of_lt hsmall]
    exact Nat.lt_of_lt_of_le hsmall (twoTo_le_twoTo (by decide))
  · have hquotient : position / binade < 2047 :=
      Nat.div_lt_of_lt_mul (by rwa [Nat.mul_comm])
    have hremainder : position % binade < binade :=
      Nat.mod_lt _ binade_pos
    -- a significand has fifty-three binary places, and it is shifted by at most 2045
    have hsignificand : binade + position % binade < twoTo 53 := by
      have hdouble : twoTo 53 = binade * 2 := twoTo_succ 52
      omega
    have hpower : twoTo (position / binade - 1) ≤ twoTo 2045 := twoTo_le_twoTo (by omega)
    rw [units_of_le (Nat.not_lt.1 hsmall), show 2098 = 53 + 2045 from rfl, twoTo_add]
    exact Nat.mul_lt_mul_of_lt_of_le hsignificand hpower (twoTo_pos _)

end Binary64

namespace Decimal

/-! ## Zeros at the end of the digits -/

/-- A number times a power of ten is written with so many zeros behind it. -/
theorem toDigits_mul_tenTo {n : Nat} (hn : 0 < n) (places : Nat) :
    Nat.toDigits 10 (n * tenTo places) = Nat.toDigits 10 n ++ List.replicate places '0' := by
  induction places with
  | zero => rw [tenTo_zero, Nat.mul_one, List.replicate_zero, List.append_nil]
  | succ places ih =>
    -- the digits of zero are one digit as well, so a leading one must be there
    have hpos : 0 < n * tenTo places := Nat.mul_pos hn (tenTo_pos _)
    have hlast := Nat.toDigits_append_toDigits (b := 10) (d := 0) (by decide) hpos (by decide)
    rw [Nat.add_zero, ih, List.append_assoc] at hlast
    rw [tenTo_succ, ← Nat.mul_assoc, Nat.mul_comm _ 10, ← hlast, List.replicate_succ']
    rfl

/-- A decimal keeps its order when zeros go from its digits to its exponent. -/
theorem order_mul_tenTo {digits : Nat} (h : 0 < digits) (places : Nat) (exponent : Int) :
    order ⟨digits * tenTo places, exponent⟩ = order ⟨digits, exponent + places⟩ := by
  simp only [order, digitCount, toDigits_mul_tenTo h, List.length_append,
    List.length_replicate, Nat.cast_add]
  omega

/-- **A decimal is read as the same number** when zeros go from its digits to its exponent. Reading
depends on the quotient of numerator and denominator alone, and on the place of the first digit, and
neither changes. -/
theorem toBinary64_mul_tenTo (negative : Bool) (digits places : Nat) (exponent : Int) :
    toBinary64 negative ⟨digits * tenTo places, exponent⟩ =
      toBinary64 negative ⟨digits, exponent + places⟩ := by
  rcases Nat.eq_zero_or_pos digits with rfl | hpos
  · rw [Nat.zero_mul, toBinary64_zero, toBinary64_zero]
  have hne : digits * tenTo places ≠ 0 := Nat.ne_of_gt (Nat.mul_pos hpos (tenTo_pos _))
  have hne' : digits ≠ 0 := Nat.ne_of_gt hpos
  -- both quotients are multiplied out, and then the powers of ten are the same
  have hplaces : places + exponent.toNat + (-(exponent + places)).toNat =
      (exponent + places).toNat + (-exponent).toNat := by omega
  have hpowers : tenTo places * tenTo exponent.toNat * tenTo (-(exponent + places)).toNat =
      tenTo (exponent + places).toNat * tenTo (-exponent).toNat := by
    rw [← tenTo_add, ← tenTo_add, ← tenTo_add, hplaces]
  have hquotient : Binary64.nearestPosition (numerator ⟨digits * tenTo places, exponent⟩)
        (denominator ⟨digits * tenTo places, exponent⟩) =
      Binary64.nearestPosition (numerator ⟨digits, exponent + places⟩)
        (denominator ⟨digits, exponent + places⟩) := by
    refine Binary64.nearestPosition_congr (denominator_pos _) (denominator_pos _) ?_
    simp only [numerator, denominator]
    calc digits * tenTo places * tenTo exponent.toNat * Binary64.unitsInOne *
          tenTo (-(exponent + places)).toNat
        = digits * Binary64.unitsInOne * (tenTo places * tenTo exponent.toNat *
            tenTo (-(exponent + places)).toNat) := by ring
      _ = digits * tenTo (exponent + places).toNat * Binary64.unitsInOne *
            tenTo (-exponent).toNat := by rw [hpowers]; ring
  simp only [toBinary64, order_mul_tenTo hpos, Binary64.rounded, hquotient, hne, hne']

/-! ## The shortest decimal reads back -/

theorem digitCount_le {n k : Nat} (hk : 0 < k) (h : n < tenTo k) : digitCount n ≤ k :=
  (Nat.length_toDigits_le_iff (by decide) hk).2 h

/-- And one that is not below it has more. -/
theorem lt_digitCount {n k : Nat} (hk : 0 < k) (h : tenTo k ≤ n) : k < digitCount n := by
  by_contra hle
  exact absurd ((Nat.length_toDigits_le_iff (by decide) hk).1 (Nat.not_lt.1 hle))
    (Nat.not_lt.2 h)

theorem fives_pos : 0 < Nat.pow 5 1074 := by decide +kernel

/-- The exact value of a finite number is within the orders that are rounded. Numbers of other
orders are zero or infinite without a look at their digits. -/
theorem order_exactly {units : Nat} (hpos : 0 < units) (hlt : units < twoTo 2098) :
    orderTooSmall < (exactly units).order ∧ (exactly units).order < orderTooLarge := by
  -- one unit has 751 digits, and the units of every finite number have at most 1383
  have hfive : tenTo 750 ≤ Nat.pow 5 1074 := by decide +kernel
  have hlow : tenTo 750 ≤ units * Nat.pow 5 1074 :=
    Nat.le_trans hfive (Nat.le_mul_of_pos_left _ hpos)
  have hhigh : units * Nat.pow 5 1074 < tenTo 1383 :=
    calc units * Nat.pow 5 1074 < twoTo 2098 * Nat.pow 5 1074 :=
          Nat.mul_lt_mul_of_pos_right hlt fives_pos
      _ ≤ tenTo 1383 := by decide +kernel
  have hmore := lt_digitCount (by decide) hlow
  have hless := digitCount_le (by decide) hhigh
  simp only [order, exactly, orderTooSmall, orderTooLarge]
  omega

/-- The exact value of a number is read as that number. It is a whole number of units, so the
quotient that is rounded is that number of units already and rounding does nothing. -/
theorem toBinary64_exactly {position : Nat} (hpos : 0 < position)
    (h : position < Binary64.positions) :
    (exactly (Binary64.units position)).toBinary64 false = .finite false ⟨position, h⟩ := by
  obtain ⟨hsmall, hlarge⟩ := order_exactly (Binary64.units_pos hpos) (Binary64.units_lt h)
  have hdigits : (exactly (Binary64.units position)).digits ≠ 0 :=
    Nat.ne_of_gt (Nat.mul_pos (Binary64.units_pos hpos) fives_pos)
  -- the fives of the exact digits and the twos of the unit make up the tens of the exponent
  have hten : Nat.pow 5 1074 * Binary64.unitsInOne = tenTo 1074 := by decide +kernel
  have hposition : Binary64.nearestPosition (exactly (Binary64.units position)).numerator
      (exactly (Binary64.units position)).denominator = position := by
    rw [← Binary64.nearestPosition_units position]
    refine Binary64.nearestPosition_congr (denominator_pos _) Nat.one_pos ?_
    rw [Binary64.nearestPosition_units]
    simp only [numerator, denominator, exactly]
    rw [show Int.toNat (-1074) = 0 from rfl, tenTo_zero, Nat.mul_one, Nat.mul_one,
      Nat.mul_assoc, hten]
    rfl
  rw [toBinary64, if_neg (by omega), if_neg (by omega), Binary64.rounded, hposition,
    Binary64.atPosition, dif_pos h]

/-- **The shortest decimal of a number is read as that number.** The search keeps a decimal only if
it is, and the exact one, which it can fall back on, always is. -/
theorem toBinary64_shortest {position : Nat} (hpos : 0 < position)
    (h : position < Binary64.positions) :
    (shortest position).toBinary64 false = .finite false ⟨position, h⟩ := by
  -- the search may find nothing, and then the exact value stands in
  rcases readsAs_shortest position with hreads | hexact
  · rw [readsAs, Binary64.atPosition, dif_pos h] at hreads
    exact eq_of_beq hreads
  · rw [hexact]
    exact toBinary64_exactly hpos h

/-- The shortest decimal of a number other than zero has digits. -/
theorem shortest_digits_pos {position : Nat} (hpos : 0 < position)
    (h : position < Binary64.positions) : 0 < (shortest position).digits := by
  by_contra hzero
  have hread := toBinary64_shortest hpos h
  rw [toBinary64, if_pos (.inl (by omega)), Binary64.signedZero] at hread
  simp only [Binary64.finite.injEq, Fin.mk.injEq, true_and] at hread
  omega

end Decimal

end CanvasScript
