/-
Whole numbers among the binary64 numbers.

Below `2^53` a whole number has a position of its own: its significand, shifted until the leading
bit stands in the highest place, is one of the significands of its binade. Products and sums are
rounded once from the exact result in units, so those of two such numbers are the number nearest
to the exact product or sum, and that number itself as long as it is below the bound as well.

This is what places of lines are computed from. The count of drawn lines, the margins and the
distance of lines are whole numbers, and a page would have to be longer than any script can make it
before a place was rounded.
-/
import CanvasScript.Number.Arithmetic
import CanvasScript.Proofs.DecimalReading

set_option autoImplicit false

namespace CanvasScript.Binary64

theorem unitsInOne_pos : 0 < unitsInOne := twoTo_pos _

theorem ofNat_eq_rounded (n : Nat) : ofNat n = rounded false (n * unitsInOne) 1 := by
  have hsign : decide ((n : Int) < 0) = false := by
    rw [decide_eq_false_iff_not]
    omega
  rw [ofNat, ofInt, hsign, Int.natAbs_natCast]

/-! ## The position of a whole number -/

/-- The units of a significand in its binade. -/
theorem units_scaled {significand : Nat} (hlow : binade ≤ significand)
    (hhigh : significand < 2 * binade) (shift : Nat) :
    units (shift * binade + significand) = significand * twoTo shift := by
  obtain ⟨rest, rfl⟩ := Nat.exists_eq_add_of_le hlow
  have hrest : rest < binade := by omega
  have hsplit : shift * binade + (binade + rest) = rest + binade * (shift + 1) := by ring
  have hle : binade ≤ rest + binade * (shift + 1) := by
    rw [← hsplit]
    omega
  rw [hsplit, units_of_le hle, Nat.add_mul_mod_self_left, Nat.mod_eq_of_lt hrest,
    Nat.add_mul_div_left _ _ binade_pos, Nat.div_eq_of_lt hrest, Nat.zero_add, Nat.add_sub_cancel]

/-- Shifted so far that its leading bit stands in the highest place, a whole number is a
significand. -/
theorem significand_bounds {n shift : Nat} (hne : n ≠ 0) (hshift : Nat.log2 n + shift = 52) :
    binade ≤ n * twoTo shift ∧ n * twoTo shift < 2 * binade := by
  have hlead := (le_log2_iff hne _).1 (Nat.le_refl (Nat.log2 n))
  have hbound := (log2_lt_iff hne _).1 (Nat.lt_succ_self (Nat.log2 n))
  constructor
  · calc binade = twoTo (Nat.log2 n) * twoTo shift := by rw [← twoTo_add, hshift]; rfl
      _ ≤ n * twoTo shift := Nat.mul_le_mul_right _ hlead
  · calc n * twoTo shift < twoTo (Nat.log2 n + 1) * twoTo shift :=
          Nat.mul_lt_mul_of_pos_right hbound (twoTo_pos _)
      _ = twoTo 53 := by rw [← twoTo_add]; congr 1; omega
      _ = 2 * binade := Nat.mul_comm _ _

/-- A whole number below `2^53` is exact. Its binary places fit a significand, so it is a
significand times a power of two without any rounding. -/
theorem exists_units_eq {n : Nat} (h : n < twoTo 53) :
    ∃ magnitude : Fin positions, units magnitude.val = n * unitsInOne := by
  rcases Nat.eq_zero_or_pos n with rfl | hpos
  · exact ⟨⟨0, positions_pos⟩, by rw [units_of_lt binade_pos, Nat.zero_mul]⟩
  · have hne : n ≠ 0 := Nat.ne_of_gt hpos
    have hlog : Nat.log2 n < 53 := (log2_lt_iff hne 53).2 h
    -- the number is moved up until its first place is that of a full significand
    obtain ⟨shift, hshift⟩ : ∃ shift, Nat.log2 n + shift = 52 := ⟨52 - Nat.log2 n, by omega⟩
    obtain ⟨hlow, hhigh⟩ := significand_bounds hne hshift
    have hposition : (1074 - shift) * binade + n * twoTo shift < positions := by
      have hle : (1074 - shift) * binade ≤ 1074 * binade :=
        Nat.mul_le_mul_right _ (Nat.sub_le _ _)
      have hpositions : positions = 2047 * binade := rfl
      omega
    refine ⟨⟨_, hposition⟩, ?_⟩
    rw [units_scaled hlow hhigh, Nat.mul_assoc, ← twoTo_add, Nat.add_sub_cancel' (by omega)]
    rfl

/-- The number for a whole number below `2^53` is the one with just its units. -/
theorem exists_ofNat_eq {n : Nat} (h : n < twoTo 53) :
    ∃ magnitude : Fin positions, ofNat n = .finite false magnitude ∧
      units magnitude.val = n * unitsInOne := by
  obtain ⟨magnitude, hunits⟩ := exists_units_eq h
  refine ⟨magnitude, ?_, hunits⟩
  rw [ofNat_eq_rounded, ← hunits, rounded_units]

/-! ## Products and sums -/

theorem ofNat_mul_ofNat {a b : Nat} (ha : a < twoTo 53) (hb : b < twoTo 53) :
    (ofNat a).mul (ofNat b) = ofNat (a * b) := by
  obtain ⟨m, hm, hmunits⟩ := exists_ofNat_eq ha
  obtain ⟨n, hn, hnunits⟩ := exists_ofNat_eq hb
  -- the units of one of the two factors cancel
  have hposition : nearestPosition (a * unitsInOne * (b * unitsInOne)) unitsInOne =
      nearestPosition (a * b * unitsInOne) 1 :=
    nearestPosition_congr unitsInOne_pos Nat.one_pos (by ring)
  rw [hm, hn, mul, hmunits, hnunits, ofNat_eq_rounded, rounded, rounded, hposition]
  rfl

theorem ofNat_add_ofNat {a b : Nat} (ha : a < twoTo 53) (hb : b < twoTo 53) :
    (ofNat a).add (ofNat b) = ofNat (a + b) := by
  obtain ⟨m, hm, hmunits⟩ := exists_ofNat_eq ha
  obtain ⟨n, hn, hnunits⟩ := exists_ofNat_eq hb
  have hsum : signedUnits false m.val + signedUnits false n.val =
      (((a + b) * unitsInOne : Nat) : Int) := by
    simp only [signedUnits, Bool.false_eq_true, if_false, hmunits, hnunits]
    rw [← Nat.cast_add, ← Nat.add_mul]
  rw [hm, hn, add, hsum, Bool.and_false, roundedUnits, ofNat_eq_rounded]
  split_ifs with hzero
  · -- without units there is nothing to round
    have hnone : (a + b) * unitsInOne = 0 := by exact_mod_cast hzero
    rw [hnone]
    exact (rounded_units false ⟨0, positions_pos⟩).symm
  · rw [Int.natAbs_natCast, decide_eq_false (by omega)]

end CanvasScript.Binary64
