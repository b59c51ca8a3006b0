/-
From which height on a line stands on a row or below it.

A height is divided by the height of a row, and this quotient is rounded to a number and then to a
whole one. Both roundings are monotone, so there is a border for each row. The whole number is at
least `n` when the number is at least `n` less a half, which is a number itself at an even position;
and on the border below an even position, a quotient is rounded up. So rounding twice comes to one
comparison with the middle between `n` less a half and the number before it (`border`).

These middles are almost where they would be without rounding to numbers. From a row to the next
they go up by no more than one, and they are below `n` less a half by next to nothing.
-/
import CanvasScript.Proofs.Paging
import CanvasScript.Proofs.Rounding
import CanvasScript.Surface.Terminal

set_option autoImplicit false

namespace CanvasScript

namespace Binary64

/-! ## Halves -/

def unitsInHalf : Nat := twoTo 1073

theorem unitsInOne_eq : unitsInOne = 2 * unitsInHalf := by
  rw [unitsInHalf, Nat.mul_comm, ← twoTo_succ]
  rfl

theorem unitsInHalf_pos : 0 < unitsInHalf := twoTo_pos _

/-- The position of a number of halves. -/
def halves (n : Nat) : Nat := nearestPosition (n * unitsInHalf) 1

/-- What is to be known about the position of a number of halves. -/
structure IsHalves (n position : Nat) : Prop where
  units_eq : units position = n * unitsInHalf
  even : position % 2 = 0
  binade_lt : binade < position
  lt_positions : position < positions

/-- Below `2^52`, a number of halves is exact and at an even position. It has a binary place to
spare, which is zero, and the last binary place of its significand is the parity of its position. -/
theorem isHalves_halves {n : Nat} (hpos : 0 < n) (h : n < binade) : IsHalves n (halves n) := by
  have hne : n ≠ 0 := Nat.ne_of_gt hpos
  have hlog : Nat.log2 n < 52 := (log2_lt_iff hne 52).2 h
  obtain ⟨shift, hshift⟩ : ∃ shift, Nat.log2 n + (shift + 1) = 52 := ⟨51 - Nat.log2 n, by omega⟩
  obtain ⟨hlow, hhigh⟩ := significand_bounds hne hshift
  have hunits : units ((1072 - shift) * binade + n * twoTo (shift + 1)) = n * unitsInHalf := by
    rw [units_scaled hlow hhigh, Nat.mul_assoc, ← twoTo_add, unitsInHalf]
    congr 2
    omega
  -- the position is even because its second part ends in a zero
  have hposition : halves n = (1072 - shift) * binade + n * twoTo (shift + 1) := by
    rw [halves, ← hunits, nearestPosition_units]
  rw [hposition]
  have hbinade : binade = 2 * twoTo 51 := Nat.mul_comm _ _
  have hlast : (1072 - shift) * binade ≤ 1072 * binade := Nat.mul_le_mul_right _ (Nat.sub_le _ _)
  have hfirst : 1 * binade ≤ (1072 - shift) * binade := Nat.mul_le_mul_right _ (by omega)
  have hpositions : positions = 2047 * binade := rfl
  have hpositive := binade_pos
  refine ⟨hunits, ?_, by omega, by omega⟩
  rw [twoTo_succ, hbinade, Nat.add_mod, Nat.mul_left_comm, Nat.mul_mod_right, ← Nat.mul_assoc,
    Nat.mul_mod_left]

/-! ## Borders -/

/-- Twice the units from which on a quotient is rounded to a number of halves or above. -/
def border (n : Nat) : Nat := units (halves n - 1) + units (halves n)

section Border

variable {n : Nat} (hpos : 0 < n) (hlt : n < binade)
include hpos hlt

/-- A quotient is rounded to a height of so many halves, or beyond, exactly if it is not below the
border. -/
theorem halves_le_nearestPosition_iff {num den : Nat} (hden : 0 < den) :
    halves n ≤ nearestPosition num den ↔ den * border n ≤ 2 * num := by
  have hhalves := isHalves_halves hpos hlt
  obtain ⟨p, hp⟩ : ∃ p, halves n = p + 1 := ⟨halves n - 1, by have := hhalves.binade_lt; omega⟩
  have hodd : p % 2 = 1 := by
    have := hhalves.even
    omega
  rw [border, hp, Nat.add_sub_cancel, ← lt_nearestPosition_iff_of_odd hden hodd]
  rfl

/-- A border is below its number of halves by half a step. -/
theorem border_add_gap : border n + gap (halves n - 1) = n * unitsInOne := by
  have hhalves := isHalves_halves hpos hlt
  have hstep := units_succ (halves n - 1)
  rw [Nat.sub_add_cancel (by have := hhalves.binade_lt; omega)] at hstep
  rw [border, unitsInOne_eq, Nat.mul_left_comm, ← hhalves.units_eq]
  omega

theorem border_le : border n ≤ n * unitsInOne := Nat.le.intro (border_add_gap hpos hlt)

/-- That is next to nothing. -/
theorem binade_mul_gap_le : 2 * (binade * gap (halves n - 1)) ≤ n * unitsInOne := by
  have hhalves := isHalves_halves hpos hlt
  have hle : binade ≤ halves n - 1 := Nat.le_sub_one_of_lt hhalves.binade_lt
  have hgap : binade * gap (halves n - 1) ≤ units (halves n - 1) := by
    rw [units_of_le hle]
    exact Nat.mul_le_mul_right _ (Nat.le_add_right _ _)
  calc 2 * (binade * gap (halves n - 1)) ≤ 2 * units (halves n) :=
        Nat.mul_le_mul_left 2 (Nat.le_trans hgap (units_strictMono.monotone (Nat.sub_le _ _)))
    _ = n * unitsInOne := by rw [hhalves.units_eq, unitsInOne_eq, Nat.mul_left_comm]

/-- Near such heights, numbers are at most one apart. -/
theorem gap_le : gap (halves n - 1) ≤ unitsInOne := by
  have hsmall := binade_mul_gap_le hpos hlt
  have hbound : n * unitsInOne ≤ binade * unitsInOne :=
    Nat.mul_le_mul_right _ (Nat.le_of_lt hlt)
  exact Nat.le_of_mul_le_mul_left (by omega) binade_pos

end Border

/-- From the border of a row to that of the next one, it is at most one. The gap below a border does
not get smaller from row to row. -/
theorem border_succ_le {r : Nat} (h : 2 * (r + 1) + 1 < binade) :
    border (2 * (r + 1) + 1) ≤ border (2 * r + 1) + 2 * unitsInOne := by
  have hhalves : 2 * (r + 1) + 1 = 2 * r + 1 + 2 := by omega
  have hlower := border_add_gap (Nat.add_one_pos (2 * r)) (by omega)
  have hupper := border_add_gap (Nat.add_one_pos _) h
  have hle : halves (2 * r + 1) ≤ halves (2 * (r + 1) + 1) :=
    nearestPosition_mono Nat.one_pos (Nat.mul_le_mul_right _ (by omega))
  -- the steps of positions never get smaller, so the upper border gains nothing by its rounding
  have hgap := gap_mono (Nat.sub_le_sub_right hle 1)
  have hunits : (2 * (r + 1) + 1) * unitsInOne = (2 * r + 1) * unitsInOne + 2 * unitsInOne := by
    rw [hhalves, Nat.add_mul]
  omega

end Binary64

namespace Terminal

open Binary64

/-! ## Rows -/

/-- There is room for the halves of all rows. -/
theorem halves_lt_binade {r : Nat} (h : r ≤ lastCell) : 2 * r + 1 < binade := by
  have hlast : 2 * lastCell + 1 < binade := by decide
  omega

/-- A quotient that is not below a row's border is on that row or below it. The border of row `r` is
at `r` and a half: quotients are rounded to the nearest whole number, halves away from zero, and one
is taken off because rows are counted from zero. -/
theorem le_confined_iff {r : Nat} (hpos : 0 < r) (hle : r ≤ lastCell) (p : Nat) :
    r ≤ (atPosition false p).confined (fun exact => nearestAway exact - 1) lastCell ↔
      halves (2 * r + 1) ≤ p := by
  have hhalves : IsHalves (2 * r + 1) (halves (2 * r + 1)) :=
    isHalves_halves (Nat.add_one_pos _) (halves_lt_binade hle)
  -- a finite quotient is on the row that its exact value says, and an infinite one on the last row
  rcases Nat.lt_or_ge p positions with hp | hp
  · have hexact : nearestAway (signedUnits false p) =
        (((2 * units p + unitsInOne) / (2 * unitsInOne) : Nat) : Int) := by
      have hunits : signedUnits false p = (units p : Int) := rfl
      rw [nearestAway, hunits, Int.natAbs_natCast, if_neg (by omega)]
    have hwhole : r + 1 ≤ (2 * units p + unitsInOne) / (2 * unitsInOne) ↔
        (2 * r + 1) * unitsInHalf ≤ units p := by
      have hhalf := unitsInHalf_pos
      rw [Nat.le_div_iff_mul_le (by rw [unitsInOne_eq]; omega), unitsInOne_eq]
      generalize unitsInHalf = half
      rw [show (r + 1) * (2 * (2 * half)) = 4 * (r * half) + 4 * half by ring,
        show (2 * r + 1) * half = 2 * (r * half) + half by ring]
      omega
    have hposition : halves (2 * r + 1) ≤ p ↔ (2 * r + 1) * unitsInHalf ≤ units p := by
      rw [← hhalves.units_eq, units_strictMono.le_iff_le]
    rw [atPosition_of_lt hp, confined, hexact, confine, hposition, ← hwhole]
    omega
  · rw [atPosition_of_le hp]
    exact iff_of_true hle (Nat.le_trans (Nat.le_of_lt hhalves.lt_positions) hp)

/-- Lower heights are on higher rows, or on the same. -/
theorem rowOf_mono {terminal : Terminal} {height : Fin positions}
    (hheight : terminal.lineHeight = .finite false height) (hpos : 0 < height.val)
    {y y' : Binary64} (h : AtMost y y') : terminal.rowOf y ≤ terminal.rowOf y' := by
  obtain ⟨p, q, hle, hp, hq⟩ := h.div hpos
  rw [rowOf, rowOf, hheight, hp, hq]
  rcases Nat.eq_zero_or_pos ((atPosition false p).confined
    (fun exact => nearestAway exact - 1) lastCell) with hzero | hrow
  · rw [hzero]
    exact Nat.zero_le _
  · exact (le_confined_iff hrow (confined_le ..) q).2
      (Nat.le_trans ((le_confined_iff hrow (confined_le ..) p).1 (Nat.le_refl _)) hle)

/-- **Whether a whole number of pixels is on a row or below it** is one comparison. The division,
its rounding, the conversion to a row and the two bounds of rows have gone from it. -/
theorem le_rowOf_ofNat_iff {terminal : Terminal} {height : Fin positions}
    (hheight : terminal.lineHeight = .finite false height) (hpos : 0 < height.val)
    {pixels : Nat} (hpixels : pixels < twoTo 53) {r : Nat} (hrow : 0 < r) (hle : r ≤ lastCell) :
    r ≤ terminal.rowOf (.ofNat pixels) ↔
      units height.val * border (2 * r + 1) ≤ 2 * (pixels * unitsInOne * unitsInOne) := by
  obtain ⟨magnitude, hofNat, hunits⟩ := exists_ofNat_eq hpixels
  have hquotient : (ofNat pixels).div terminal.lineHeight = atPosition false
      (nearestPosition (pixels * unitsInOne * unitsInOne) (units height.val)) := by
    rw [hheight, hofNat, div, if_neg (Nat.ne_of_gt hpos), bne_self_eq_false, rounded, hunits]
  rw [rowOf, hquotient, le_confined_iff hrow hle,
    halves_le_nearestPosition_iff (Nat.add_one_pos _) (halves_lt_binade hle) (units_pos hpos)]

end Terminal

end CanvasScript
