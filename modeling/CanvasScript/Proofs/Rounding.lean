/-
What rounding does, without its formula.

The units of a position grow with it, by steps that never get smaller. Between two neighbouring
positions there is one border, in the middle of their units, and `lt_nearestPosition_iff` says that
rounding is about these borders only: a quotient is rounded beyond a position when it is beyond
the border above it, or on that border if the position is odd. So rounding keeps the order of
quotients, and what is to be known about a rounded quotient becomes an inequality between whole
numbers.

Everything here is about positions of positive numbers, and signs are put on at the end. `AtMost`
compares two such numbers in the way in which arithmetic with a constant keeps it, and a comparison
of numbers that a program computes is then followed back through its operations to the whole numbers
that it starts from.
-/
import CanvasScript.Proofs.WholeNumbers

set_option autoImplicit false

namespace CanvasScript

/-- The nearest whole number is above another one if the quotient is beyond its half, or on it when
the other one is odd. Stated so, rounding is compared with whole numbers only, and the division is
gone. -/
theorem lt_nearestEven_iff {num den : Nat} (hden : 0 < den) (k : Nat) :
    k < nearestEven num den ↔
      den * (2 * k + 1) < 2 * num ∨ (den * (2 * k + 1) = 2 * num ∧ k % 2 = 1) := by
  have hsplit : den * (num / den) + num % den = num := Nat.div_add_mod num den
  have hrest : num % den < den := Nat.mod_lt num hden
  rw [show den * (2 * k + 1) = 2 * (den * k) + den by ring]
  rw [nearestEven]
  generalize num / den = quotient at hsplit ⊢
  generalize num % den = rest at hsplit hrest ⊢
  -- only next to the quotient itself it matters what is left of the division
  rcases Nat.lt_trichotomy k quotient with hlt | rfl | hgt
  · have hmul : den * (k + 1) ≤ den * quotient := Nat.mul_le_mul_left den hlt
    rw [Nat.mul_add, Nat.mul_one] at hmul
    split_ifs <;> omega
  · split_ifs <;> omega
  · have hmul : den * (quotient + 1) ≤ den * k := Nat.mul_le_mul_left den hgt
    rw [Nat.mul_add, Nat.mul_one] at hmul
    split_ifs <;> omega

namespace Binary64

/-! ## Steps between positions -/

/-- The units from a position to the next one. -/
def gap (position : Nat) : Nat := twoTo (position / binade - 1)

theorem gap_pos (position : Nat) : 0 < gap position := twoTo_pos _

theorem gap_mono {p q : Nat} (h : p ≤ q) : gap p ≤ gap q :=
  twoTo_le_twoTo (Nat.sub_le_sub_right (Nat.div_le_div_right h) 1)

/-- The units of a window of positions, which is one binade or, at the start, two. In a window all
positions are one step apart, and the step is a power of two. -/
theorem units_window {shift k : Nat} (hlow : shift = 0 ∨ binade ≤ k) (hhigh : k ≤ 2 * binade) :
    units (shift * binade + k) = k * twoTo shift := by
  rcases Nat.lt_or_eq_of_le hhigh with hlt | rfl
  · by_cases hle : binade ≤ k
    · exact units_scaled hle hlt shift
    · obtain rfl := hlow.resolve_right hle
      rw [Nat.zero_mul, Nat.zero_add, units_of_lt (Nat.not_le.1 hle), twoTo_zero, Nat.mul_one]
  · -- the end of the window is the start of the next one
    have hnext := units_scaled (Nat.le_refl binade) (by have := binade_pos; omega) (shift + 1)
    rw [show shift * binade + 2 * binade = (shift + 1) * binade + binade by ring, hnext,
      twoTo_succ]
    ring

/-- Every position is in a window, and is not its end. -/
theorem exists_window (position : Nat) :
    ∃ k, position = (position / binade - 1) * binade + k ∧
      (position / binade - 1 = 0 ∨ binade ≤ k) ∧ k < 2 * binade := by
  have hsplit : binade * (position / binade) + position % binade = position :=
    Nat.div_add_mod position binade
  have hrest : position % binade < binade := Nat.mod_lt _ binade_pos
  rcases hshift : position / binade with _ | shift
  · rw [hshift] at hsplit
    exact ⟨position, by omega, .inl rfl, by omega⟩
  · rw [hshift, Nat.mul_add, Nat.mul_one] at hsplit
    refine ⟨binade + position % binade, ?_, .inr (Nat.le_add_right _ _), by omega⟩
    rw [Nat.add_sub_cancel, Nat.mul_comm]
    omega

/-- The units of the next position are one step more. -/
theorem units_succ (position : Nat) : units (position + 1) = units position + gap position := by
  obtain ⟨k, hposition, hlow, hhigh⟩ := exists_window position
  rw [gap]
  generalize position / binade - 1 = shift at hposition hlow ⊢
  rw [hposition, Nat.add_assoc, units_window hlow (Nat.le_of_lt hhigh),
    units_window (hlow.imp_right Nat.le_add_right_of_le) hhigh, Nat.add_mul,
    Nat.one_mul]

/-- So units grow with positions, and no two positions have the same. -/
theorem units_strictMono : StrictMono units :=
  strictMono_nat_of_lt_succ fun position => by
    rw [units_succ]
    exact Nat.lt_add_of_pos_right (gap_pos position)

/-! ## The borders of rounding -/

/-- The places that rounding takes off bring a quotient into a window. What is left of it has
fifty-three places, or fewer if none had to be taken off. -/
theorem excess_bounds (num : Nat) {den : Nat} (hden : 0 < den) :
    (excess num den = 0 ∨ binade * (den * twoTo (excess num den)) ≤ num) ∧
      num < 2 * binade * (den * twoTo (excess num den)) := by
  have htwice : 2 * binade = twoTo 53 := rfl
  by_cases hzero : num / den = 0
  · have hnone : excess num den = 0 := by rw [excess, hzero]; rfl
    refine ⟨.inl hnone, ?_⟩
    have hlt : num < den := (Nat.div_eq_zero_iff_lt hden).1 hzero
    calc num < 1 * den := by rwa [Nat.one_mul]
      _ ≤ 2 * binade * (den * twoTo (excess num den)) := by
        rw [hnone, twoTo_zero, Nat.mul_one]
        exact Nat.mul_le_mul_right den (twoTo_pos 53)
  · have hlow := (le_log2_iff hzero _).1 (Nat.le_refl (Nat.log2 (num / den)))
    have hhigh := (log2_lt_iff hzero _).1 (Nat.lt_succ_self (Nat.log2 (num / den)))
    rw [Nat.le_div_iff_mul_le hden] at hlow
    rw [Nat.div_lt_iff_lt_mul hden] at hhigh
    constructor
    · -- a quotient of at most fifty-three places loses none of them
      rcases Nat.le_total (Nat.log2 (num / den)) 52 with hle | hge
      · exact .inl (Nat.sub_eq_zero_of_le hle)
      · refine .inr (Nat.le_trans (Nat.le_of_eq ?_) hlow)
        rw [binade, excess, Nat.mul_left_comm, ← twoTo_add, Nat.add_sub_cancel' hge, Nat.mul_comm]
    · refine Nat.lt_of_lt_of_le hhigh ?_
      rw [htwice, Nat.mul_left_comm, ← twoTo_add, Nat.mul_comm]
      exact Nat.mul_le_mul_left den (twoTo_le_twoTo (by rw [excess]; omega))

/-- **A quotient is rounded beyond a position when it is beyond the middle between that position and
the next one**, or on it if the position is odd. The middle is given by the units of the two
positions, so nothing is said about exponents and significands. -/
theorem lt_nearestPosition_iff {num den : Nat} (hden : 0 < den) (p : Nat) :
    p < nearestPosition num den ↔
      den * (units p + units (p + 1)) < 2 * num ∨
        (den * (units p + units (p + 1)) = 2 * num ∧ p % 2 = 1) := by
  obtain ⟨hlow, hhigh⟩ := excess_bounds num hden
  rw [nearestPosition]
  generalize excess num den = shift at hlow hhigh ⊢
  have hscale : 0 < den * twoTo shift := Nat.mul_pos hden (twoTo_pos shift)
  obtain ⟨hfloor, hceil⟩ := nearestEven_bounds num (den * twoTo shift)
  have hquotient : num / (den * twoTo shift) < 2 * binade := by
    rwa [Nat.div_lt_iff_lt_mul hscale]
  by_cases hbefore : shift ≠ 0 ∧ p < shift * binade + binade
  · -- before the window
    have hnum : binade * (den * twoTo shift) ≤ num := hlow.resolve_left hbefore.1
    have hstart : binade ≤ num / (den * twoTo shift) := (Nat.le_div_iff_mul_le hscale).2 hnum
    have hunits : units p + units (p + 1) < 2 * (binade * twoTo shift) := by
      rw [← units_window (.inr (Nat.le_refl binade)) (by omega)]
      have hnext : units (p + 1) ≤ units (shift * binade + binade) :=
        units_strictMono.monotone hbefore.2
      have hstep := units_strictMono (Nat.lt_add_one p)
      omega
    have hborder : den * (units p + units (p + 1)) < 2 * num :=
      calc den * (units p + units (p + 1)) < den * (2 * (binade * twoTo shift)) :=
            Nat.mul_lt_mul_of_pos_left hunits hden
        _ = 2 * (binade * (den * twoTo shift)) := by ring
        _ ≤ 2 * num := Nat.mul_le_mul_left 2 hnum
    exact iff_of_true (by omega) (.inl hborder)
  · obtain ⟨k, rfl, hk⟩ : ∃ k, p = shift * binade + k ∧ (shift = 0 ∨ binade ≤ k) := by
      rcases Nat.eq_zero_or_pos shift with rfl | hpos
      · exact ⟨p, by omega, .inl rfl⟩
      · have hge : shift * binade + binade ≤ p :=
          Nat.not_lt.1 fun hlt => hbefore ⟨Nat.ne_of_gt hpos, hlt⟩
        obtain ⟨k, rfl⟩ := Nat.exists_eq_add_of_le hge
        exact ⟨binade + k, by omega, .inr (Nat.le_add_right _ _)⟩
    by_cases hinside : k < 2 * binade
    · -- in the window
      have heven : binade % 2 = 0 := by decide
      have hparity : (shift * binade + k) % 2 = k % 2 := by
        rw [Nat.add_mod, Nat.mul_mod, heven, Nat.mul_zero, Nat.zero_mod, Nat.zero_add, Nat.mod_mod]
      have hunits : den * (units (shift * binade + k) + units (shift * binade + k + 1)) =
          den * twoTo shift * (2 * k + 1) := by
        rw [Nat.add_assoc, units_window hk (Nat.le_of_lt hinside),
          units_window (hk.imp_right Nat.le_add_right_of_le) hinside]
        ring
      rw [hunits, hparity, Nat.add_lt_add_iff_left, lt_nearestEven_iff hscale]
    · -- behind the window
      have hend : 2 * binade * twoTo shift ≤ units (shift * binade + k) := by
        rw [← units_window (k := 2 * binade) (.inr (by omega)) (Nat.le_refl _)]
        exact units_strictMono.monotone (by omega)
      have hborder :
          2 * num < den * (units (shift * binade + k) + units (shift * binade + k + 1)) :=
        calc 2 * num < 2 * (2 * binade * (den * twoTo shift)) := by omega
          _ = den * (2 * binade * twoTo shift + 2 * binade * twoTo shift) := by ring
          _ ≤ den * (units (shift * binade + k) + units (shift * binade + k + 1)) := by
            have hstep := units_strictMono (Nat.lt_add_one (shift * binade + k))
            exact Nat.mul_le_mul_left den (by omega)
      exact iff_of_false (by omega) (by omega)

/-- On the border below an even position a quotient is rounded up. -/
theorem lt_nearestPosition_iff_of_odd {num den : Nat} (hden : 0 < den) {p : Nat}
    (hodd : p % 2 = 1) :
    p < nearestPosition num den ↔ den * (units p + units (p + 1)) ≤ 2 * num := by
  rw [lt_nearestPosition_iff hden, Nat.le_iff_lt_or_eq]
  simp only [hodd, and_true]

/-- Larger quotients are rounded to larger numbers, or to the same. -/
theorem nearestPosition_mono {den : Nat} (hden : 0 < den) : Monotone (nearestPosition · den) := by
  intro num num' hle
  change nearestPosition num den ≤ nearestPosition num' den
  by_contra hlt
  have hbeyond := (lt_nearestPosition_iff hden _).1 (Nat.not_le.1 hlt)
  exact Nat.lt_irrefl _ ((lt_nearestPosition_iff hden (nearestPosition num' den)).2 (by omega))

/-! ## Operations that keep the order -/

theorem atPosition_of_lt {p : Nat} (h : p < positions) (negative : Bool) :
    atPosition negative p = .finite negative ⟨p, h⟩ := by
  rw [atPosition, dif_pos h]

theorem atPosition_of_le {p : Nat} (h : positions ≤ p) (negative : Bool) :
    atPosition negative p = .infinity negative := by
  rw [atPosition, dif_neg (Nat.not_lt.2 h)]

/-- The order of the numbers that are not negative. -/
def AtMost (x y : Binary64) : Prop :=
  ∃ p q, p ≤ q ∧ x = atPosition false p ∧ y = atPosition false q

/-- An operation keeps the order if it rounds a quotient that grows with the units of its operand,
and an infinite operand gives an infinite result. -/
theorem AtMost.map {f : Binary64 → Binary64} {num : Nat → Nat} {den : Nat} (hden : 0 < den)
    (hnum : Monotone num)
    (hfinite : ∀ m : Fin positions, f (.finite false m) = rounded false (num (units m.val)) den)
    (hinfinite : f (.infinity false) = .infinity false) {x y : Binary64} (h : AtMost x y) :
    AtMost (f x) (f y) := by
  obtain ⟨p, q, hle, rfl, rfl⟩ := h
  -- if the larger one is finite, so is the smaller one
  rcases Nat.lt_or_ge q positions with hq | hq
  · have hp : p < positions := Nat.lt_of_le_of_lt hle hq
    rw [atPosition_of_lt hp, atPosition_of_lt hq, hfinite, hfinite]
    exact ⟨_, _, nearestPosition_mono hden (hnum (units_strictMono.monotone hle)), rfl, rfl⟩
  · rw [atPosition_of_le hq, hinfinite]
    -- infinity has all positions past the finite ones, so it is not below any number
    have hinfinity (r : Nat) : atPosition false (max r positions) = .infinity false :=
      atPosition_of_le (Nat.le_max_right _ _) false
    rcases Nat.lt_or_ge p positions with hp | hp
    · rw [atPosition_of_lt hp, hfinite]
      exact ⟨_, _, Nat.le_max_left _ positions, rfl, (hinfinity _).symm⟩
    · rw [atPosition_of_le hp, hinfinite]
      exact ⟨_, _, Nat.le_refl _, (hinfinity 0).symm, (hinfinity 0).symm⟩

/-- Whole numbers keep their order when they become numbers, those that are too large included. -/
theorem atMost_ofNat {a b : Nat} (h : a ≤ b) : AtMost (ofNat a) (ofNat b) := by
  rw [ofNat_eq_rounded, ofNat_eq_rounded]
  exact ⟨_, _, nearestPosition_mono Nat.one_pos (Nat.mul_le_mul_right _ h), rfl, rfl⟩

section Constant

variable {constant : Fin positions} {x y : Binary64}

/-- Multiplying by a positive constant keeps the order: the products are rounded alike. Two products
may be rounded to one number, so the order is not strict. -/
theorem AtMost.mul (hconstant : 0 < constant.val) (h : AtMost x y) :
    AtMost ((finite false constant).mul x) ((finite false constant).mul y) := by
  have hgrows : Monotone (units constant.val * ·) := fun _ _ hle => Nat.mul_le_mul_left _ hle
  refine h.map unitsInOne_pos hgrows (fun m => by rw [Binary64.mul, bne_self_eq_false]) ?_
  have hzero : (finite false constant).isZero = false :=
    beq_eq_false_iff_ne.2 (Nat.ne_of_gt hconstant)
  rw [Binary64.mul, hzero]
  · rfl
  · simp
  · simp

/-- So does adding a constant. -/
theorem AtMost.add (hconstant : 0 < constant.val) (h : AtMost x y) :
    AtMost ((finite false constant).add x) ((finite false constant).add y) := by
  have hgrows : Monotone (units constant.val + ·) := fun _ _ hle => Nat.add_le_add_left hle _
  refine h.map Nat.one_pos hgrows (fun m => ?_) rfl
  have hpos := units_pos hconstant
  have hsum : signedUnits false constant.val + signedUnits false m.val =
      ((units constant.val + units m.val : Nat) : Int) := (Nat.cast_add _ _).symm
  rw [Binary64.add, hsum, roundedUnits, if_neg (by omega), Int.natAbs_natCast,
    decide_eq_false (by omega)]

/-- And so does dividing by a positive one. -/
theorem AtMost.div (hconstant : 0 < constant.val) (h : AtMost x y) :
    AtMost (x.div (finite false constant)) (y.div (finite false constant)) := by
  have hgrows : Monotone (· * unitsInOne) := fun _ _ hle => Nat.mul_le_mul_right _ hle
  refine h.map (f := fun x => x.div (finite false constant)) (units_pos hconstant) hgrows
    (fun m => ?_) rfl
  rw [Binary64.div, if_neg (Nat.ne_of_gt hconstant), bne_self_eq_false]

end Constant

end Binary64

end CanvasScript
