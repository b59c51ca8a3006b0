/-
How the six comparisons of values fit together.

The four order operators read one comparison of their operands, and equality reads the operands
themselves. Of that comparison three facts are enough: exchanging the operands turns it around, it
is transitive, and it says "equal" exactly for values that are equal. Each law between the
operators is then a matter of the three ways in which operands can compare.

None of this would notice an order that runs the other way. So the last part says what the order
is: numbers compare by their exact values, with the infinities at the ends, and strings
character by character, by code point.
-/
import CanvasScript.Proofs.EqualValues
import CanvasScript.Proofs.Rounding
import Mathlib.Data.String.Basic

set_option autoImplicit false

namespace CanvasScript

/-! ## The comparison of numbers -/

namespace Binary64

/-- Numbers compare as their places do, when they have places. -/
theorem compare?_eq_some_iff {x y : Binary64} {o : Ordering} :
    x.compare? y = some o ↔
      ∃ p q, x.place? = some p ∧ y.place? = some q ∧ compare p q = o := by
  unfold compare?
  rcases x.place? with _ | p
  · simp
  · rcases y.place? with _ | q
    · simp
    · simp

/-- Exchanging two numbers turns their comparison around, and there is none in either order when
there is none in one. -/
theorem compare?_swap (x y : Binary64) : y.compare? x = (x.compare? y).map Ordering.swap := by
  unfold compare?
  rcases x.place? with _ | p
  · cases y.place? <;> rfl
  · rcases y.place? with _ | q
    · rfl
    · exact congrArg some Std.OrientedCmp.eq_swap

/-- Less is transitive on numbers. -/
theorem compare?_lt_trans {x y z : Binary64} (hxy : x.compare? y = some .lt)
    (hyz : y.compare? z = some .lt) : x.compare? z = some .lt := by
  obtain ⟨p, q, hx, hy, hpq⟩ := compare?_eq_some_iff.1 hxy
  obtain ⟨q', r, hy', hz, hqr⟩ := compare?_eq_some_iff.1 hyz
  obtain rfl : q = q' := Option.some.inj (hy.symm.trans hy')
  rw [compare_lt_iff_lt] at hpq hqr
  exact compare?_eq_some_iff.2 ⟨p, r, hx, hz, compare_lt_iff_lt.2 (Int.lt_trans hpq hqr)⟩

/-- Numbers do not compare exactly if one of them is a `nan`. -/
theorem compare?_eq_none_iff {x y : Binary64} : x.compare? y = none ↔ x = .nan ∨ y = .nan := by
  have hplace : ∀ z : Binary64, z.place? = none ↔ z = .nan := fun z => by
    rw [← not_iff_not, ← ne_eq, ← ne_eq, Option.ne_none_iff_isSome, isSome_place?]
  rw [← hplace, ← hplace]
  unfold compare?
  rcases x.place? with _ | p
  · simp
  · rcases y.place? with _ | q
    · simp
    · simp

end Binary64

/-! ## The comparison of values -/

namespace Value

/-- The pairs of values that have an order between them. -/
inductive Comparable : Value → Value → Prop
  | numbers (x y : Binary64) : Comparable (.number x) (.number y)
  | strings (s t : String) : Comparable (.string s) (.string t)

/-- Whether values have an order does not depend on which of them comes first. -/
theorem Comparable.symm {l r : Value} (h : Comparable l r) : Comparable r l := by
  cases h with
  | numbers x y => exact .numbers y x
  | strings s t => exact .strings t s

/-- Values that compare have an order. -/
theorem comparable_of_order?_eq_some {l r : Value} {o : Option Ordering}
    (h : l.order? r = some o) : Comparable l r := by
  unfold order? at h
  split at h
  · exact .numbers _ _
  · exact .strings _ _
  · exact absurd h (by simp)

/-- Values without an order do not compare. -/
theorem order?_eq_none {l r : Value} (h : ¬ Comparable l r) : l.order? r = none := by
  rcases horder : l.order? r with _ | o
  · rfl
  · exact absurd (comparable_of_order?_eq_some horder) h

/-- Exchanging the operands turns their comparison around. -/
theorem order?_swap (l r : Value) :
    r.order? l = (l.order? r).map (Option.map Ordering.swap) := by
  by_cases h : Comparable l r
  · cases h with
    | numbers x y => exact congrArg some (Binary64.compare?_swap x y)
    | strings s t => exact congrArg (some ∘ some) Std.OrientedCmp.eq_swap
  · rw [order?_eq_none h, order?_eq_none (mt Comparable.symm h)]
    rfl

/-- Less is transitive on values. If the first two and the last two have an order, they are all of
one kind. -/
theorem order?_lt_trans {l r m : Value} (hlr : l.order? r = some (some .lt))
    (hrm : r.order? m = some (some .lt)) : l.order? m = some (some .lt) := by
  cases comparable_of_order?_eq_some hlr with
  | numbers x y =>
    -- the middle value is a number, so the last one is
    cases comparable_of_order?_eq_some hrm with
    | numbers y z =>
      exact congrArg some (Binary64.compare?_lt_trans (Option.some.inj hlr) (Option.some.inj hrm))
  | strings s t =>
    cases comparable_of_order?_eq_some hrm with
    | strings t u =>
      simp only [order?, Option.some.injEq, compare_lt_iff_lt] at hlr hrm ⊢
      exact lt_trans hlr hrm

/-- Values that have an order are equal when they compare as equal. -/
theorem Comparable.same_iff {l r : Value} (h : Comparable l r) :
    l.same r = true ↔ l.order? r = some (some .eq) := by
  cases h with
  | numbers x y => simp [same, Scalar.same, Binary64.same, order?]
  | strings s t => simp [same, Scalar.same, order?]

/-- Values that have an order compare somehow, unless one of them is a `nan`. -/
theorem Comparable.order?_eq_some_none_iff {l r : Value} (h : Comparable l r) :
    l.order? r = some none ↔ l = .number .nan ∨ r = .number .nan := by
  cases h with
  | numbers x y => simp [order?, Binary64.compare?_eq_none_iff]
  | strings s t => simp [order?]

/-- Values with an order have some comparison, though it may be that of a `nan`, which says nothing.
-/
theorem Comparable.exists_order? {l r : Value} (h : Comparable l r) :
    ∃ o, l.order? r = some o := by
  cases h with
  | numbers x y => exact ⟨_, rfl⟩
  | strings s t => exact ⟨_, rfl⟩

end Value

/-! ## Operators that hold -/

/-- An operator that evaluates to true between two values. -/
def StrictOp.Holds (op : StrictOp) (l r : Value) : Prop := op.apply l r = .ok (.boolean true)

namespace StrictOp

/-- Where values have an order, an order operator gives a boolean, and for a `nan` it is false. -/
theorem apply_order {l r : Value} {o : Option Ordering} (h : l.order? r = some o) (op : OrderOp) :
    (order op).apply l r = .ok (.boolean (o.any op.holds)) := by
  rw [apply, h]

/-- Where they have none, it fails and names the two kinds. -/
theorem apply_order_of_not_comparable {l r : Value} (h : ¬ l.Comparable r) (op : OrderOp) :
    (order op).apply l r = .error (.binaryMismatch op.symbol l.kind r.kind) := by
  rw [apply, Value.order?_eq_none h]

/-- Equality reads the values and not their comparison. -/
theorem holds_equal_iff {l r : Value} : equal.Holds l r ↔ l.same r = true := by
  simp [Holds, apply]

/-- An order operator holds exactly for the comparisons that it is about. -/
theorem holds_order_iff {l r : Value} {op : OrderOp} :
    (order op).Holds l r ↔ ∃ o, l.order? r = some (some o) ∧ op.holds o = true := by
  unfold Holds
  rcases h : l.order? r with _ | _ | o
  · simp [apply, h]
  · simp [apply_order h]
  · simp [apply_order h]

/-- Less holds if the comparison says so. -/
theorem holds_less_iff {l r : Value} :
    (order .less).Holds l r ↔ l.order? r = some (some .lt) := by
  rw [holds_order_iff]
  simp [OrderOp.holds]

/-- An operator that is about the comparison turned around is the operator with its operands
exchanged. -/
theorem apply_order_swap {op op' : OrderOp} (h : ∀ o : Ordering, op.holds o = op'.holds o.swap)
    {l r : Value} (hcomparable : l.Comparable r) :
    (order op).apply l r = (order op').apply r l := by
  obtain ⟨o, horder⟩ := hcomparable.exists_order?
  have hswapped : r.order? l = some (o.map Ordering.swap) := by
    rw [Value.order?_swap, horder, Option.map_some]
  rw [apply_order horder, apply_order hswapped]
  cases o with
  | none => rfl
  | some o => simp [h]

/-- Between values that have an order and are no `nan`, exactly one of the three strict
comparisons holds. -/
theorem existsUnique_holds {l r : Value} {o : Ordering} (h : l.order? r = some (some o)) :
    ∃! op, op ∈ [order .less, equal, order .greater] ∧ op.Holds l r := by
  have hequal : equal.Holds l r ↔ o = .eq := by
    rw [holds_equal_iff, (Value.comparable_of_order?_eq_some h).same_iff, h, Option.some.injEq,
      Option.some.injEq]
  have horder : ∀ op : OrderOp, (order op).Holds l r ↔ op.holds o = true := fun op => by
    simp [Holds, apply_order h]
  cases o with
  | lt => exact ⟨order .less, by simp [horder, OrderOp.holds],
      by simp [horder, hequal, OrderOp.holds]⟩
  | eq => exact ⟨equal, by simp [hequal], by simp [horder, OrderOp.holds]⟩
  | gt => exact ⟨order .greater, by simp [horder, OrderOp.holds],
      by simp [horder, hequal, OrderOp.holds]⟩

end StrictOp

/-! ## What the order is -/

namespace Binary64

/-- The order of the numbers by their exact values. -/
def Below : Binary64 → Binary64 → Prop
  | .nan, _ => False
  | _, .nan => False
  | .infinity a, .infinity b => a = true ∧ b = false
  | .infinity a, .finite _ _ => a = true
  | .finite _ _, .infinity b => b = false
  | .finite a m, .finite b n => signedUnits a m < signedUnits b n

/-- A function that grows from zero, continued to negative numbers, keeps their order. It carries
the order of places over to the exact values, as a number has its sign and a place apart. -/
theorem signed_lt_signed_iff {f : Nat → Nat} (hf : StrictMono f) (hzero : f 0 = 0) (a b : Bool)
    (m n : Nat) :
    (if a then -(f m : Int) else f m) < (if b then -(f n : Int) else f n) ↔
      (if a then -(m : Int) else m) < (if b then -(n : Int) else n) := by
  have hmono : f m < f n ↔ m < n := hf.lt_iff_lt
  have hmono' : f n < f m ↔ n < m := hf.lt_iff_lt
  have hm : f 0 < f m ↔ 0 < m := hf.lt_iff_lt
  have hn : f 0 < f n ↔ 0 < n := hf.lt_iff_lt
  rw [hzero] at hm hn
  -- equal signs compare the function's values one way or the other, and different signs their being
  -- zero
  cases a with
  | false => cases b with
    | false => simp; omega
    | true => simp; omega
  | true => cases b with
    | false => simp; omega
    | true => simp; omega

/-- A place that is farther out than another lies before it when it is a negative one. How far out
is then of no importance, so this settles how infinities compare with finite numbers. -/
theorem signed_lt_iff_of_farther {p n : Nat} (h : n < p) (a b : Bool) :
    ((if a then -(p : Int) else p) < (if b then -(n : Int) else n) ↔ a = true) ∧
      ((if b then -(n : Int) else n) < (if a then -(p : Int) else p) ↔ a = false) := by
  cases a with
  | false => cases b with
    | false => simp; omega
    | true => simp; omega
  | true => cases b with
    | false => simp; omega
    | true => simp; omega

theorem units_zero : units 0 = 0 := units_of_lt binade_pos

/-- Numbers compare by their exact values, and the infinities are below and above all others. The
places of numbers are not named in this, only what they are worth. -/
theorem compare?_eq_lt_iff_below {x y : Binary64} : x.compare? y = some .lt ↔ x.Below y := by
  rw [compare?_eq_some_iff]
  simp only [compare_lt_iff_lt]
  cases x with
  | nan => simp [place?, Below]
  | infinity a =>
    cases y with
    | nan => simp [place?, Below]
    | infinity b =>
      have hpos := positions_pos
      cases a with
      | false => cases b with
        | false => simp [place?, Below]
        | true => simp [place?, Below]
      | true => cases b with
        | false => simp [place?, Below]; omega
        | true => simp [place?, Below]
    | finite b n =>
      -- no finite number is as far out as an infinity
      simpa [place?, Below] using (signed_lt_iff_of_farther n.isLt a b).1
  | finite a m =>
    cases y with
    | nan => simp [place?, Below]
    | infinity b => simpa [place?, Below] using (signed_lt_iff_of_farther m.isLt b a).2
    | finite b n =>
      simp only [place?, Below, signedUnits, Option.some.injEq]
      rw [signed_lt_signed_iff units_strictMono units_zero]
      simp

end Binary64

/-- The order of texts: at the first difference the smaller code point comes first, and a text comes
before those that go on from it. -/
def TextBefore (s t : String) : Prop :=
  List.Lex (fun c d => c.toNat < d.toNat) s.toList t.toList

/-- Strings compare character by character. The first character that differs decides, and where none
differs, the shorter string is less. -/
theorem compare_eq_lt_iff_textBefore {s t : String} : compare s t = .lt ↔ TextBefore s t := by
  rw [compare_lt_iff_lt, String.lt_iff_toList_lt]
  exact Iff.rfl

/-! ## The laws -/

/-- **The comparisons are coherent.** Between two numbers or two strings all of them have an answer.
Exactly one of less, equal and greater holds, unless there is a `nan`, for which only inequality
does. The other operators are what these three make them, and less is the order of exact values
and of code points. Other values have no order, and are equal or not. -/
theorem comparisons_coherent (a b c : Value) :
    (a.Comparable b →
      (∀ op, ∃ answer, (StrictOp.order op).apply a b = .ok (.boolean answer)) ∧
      (a ≠ .number .nan → b ≠ .number .nan →
        ∃! op, op ∈ [StrictOp.order .less, .equal, .order .greater] ∧ op.Holds a b) ∧
      (a = .number .nan ∨ b = .number .nan →
        (∀ op, (StrictOp.order op).apply a b = .ok (.boolean false)) ∧
          StrictOp.equal.apply a b = .ok (.boolean false)) ∧
      ((StrictOp.order .lessEqual).Holds a b ↔
        (StrictOp.order .less).Holds a b ∨ StrictOp.equal.Holds a b) ∧
      (StrictOp.order .greaterEqual).apply a b = (StrictOp.order .lessEqual).apply b a ∧
      (StrictOp.order .greater).apply a b = (StrictOp.order .less).apply b a) ∧
    ((StrictOp.order .less).Holds a b → (StrictOp.order .less).Holds b c →
      (StrictOp.order .less).Holds a c) ∧
    (∀ x y, (StrictOp.order .less).Holds (.number x) (.number y) ↔ x.Below y) ∧
    (∀ s t, (StrictOp.order .less).Holds (.string s) (.string t) ↔ TextBefore s t) ∧
    (¬ a.Comparable b →
      ∀ op, (StrictOp.order op).apply a b = .error (.binaryMismatch op.symbol a.kind b.kind)) ∧
    ∃ answer, StrictOp.equal.apply a b = .ok (.boolean answer) ∧
      StrictOp.notEqual.apply a b = .ok (.boolean !answer) := by
  refine ⟨fun hcomparable => ⟨?_, ?_, ?_, ?_, ?_, ?_⟩, ?_, ?_, ?_, ?_, a.same b, rfl, rfl⟩
  · intro op
    obtain ⟨o, horder⟩ := hcomparable.exists_order?
    exact ⟨_, StrictOp.apply_order horder op⟩
  · intro ha hb
    obtain ⟨_ | o, horder⟩ := hcomparable.exists_order?
    · exact absurd (hcomparable.order?_eq_some_none_iff.1 horder) (not_or.2 ⟨ha, hb⟩)
    · exact StrictOp.existsUnique_holds horder
  · intro hnan
    have horder := hcomparable.order?_eq_some_none_iff.2 hnan
    refine ⟨fun op => StrictOp.apply_order horder op, ?_⟩
    -- a `nan` makes the order undecided, and equal values have a decided one
    have hdiffer : a.same b = false := by
      rw [← Bool.not_eq_true, hcomparable.same_iff, horder]
      simp
    rw [StrictOp.apply, hdiffer]
  · rw [StrictOp.holds_less_iff, StrictOp.holds_equal_iff, hcomparable.same_iff,
      StrictOp.holds_order_iff]
    rcases hcomparable.exists_order? with ⟨_ | _ | _ | _, horder⟩ <;> simp [horder, OrderOp.holds]
  · -- greater is less with the operands swapped, and so are the two that include equality
    exact StrictOp.apply_order_swap (by decide) hcomparable
  · exact StrictOp.apply_order_swap (by decide) hcomparable
  · rw [StrictOp.holds_less_iff, StrictOp.holds_less_iff, StrictOp.holds_less_iff]
    exact Value.order?_lt_trans
  · intro x y
    rw [StrictOp.holds_less_iff, ← Binary64.compare?_eq_lt_iff_below, Value.order?,
      Option.some.injEq]
  · intro s t
    rw [StrictOp.holds_less_iff, ← compare_eq_lt_iff_textBefore, Value.order?, Option.some.injEq,
      Option.some.injEq]
  · exact StrictOp.apply_order_of_not_comparable

end CanvasScript
