/-
The brace index against the plain scan for a closing line.

`BraceIndex.ofLines` passes the lines once, from the last to the first, and keeps a stack.
What makes the stack enough is a single fact: a query for the nearest line whose total lies
below some bound has the same answer on the stack as on all the lines passed. A line is
taken off the stack only by an earlier line whose total is not larger, and that line then
answers every query that the removed one would have answered. No order on the stack is
needed for this.

Running totals and depths differ by a constant, so the nearest smaller total is the first
line of the plain scan `closingFrom?` at which the depth is no longer positive. The last
section describes that scan without its recursion, by the depth after each line.
-/
import CanvasScript.Literal.Extent
import Mathlib.Algebra.BigOperators.Group.List.Basic
import Mathlib.Algebra.Ring.Int.Defs
import Mathlib.Data.List.TakeWhile

set_option autoImplicit false

namespace CanvasScript

/-! ## The stack answers queries for nearest smaller totals -/

/-- What is dropped from the front of a list is not missed by a search for something else. -/
theorem find?_dropWhile_of_disjoint {α : Type} {dropped wanted : α → Bool}
    (hdisjoint : ∀ x, dropped x = true → wanted x = false) (l : List α) :
    (l.dropWhile dropped).find? wanted = l.find? wanted := by
  -- on the list, since dropping and searching both begin at its front
  induction l with
  | nil => rfl
  | cons x rest ih =>
    -- an element that is dropped is not wanted, and the first one that is kept ends the drop
    by_cases hx : dropped x = true
    · rw [List.dropWhile_cons_of_pos hx, ih, List.find?_cons_of_neg]
      simp [hdisjoint x hx]
    · rw [List.dropWhile_cons_of_neg hx]

namespace Sweep

/-- The nearest line of a list whose total lies below a bound. -/
def nearestBelow? (bound : Int) (all : List Total) : Option Total :=
  all.find? fun later => decide (later.total < bound)

theorem ofTotals_cons (here : Total) (rest : List Total) :
    ofTotals (here :: rest) = pass here (ofTotals rest) := rfl

/-- The nearest line with a total below the bound is the first one, if that is so low. -/
theorem nearestBelow?_cons_of_lt {here : Total} {bound : Int} (h : here.total < bound)
    (rest : List Total) : nearestBelow? bound (here :: rest) = some here := by
  rw [nearestBelow?, List.find?_cons_of_pos (by simpa using h)]

theorem nearestBelow?_cons_of_le {here : Total} {bound : Int} (h : bound ≤ here.total)
    (rest : List Total) : nearestBelow? bound (here :: rest) = nearestBelow? bound rest := by
  rw [nearestBelow?, List.find?_cons_of_neg (by simpa using h), nearestBelow?]

/-- The lines that a line hides answer no query with a bound up to its own total. -/
theorem nearestBelow?_visible {here : Total} {bound : Int} (hle : bound ≤ here.total)
    (stack : List Total) :
    nearestBelow? bound (visible here stack) = nearestBelow? bound stack := by
  apply find?_dropWhile_of_disjoint
  intro later hlater
  have hge : here.total ≤ later.total := by simpa using hlater
  have hnot : ¬ later.total < bound := by omega
  simpa using hnot

/-- **The stack is enough.** It answers every query for a nearest smaller total as the list
of all lines passed does. -/
theorem nearestBelow?_stack (bound : Int) (all : List Total) :
    nearestBelow? bound (ofTotals all).stack = nearestBelow? bound all := by
  induction all with
  | nil => rfl
  | cons here rest ih =>
    have hstack : (ofTotals (here :: rest)).stack = here :: visible here (ofTotals rest).stack :=
      rfl
    rw [hstack]
    rcases Int.lt_or_le here.total bound with hlt | hge
    · rw [nearestBelow?_cons_of_lt hlt, nearestBelow?_cons_of_lt hlt]
    · -- neither the new line nor what it hides is an answer
      rw [nearestBelow?_cons_of_le hge, nearestBelow?_cons_of_le hge,
        nearestBelow?_visible hge, ih]

/-- What is on top once the hidden lines are gone is the nearest line with a smaller total. The
lines that are gone do not have one, and those below are further away. -/
theorem head?_visible (here : Total) (rest : List Total) :
    (visible here (ofTotals rest).stack).head? = nearestBelow? here.total rest := by
  have hhead : (visible here (ofTotals rest).stack).head? =
      nearestBelow? here.total (ofTotals rest).stack := by
    rw [visible, ← List.find?_not_eq_head?_dropWhile, nearestBelow?]
    congr 1
    funext later
    simp only [← decide_not, Int.not_le]
  rw [hhead, nearestBelow?_stack]

/-- The pass gives every line its nearest smaller total, with the depth there. -/
theorem closings_ofTotals_cons (here : Total) (rest : List Total) :
    (ofTotals (here :: rest)).closings =
      (nearestBelow? here.total rest).map (closing here) :: (ofTotals rest).closings := by
  rw [ofTotals_cons, pass, ← head?_visible]

end Sweep

/-! ## Totals and depths -/

/-- A scan that starts at a depth stops at the first total below the one where the depth
would be one. -/
theorem closingFrom?_eq_nearestBelow? {depth earlier : Int} {here : Total}
    (hdepth : depth = 1 + earlier - here.total) (index : Nat) (lines : List String) :
    closingFrom? depth index lines =
      (Sweep.nearestBelow? here.total (totalsFrom index earlier lines)).map
        (Sweep.closing here) := by
  induction lines generalizing depth earlier index with
  | nil => rfl
  | cons line rest ih =>
    rw [closingFrom?, totalsFrom]
    -- the depth at this line is not positive exactly when its total lies below that of `here`
    have hreached : depth + braceBalance line =
        1 + (earlier + braceBalance line) - here.total := by omega
    by_cases hclosed : depth + braceBalance line ≤ 0
    · rw [if_pos hclosed, Sweep.nearestBelow?_cons_of_lt (by dsimp only; omega), hreached]
      rfl
    · rw [if_neg hclosed, Sweep.nearestBelow?_cons_of_le (by dsimp only; omega)]
      exact ih hreached (index + 1)

/-- The pass over the totals of lines answers for each line as the plain scan from the next one
does. -/
theorem closings_totalsFrom (start : Nat) (earlier : Int) (lines : List String) (i : Nat) :
    ((Sweep.ofTotals (totalsFrom start earlier lines)).closings[i]?).join =
      closingFrom? 1 (start + i + 1) (lines.drop (i + 1)) := by
  induction lines generalizing start earlier i with
  | nil => simp [totalsFrom, Sweep.ofTotals, Sweep.start, closingFrom?]
  | cons line rest ih =>
    rw [totalsFrom, Sweep.closings_ofTotals_cons]
    cases i with
    | zero =>
      -- the scan for the first line starts at depth one, against the total of that line
      have hone : (1 : Int) = 1 + (earlier + braceBalance line) -
          (Total.mk start (earlier + braceBalance line)).total := by dsimp only; omega
      rw [List.getElem?_cons_zero, ← closingFrom?_eq_nearestBelow? hone]
      rfl
    | succ i =>
      rw [List.getElem?_cons_succ, ih, List.drop_succ_cons]
      congr 1
      omega

/-- **The index is the plain scan.** For every list of lines and every index, within the
lines or not. -/
theorem BraceIndex.closing?_ofLines (lines : List String) (index : Nat) :
    (BraceIndex.ofLines lines).closing? index = closingAfter? lines index := by
  rw [BraceIndex.closing?, BraceIndex.ofLines, List.getElem?_toArray, totals,
    closings_totalsFrom, closingAfter?, Nat.zero_add]

/-! ## The plain scan, by the depth after each line -/

/-- The opening braces of a line less its closing ones. -/
def braceExcess (line : String) : Int :=
  (line.toList.count '\x7b' : Int) - (line.toList.count '\x7d' : Int)

/-- The two counts of braces on a line are one: characters are told apart first, or are added up at
once. -/
theorem braceBalance_eq_braceExcess (line : String) : braceBalance line = braceExcess line := by
  rw [braceBalance, braceExcess]
  induction line.toList with
  | nil => rfl
  | cons c rest ih =>
    rw [balanceOf, ih, braceStep]
    by_cases hopen : c = '\x7b'
    · subst hopen
      rw [if_pos rfl, List.count_cons_self, List.count_cons_of_ne (by decide)]
      omega
    · by_cases hclose : c = '\x7d'
      · subst hclose
        rw [if_neg hopen, if_pos rfl, List.count_cons_self, List.count_cons_of_ne (by decide)]
        omega
      · rw [if_neg hopen, if_neg hclose, List.count_cons_of_ne hopen, List.count_cons_of_ne hclose]
        omega

/-- The depth after line `k` of a literal that is left open on line `index`: one, and what
the lines from `index + 1` to `k` add to it. -/
def depthAfter (lines : List String) (index k : Nat) : Int :=
  1 + (((lines.take (k + 1)).drop (index + 1)).map braceExcess).sum

/-- The first of the lines after line `index` whose depth is not positive. -/
def firstClosed? (lines : List String) (index : Nat) : Option Nat :=
  (List.range' (index + 1) (lines.length - (index + 1))).find? fun k =>
    decide (depthAfter lines index k ≤ 0)

/-- The scan finds the first of its lines at which a function `depthOf` that follows the
depth is not positive. -/
theorem closingFrom?_eq_find? {depthOf : Nat → Int} {depth : Int} {start : Nat}
    {lines : List String}
    (hdepth : ∀ j, j < lines.length →
      depthOf (start + j) = depth + ((lines.take (j + 1)).map braceExcess).sum) :
    closingFrom? depth start lines =
      ((List.range' start lines.length).find? fun k => decide (depthOf k ≤ 0)).map
        fun k => ⟨k, depthOf k⟩ := by
  induction lines generalizing depth start with
  | nil => rfl
  | cons line rest ih =>
    have hhere : depthOf start = depth + braceBalance line := by
      have h := hdepth 0 (by simp)
      simpa [braceBalance_eq_braceExcess] using h
    -- what comes after the first line is scanned from the depth at the first line
    rw [closingFrom?, ← hhere, List.length_cons, List.range'_succ]
    by_cases hclosed : depthOf start ≤ 0
    · rw [if_pos hclosed, List.find?_cons_of_pos (by simpa using hclosed), Option.map_some]
    · rw [if_neg hclosed, List.find?_cons_of_neg (by simpa using hclosed)]
      apply ih
      intro j hj
      have h := hdepth (j + 1) (by rw [List.length_cons]; omega)
      rw [List.take_succ_cons, List.map_cons, List.sum_cons, ← braceBalance_eq_braceExcess] at h
      rw [hhere, show start + 1 + j = start + (j + 1) by omega, h]
      omega

/-- The closing line is the first line after the opening one whose depth is not positive. -/
theorem closingAfter?_eq_firstClosed? (lines : List String) (index : Nat) :
    closingAfter? lines index =
      (firstClosed? lines index).map fun k => ⟨k, depthAfter lines index k⟩ := by
  rw [closingAfter?, firstClosed?, ← List.length_drop]
  apply closingFrom?_eq_find?
  intro j hj
  rw [depthAfter, List.take_drop, Nat.add_assoc (index + 1)]

/-- A closing line is a later line of the same text. -/
theorem firstClosed?_bounds {lines : List String} {index k : Nat}
    (h : firstClosed? lines index = some k) : index < k ∧ k < lines.length := by
  have hmem := List.mem_of_find?_eq_some h
  rw [List.mem_range'_1] at hmem
  omega

end CanvasScript
