/-
What stands on the stack of the pass over the brace totals.

After the pass has gone from the last line back to line `i`, its stack is a chain: line `i` on top,
below it the nearest later line with a smaller running balance, below that the nearest such line
for this one, and so on until a line has none. This says what the stack is, and not only what it
answers. That the line numbers grow and the balances shrink from top to bottom follows from it, and
so does the closing line of every line that was passed.

The step from line `i + 1` to line `i` is the inner loop. It walks down the chain, and what it
carries along is that no line between `i` and the one it stands on has a balance below that of
line `i`. Lines with equal balances are walked over, since only a smaller one closes a literal.
-/
import CanvasScript.Proofs.ClosingLine
import Mathlib.Order.Bounds.Defs
import Mathlib.Order.Lattice.Nat

set_option autoImplicit false

namespace CanvasScript

/-! ## Running balances -/

/-- The opening braces of all lines up to line `j` and of that line, less their closing ones. -/
def runningBalance (lines : List String) (j : Nat) : Int :=
  ((lines.take (j + 1)).map braceExcess).sum

/-- A line with its running balance. -/
def totalAt (lines : List String) (j : Nat) : Total := ⟨j, runningBalance lines j⟩

/-- The totals of lines are running sums. The line numbers are counted from the given one, and the
sums from what was there before. -/
theorem totalsFrom_eq_map (start : Nat) (earlier : Int) (lines : List String) :
    totalsFrom start earlier lines = (List.range lines.length).map fun j =>
      ⟨start + j, earlier + ((lines.take (j + 1)).map braceExcess).sum⟩ := by
  induction lines generalizing start earlier with
  | nil => rfl
  | cons line rest ih =>
    rw [totalsFrom, ih, List.length_cons, List.range_succ_eq_map, List.map_cons, List.map_map]
    congr 1
    · simp [braceBalance_eq_braceExcess]
    · apply List.map_congr_left
      intro j _
      simp only [Function.comp_apply, List.take_succ_cons, List.map_cons, List.sum_cons,
        braceBalance_eq_braceExcess, Nat.succ_eq_add_one, Total.mk.injEq]
      omega

/-- The totals that the pass works on are the lines with their running balances. -/
theorem totals_eq_map (lines : List String) :
    totals lines = (List.range lines.length).map (totalAt lines) := by
  rw [totals, totalsFrom_eq_map]
  apply List.map_congr_left
  intro j _
  rw [totalAt, runningBalance, Nat.zero_add, Int.zero_add]

/-- The totals are in the order of the lines. -/
theorem map_line_totals (lines : List String) :
    (totals lines).map Total.line = List.range lines.length := by
  rw [totals_eq_map, List.map_map]
  exact List.map_id _

theorem length_totals (lines : List String) : (totals lines).length = lines.length := by
  rw [totals_eq_map, List.length_map, List.length_range]

/-- The total of a line is the balance of the lines up to it, itself included. -/
theorem getElem_totals (lines : List String) {i : Nat} (h : i < (totals lines).length) :
    (totals lines)[i] = totalAt lines i := by
  simp only [totals_eq_map, List.getElem_map, List.getElem_range]

/-- From a line on, the totals are that of the line and those of the lines behind it. -/
theorem drop_totals {lines : List String} {i : Nat} (h : i < lines.length) :
    (totals lines).drop i = totalAt lines i :: (totals lines).drop (i + 1) := by
  have hi : i < (totals lines).length := by rwa [length_totals]
  rw [List.drop_eq_getElem_cons hi, getElem_totals]

/-! ## The nearest later line with a smaller balance -/

/-- Line `k` is the nearest one after line `j` with a smaller running balance. -/
def IsNearestSmaller (lines : List String) (j k : Nat) : Prop :=
  IsLeast {k | j < k ∧ k < lines.length ∧ runningBalance lines k < runningBalance lines j} k

/-- If some later line has a smaller balance, there is a nearest one. -/
theorem exists_isNearestSmaller {lines : List String} {j k : Nat} (hjk : j < k)
    (hk : k < lines.length) (hsmaller : runningBalance lines k < runningBalance lines j) :
    ∃ m, m ≤ k ∧ IsNearestSmaller lines j m := by
  have hmem : k ∈ {k | j < k ∧ k < lines.length ∧
      runningBalance lines k < runningBalance lines j} := ⟨hjk, hk, hsmaller⟩
  exact ⟨_, Nat.sInf_le hmem, Nat.sInf_mem ⟨k, hmem⟩, fun _ => Nat.sInf_le⟩

/-- Up to the nearest smaller balance there is no smaller one. -/
theorem IsNearestSmaller.le_of_lt {lines : List String} {j k m : Nat}
    (h : IsNearestSmaller lines j k) (hjm : j < m) (hmk : m < k) :
    runningBalance lines j ≤ runningBalance lines m := by
  by_contra hsmaller
  have hinside : m < lines.length := Nat.lt_trans hmk h.1.2.1
  have hle : k ≤ m := h.2 ⟨hjm, hinside, Int.not_le.1 hsmaller⟩
  omega

/-! ## Lines that are hidden and lines that stay -/

namespace Sweep

theorem visible_cons_of_lt {here later : Total} (h : later.total < here.total)
    (below : List Total) : visible here (later :: below) = later :: below :=
  List.dropWhile_cons_of_neg (by simpa using h)

theorem visible_cons_of_le {here later : Total} (h : here.total ≤ later.total)
    (below : List Total) : visible here (later :: below) = visible here below :=
  List.dropWhile_cons_of_pos (by simpa using h)

/-- Only lines that were passed are on the stack. -/
theorem stack_subset (all : List Total) : (ofTotals all).stack ⊆ all := by
  induction all with
  | nil => exact List.Subset.refl _
  | cons here rest ih =>
    have hvisible : visible here (ofTotals rest).stack ⊆ rest :=
      List.Subset.trans (List.dropWhile_sublist _).subset ih
    exact List.cons_subset_cons here hvisible

end Sweep

/-! ## Chains -/

/-- A line, the nearest later line with a smaller balance, the nearest one for that, and so on to
a line that has none. -/
inductive SmallerChain (lines : List String) : Nat → List Total → Prop
  | last {j : Nat} (hnone : ∀ k, ¬ IsNearestSmaller lines j k) :
      SmallerChain lines j [totalAt lines j]
  | next {j k : Nat} {rest : List Total} (hnext : IsNearestSmaller lines j k)
      (hrest : SmallerChain lines k rest) : SmallerChain lines j (totalAt lines j :: rest)

namespace SmallerChain

variable {lines : List String} {i j : Nat} {stack : List Total}

/-- The line that was passed last is on top. -/
theorem head? (h : SmallerChain lines j stack) : stack.head? = some (totalAt lines j) := by
  cases h with
  | last hnone => rfl
  | next hnext hrest => rfl

/-- A chain only goes to later lines and smaller balances. -/
theorem bounds (h : SmallerChain lines j stack) :
    ∀ lower ∈ stack, j ≤ lower.line ∧ lower.total ≤ runningBalance lines j := by
  induction h with
  | last hnone =>
    intro lower hmem
    rw [List.mem_singleton.1 hmem]
    exact ⟨Nat.le_refl _, Int.le_refl _⟩
  | @next j k rest hnext hrest ih =>
    intro lower hmem
    have hlater : j < k := hnext.1.1
    have hsmaller : runningBalance lines k < runningBalance lines j := hnext.1.2.2
    rcases List.mem_cons.1 hmem with rfl | hbelow
    · exact ⟨Nat.le_refl _, Int.le_refl _⟩
    · have hbounds := ih lower hbelow
      omega

/-- From top to bottom the line numbers grow and the balances shrink. A chain says this of
neighbours, and both orders are transitive. -/
theorem pairwise (h : SmallerChain lines j stack) :
    stack.Pairwise fun upper lower => upper.line < lower.line ∧ lower.total < upper.total := by
  induction h with
  | last hnone => exact List.pairwise_singleton _ _
  | @next j k rest hnext hrest ih =>
    refine List.pairwise_cons.2 ⟨fun lower hmem => ?_, ih⟩
    have hlater : j < k := hnext.1.1
    have hsmaller : runningBalance lines k < runningBalance lines j := hnext.1.2.2
    have hbounds := hrest.bounds lower hmem
    show j < lower.line ∧ lower.total < runningBalance lines j
    omega

/-- **The inner loop keeps the chain.** Taking hidden lines off a chain that starts at a later
line `j`, with no smaller balance before it, leaves what line `i` is to stand on. -/
theorem cons_visible (h : SmallerChain lines j stack) (hij : i < j) (hj : j < lines.length)
    (hbefore : ∀ m, i < m → m < j → runningBalance lines i ≤ runningBalance lines m) :
    SmallerChain lines i (totalAt lines i :: Sweep.visible (totalAt lines i) stack) := by
  -- a line on the chain whose balance is smaller ends the loop, for it is then the nearest one
  have hnearest : ∀ {k : Nat}, i < k → k < lines.length →
      (∀ m, i < m → m < k → runningBalance lines i ≤ runningBalance lines m) →
      runningBalance lines k < runningBalance lines i → IsNearestSmaller lines i k := by
    intro k hik hk hprevious hsmaller
    refine ⟨⟨hik, hk, hsmaller⟩, fun m hm => ?_⟩
    by_contra hmk
    have hle := hprevious m hm.1 (Nat.not_le.1 hmk)
    have hlt := hm.2.2
    omega
  induction h with
  | @last j hnone =>
    by_cases hsmaller : runningBalance lines j < runningBalance lines i
    · rw [Sweep.visible_cons_of_lt hsmaller]
      exact .next (hnearest hij hj hbefore hsmaller) (.last hnone)
    · rw [Sweep.visible_cons_of_le (Int.not_lt.1 hsmaller)]
      refine .last fun k hk => ?_
      obtain ⟨⟨hik, hklength, hksmaller⟩, -⟩ := hk
      -- a smaller balance for line `i` would be one for line `j`, or lie before it
      rcases Nat.lt_trichotomy k j with hlt | rfl | hgt
      · have hle := hbefore k hik hlt
        omega
      · omega
      · have hsmallest : runningBalance lines k < runningBalance lines j := by omega
        obtain ⟨m, -, hm⟩ := exists_isNearestSmaller hgt hklength hsmallest
        exact hnone m hm
  | @next j k rest hnext hrest ih =>
    by_cases hsmaller : runningBalance lines j < runningBalance lines i
    · rw [Sweep.visible_cons_of_lt hsmaller]
      exact .next (hnearest hij hj hbefore hsmaller) (.next hnext hrest)
    · rw [Sweep.visible_cons_of_le (Int.not_lt.1 hsmaller)]
      refine ih (Nat.lt_trans hij hnext.1.1) hnext.1.2.1 fun m him hmk => ?_
      -- line `j` and the lines from there to the next one of the chain are no smaller either
      rcases Nat.lt_trichotomy m j with hlt | rfl | hgt
      · exact hbefore m him hlt
      · omega
      · have hle := hnext.le_of_lt hgt hmk
        omega

end SmallerChain

/-! ## What the pass has found -/

/-- The answer for a line: its nearest smaller balance with the depth there, or that there is
none. -/
def IsClosingOf (lines : List String) (j : Nat) : Option Closing → Prop
  | some closing => IsNearestSmaller lines j closing.line ∧
      closing.depth = 1 + runningBalance lines closing.line - runningBalance lines j
  | none => ∀ k, ¬ IsNearestSmaller lines j k

/-- What lies below a line on a chain is its answer. -/
theorem SmallerChain.isClosingOf {lines : List String} {j : Nat} {remaining : List Total}
    (h : SmallerChain lines j (totalAt lines j :: remaining)) :
    IsClosingOf lines j (remaining.head?.map (Sweep.closing (totalAt lines j))) := by
  cases h with
  | last hnone => exact hnone
  | next hnext hrest =>
    rw [hrest.head?]
    exact ⟨hnext, rfl⟩

/-- What the pass has made of the lines from line `i` on. -/
structure PassedFrom (lines : List String) (i : Nat) (sweep : Sweep) : Prop where
  /-- The stack starts at the line that was passed last. -/
  chain : i < lines.length → SmallerChain lines i sweep.stack
  /-- Before the first line is passed there is nothing on the stack. -/
  empty : i = lines.length → sweep.stack = []
  /-- Every line passed has its answer. -/
  closings : ∀ j, i ≤ j → j < lines.length →
    ∃ answer, sweep.closings[j - i]? = some answer ∧ IsClosingOf lines j answer

/-- From top to bottom the stack goes to later lines and smaller balances. -/
theorem PassedFrom.pairwise {lines : List String} {i : Nat} {sweep : Sweep}
    (h : PassedFrom lines i sweep) (hi : i ≤ lines.length) :
    sweep.stack.Pairwise fun upper lower =>
      upper.line < lower.line ∧ lower.total < upper.total := by
  rcases Nat.lt_or_eq_of_le hi with hlt | heq
  · exact (h.chain hlt).pairwise
  · rw [h.empty heq]
    exact List.Pairwise.nil

/-- Passing one more line. The line hides those on the stack whose balances are no smaller, and the
first one that it does not hide is its nearest smaller balance. -/
theorem PassedFrom.pass {lines : List String} {i : Nat} {sweep : Sweep}
    (h : PassedFrom lines (i + 1) sweep) (hi : i < lines.length) :
    PassedFrom lines i (Sweep.pass (totalAt lines i) sweep) := by
  have hchain : SmallerChain lines i
      (totalAt lines i :: Sweep.visible (totalAt lines i) sweep.stack) := by
    rcases Nat.lt_or_eq_of_le (Nat.succ_le_of_lt hi) with hlt | heq
    · exact (h.chain hlt).cons_visible (Nat.lt_succ_self i) hlt fun m him hmi => by omega
    · -- the last line has no later one
      rw [h.empty heq]
      exact .last fun k hk => by
        have hafter := hk.1.1
        have hinside := hk.1.2.1
        omega
  refine ⟨fun _ => hchain, fun heq => by omega, fun j hij hj => ?_⟩
  rcases Nat.eq_or_lt_of_le hij with rfl | hlt
  · exact ⟨_, by rw [Nat.sub_self]; rfl, hchain.isClosingOf⟩
  · obtain ⟨answer, hanswer, hclosing⟩ := h.closings j hlt hj
    refine ⟨answer, ?_, hclosing⟩
    rw [show j - i = (j - (i + 1)) + 1 by omega]
    exact hanswer

/-- **The invariant of the pass**, at every line. The pass goes from the last line to the first, so
the induction is on the lines behind. -/
theorem passedFrom_ofTotals {lines : List String} {i : Nat} (hi : i ≤ lines.length) :
    PassedFrom lines i (Sweep.ofTotals ((totals lines).drop i)) := by
  induction hi using Nat.decreasingInduction with
  | self =>
    rw [List.drop_of_length_le (Nat.le_of_eq (length_totals lines))]
    exact ⟨fun h => absurd h (Nat.lt_irrefl _), fun _ => rfl, fun j hij hj => by omega⟩
  | of_succ i hi ih =>
    rw [drop_totals hi]
    exact ih.pass hi

/-- The index holds the answer for every line. -/
theorem BraceIndex.isClosingOf_closing? {lines : List String} {j : Nat} (hj : j < lines.length) :
    IsClosingOf lines j ((BraceIndex.ofLines lines).closing? j) := by
  obtain ⟨answer, hanswer, hclosing⟩ :=
    (passedFrom_ofTotals (Nat.zero_le lines.length)).closings j (Nat.zero_le j) hj
  rw [List.drop_zero, Nat.sub_zero] at hanswer
  rwa [BraceIndex.closing?, BraceIndex.ofLines, List.getElem?_toArray, hanswer]

/-- What is found for a line is its nearest smaller balance; past the last line nothing is found.
The depth that comes with it is one more than the difference of the two balances. -/
theorem BraceIndex.isNearestSmaller_of_closing? {lines : List String} {j : Nat} {closing : Closing}
    (h : (BraceIndex.ofLines lines).closing? j = some closing) :
    IsNearestSmaller lines j closing.line ∧
      closing.depth = 1 + runningBalance lines closing.line - runningBalance lines j := by
  have hj : j < lines.length := by
    by_contra hpast
    have hnone : (BraceIndex.ofLines lines).closing? j = none := by
      rw [BraceIndex.closing?, BraceIndex.ofLines, List.getElem?_toArray, List.getElem?_eq_none]
      · rfl
      · rw [Sweep.length_closings_ofTotals, length_totals]
        exact Nat.not_lt.1 hpast
    exact absurd (hnone.symm.trans h) (by simp)
  have hanswer := isClosingOf_closing? hj
  rwa [h] at hanswer

end CanvasScript
