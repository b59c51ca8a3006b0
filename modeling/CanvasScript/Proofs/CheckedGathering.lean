/-
Gathering with every read, every sum and every difference checked.

`Gathered.ofLines` cannot go wrong by what it is made of: it drops and takes from lists, and its
numbers are natural numbers without an end. This file has the same steps with the checks of a
machine. A read that leaves its list, a line number that is no word and a difference below zero
each cut the computation short, and so they do while the index is made. The two lists and the index
have nothing to do with each other, so no step is safe by its looks.

No check ever fails. The pass reads the balances of lines that it has passed. A closing line is a
line after the one that it closes, which is why the number after the index is a line number
too, and why nothing is subtracted from a smaller number. Whether the closing line is one of the
lines to be joined is not known before it is asked, and a literal for which it is not is
malformed like one that never closes.
-/
import CanvasScript.Proofs.ClosingStack
import CanvasScript.Proofs.Gathering

set_option autoImplicit false

namespace CanvasScript

/-! ## Checked operations -/

/-- Why a computation is cut short. -/
inductive Trap where
  /-- A read outside a list. -/
  | outside
  /-- A sum that is not a word. -/
  | overflow
  /-- A difference below zero. -/
  | underflow
  deriving DecidableEq

namespace Checked

/-- How many words there are. No list in memory has more entries. -/
def wordCount : Nat := 2 ^ 64

def read {α : Type} (l : List α) (i : Nat) : Except Trap α :=
  match l[i]? with
  | some a => .ok a
  | none => .error .outside

/-- The number after a number. -/
def next (n : Nat) : Except Trap Nat :=
  if n + 1 < wordCount then .ok (n + 1) else .error .overflow

def difference (m n : Nat) : Except Trap Nat := if n ≤ m then .ok (m - n) else .error .underflow

theorem read_eq_ok {α : Type} {l : List α} {i : Nat} {a : α} (h : l[i]? = some a) :
    read l i = .ok a := by
  rw [read, h]

/-! ## The brace index, by line numbers -/

/-- The stack without the lines that a line hides from those before it. -/
def visible (balances : List Int) (here : Nat) : List Nat → Except Trap (List Nat)
  | [] => .ok []
  | top :: below =>
    (read balances top).bind fun later =>
      (read balances here).bind fun own =>
        if own ≤ later then visible balances here below else .ok (top :: below)

/-- The stack and the closing lines that a pass over lines leaves, from the last to the first. -/
def pass (balances : List Int) : List Nat → Except Trap (List Nat × List (Option Nat))
  | [] => .ok ([], [])
  | here :: later =>
    (pass balances later).bind fun passed =>
      (visible balances here passed.1).map fun remaining =>
        (here :: remaining, remaining.head? :: passed.2)

/-- The running balance through each line, and the closing line of each line. -/
structure BraceTable where
  balances : List Int
  closingLines : List (Option Nat)

namespace BraceTable

def ofLines (lines : List String) : Except Trap BraceTable :=
  let balances := (totals lines).map Total.total
  (pass balances (List.range lines.length)).map fun passed => ⟨balances, passed.2⟩

/-- The closing line for a line, which need not be there, with the depth reached. -/
def closing? (table : BraceTable) (index : Nat) : Except Trap (Option Closing) :=
  match (table.closingLines[index]?).join with
  | none => .ok none
  | some last =>
    (read table.balances last).bind fun reached =>
      (read table.balances index).map fun own => some ⟨last, 1 + reached - own⟩

end BraceTable

/-! ## Gathering -/

/-- The lines from the first to the last of two line numbers, if they are there. -/
def linesBetween? (lines : List String) (first last : Nat) : Option (List String) :=
  if first ≤ last + 1 ∧ last < lines.length then some ((lines.take (last + 1)).drop first) else none

/-- Gathers the literal that starts with `value` on line `index`. -/
def gather (value line : String) (lines : List String) (table : BraceTable) (index : Nat) :
    Except Trap (Except ScriptError Gathered) :=
  if value.toList.getLast? = some '\x7d' then .ok (.ok ⟨value, 0⟩)
  else
    (table.closing? index).bind fun
      | none => .ok (.error (.malformedObject line))
      | some closing =>
        if closing.depth = 0 then
          (next index).bind fun first =>
            match linesBetween? lines first closing.line with
            | none => .ok (.error (.malformedObject line))
            | some taken =>
              (difference closing.line index).map fun consumed =>
                .ok ⟨taken.foldl (fun text next => text ++ " " ++ next) value, consumed⟩
        else .ok (.error (.malformedObject line))

/-- Gathers a literal from lines with the brace index of other lines. -/
def gatherFrom (value line : String) (lines braceLines : List String) (index : Nat) :
    Except Trap (Except ScriptError Gathered) :=
  (BraceTable.ofLines braceLines).bind fun table => gather value line lines table index

/-! ## The checks of the pass -/

/-- Balances that are those of some lines. -/
def HoldsBalances (balances : List Int) (all : List Total) : Prop :=
  ∀ line ∈ all, balances[line.line]? = some line.total

/-- The inner loop reads only balances of lines on the stack, and finds what the unchecked one does.
The invariant is that the stack holds totals that are in the list, each under its line. -/
theorem visible_eq_ok {balances : List Int} {here : Total} {stack : List Total}
    (hhere : balances[here.line]? = some here.total) (hstack : HoldsBalances balances stack) :
    visible balances here.line (stack.map Total.line) =
      .ok ((Sweep.visible here stack).map Total.line) := by
  induction stack with
  | nil => rfl
  | cons top below ih =>
    obtain ⟨htop, hbelow⟩ := List.forall_mem_cons.1 hstack
    rw [List.map_cons, visible, read_eq_ok htop, read_eq_ok hhere]
    show (if here.total ≤ top.total then _ else _) = _
    -- the loop goes on over a line that hides none, and stops at the first other one
    by_cases hhidden : here.total ≤ top.total
    · rw [if_pos hhidden, Sweep.visible_cons_of_le hhidden]
      exact ih hbelow
    · rw [if_neg hhidden, Sweep.visible_cons_of_lt (Int.not_le.1 hhidden)]
      rfl

/-- **The pass reads inside its list**, and makes what the pass over the totals makes. The stack
after a line has only lines behind it on it, so the invariant of the inner loop is kept. -/
theorem pass_eq_ok {balances : List Int} {all : List Total} (h : HoldsBalances balances all) :
    pass balances (all.map Total.line) =
      .ok ((Sweep.ofTotals all).stack.map Total.line,
        (Sweep.ofTotals all).closings.map (Option.map Closing.line)) := by
  induction all with
  | nil => rfl
  | cons here rest ih =>
    obtain ⟨hhere, hrest⟩ := List.forall_mem_cons.1 h
    have hstack : HoldsBalances balances (Sweep.ofTotals rest).stack :=
      fun line hmem => hrest line (Sweep.stack_subset rest hmem)
    have hvisible := visible_eq_ok hhere hstack
    rw [List.map_cons, pass, ih hrest]
    show (visible balances here.line _).map _ = _
    rw [hvisible, Sweep.ofTotals_cons, Sweep.pass]
    -- the closing line of a closing is the line that it was made from
    cases (Sweep.visible here (Sweep.ofTotals rest).stack) with
    | nil => rfl
    | cons top below => rfl

/-- Each line has a balance to be read. -/
theorem getElem?_balances {lines : List String} {j : Nat} (hj : j < lines.length) :
    ((totals lines).map Total.total)[j]? = some (runningBalance lines j) := by
  rw [totals_eq_map, List.map_map, List.getElem?_map, List.getElem?_range hj]
  rfl

/-- So what is on the stack is what the list of balances holds. -/
theorem holdsBalances_totals (lines : List String) :
    HoldsBalances ((totals lines).map Total.total) (totals lines) := by
  intro line hmem
  rw [totals_eq_map] at hmem
  obtain ⟨j, hj, rfl⟩ := List.mem_map.1 hmem
  exact getElem?_balances (List.mem_range.1 hj)

/-- **Making the index checks nothing that fails**, and gives the closing lines of the unchecked
one. -/
theorem BraceTable.ofLines_eq_ok (lines : List String) :
    ofLines lines = .ok ⟨(totals lines).map Total.total,
      (Sweep.ofTotals (totals lines)).closings.map (Option.map Closing.line)⟩ := by
  rw [ofLines, ← map_line_totals, pass_eq_ok (holdsBalances_totals lines)]
  rfl

/-- The table answers every query as the index does. It makes the depth of two balances that it
reads, and both are those of lines in its list: the line asked about, which comes before its closing
line, and the closing line. -/
theorem BraceTable.closing?_eq_ok {lines : List String} {table : BraceTable}
    (htable : ofLines lines = .ok table) (index : Nat) :
    table.closing? index = .ok ((BraceIndex.ofLines lines).closing? index) := by
  rw [ofLines_eq_ok, Except.ok.injEq] at htable
  have hlast : (table.closingLines[index]?).join =
      ((BraceIndex.ofLines lines).closing? index).map Closing.line := by
    rw [← htable, BraceIndex.closing?, BraceIndex.ofLines, List.getElem?_toArray]
    simp only [List.getElem?_map]
    rcases (Sweep.ofTotals (totals lines)).closings[index]? with _ | _ | closing
    · rfl
    · rfl
    · rfl
  rw [closing?, hlast]
  rcases hclosing : (BraceIndex.ofLines lines).closing? index with _ | closing
  · rfl
  · obtain ⟨hnearest, hdepth⟩ := BraceIndex.isNearestSmaller_of_closing? hclosing
    -- the two balances that are read are those of the closing line and of a line before it
    have hinside : closing.line < lines.length := hnearest.1.2.1
    have hindex : index < lines.length := Nat.lt_trans hnearest.1.1 hinside
    rw [← htable, Option.map_some]
    dsimp only
    rw [read_eq_ok (getElem?_balances hinside), read_eq_ok (getElem?_balances hindex)]
    show Except.ok (some (Closing.mk closing.line
      (1 + runningBalance lines closing.line - runningBalance lines index))) = _
    rw [← hdepth]

end Checked

/-! ## Gathering from one list with the index of another -/

namespace Gathered

/-- A value that is left open is gathered up to the closing line, in steps that are checked. -/
theorem ofLines_of_closing {value line : String} {lines : List String} {braces : BraceIndex}
    {index : Nat} {closing : Closing} (hopen : value.toList.getLast? ≠ some '\x7d')
    (hclosing : braces.closing? index = some closing) :
    ofLines value line lines braces index =
      if closing.depth = 0 ∧ closing.line < lines.length then
        .ok ⟨((lines.drop (index + 1)).take (closing.line - index)).foldl
          (fun text next => text ++ " " ++ next) value, closing.line - index⟩
      else .error (.malformedObject line) := by
  rw [ofLines, if_neg (mt (isClosed_eq_true_iff value).1 hopen), hclosing, ← join_eq_foldl]

/-- Without a closing line, the literal is malformed, and nothing is read. -/
theorem ofLines_of_not_closing {value line : String} {lines : List String} {braces : BraceIndex}
    {index : Nat} (hopen : value.toList.getLast? ≠ some '\x7d')
    (hclosing : braces.closing? index = none) :
    ofLines value line lines braces index = .error (.malformedObject line) := by
  rw [ofLines, if_neg (mt (isClosed_eq_true_iff value).1 hopen), hclosing]

/-- A literal that is left open on a line and takes lines after it: those up to its closing line,
joined to its value one after the other. The closing line is found in `braceLines`, and has
to be one of `lines`. -/
structure TakesLines (value : String) (lines braceLines : List String) (index : Nat)
    (g : Gathered) : Prop where
  isOpen : value.toList.getLast? ≠ some '\x7d'
  closes : closingAfter? braceLines index = some ⟨index + g.consumed, 0⟩
  takesSome : 1 ≤ g.consumed
  inside : index + g.consumed < lines.length
  text : g.text = ((lines.drop (index + 1)).take g.consumed).foldl
    (fun text next => text ++ " " ++ next) value

/-- A literal that is left open takes lines when it closes at depth zero, within the lines. It may
be that the lines end before the closing line, as the index can have been made from others. -/
theorem takesLines_of_closing {value : String} {lines braceLines : List String} {index : Nat}
    {closing : Closing} (hopen : value.toList.getLast? ≠ some '\x7d')
    (hclosing : (BraceIndex.ofLines braceLines).closing? index = some closing)
    (hdepth : closing.depth = 0) (hthere : closing.line < lines.length) :
    TakesLines value lines braceLines index
      ⟨((lines.drop (index + 1)).take (closing.line - index)).foldl
        (fun text next => text ++ " " ++ next) value, closing.line - index⟩ := by
  have hafter : index < closing.line :=
    (BraceIndex.isNearestSmaller_of_closing? hclosing).1.1.1
  refine ⟨hopen, ?_, ?_, ?_, rfl⟩
  · show closingAfter? braceLines index = some ⟨index + (closing.line - index), 0⟩
    rw [Nat.add_sub_cancel' (Nat.le_of_lt hafter), ← BraceIndex.closing?_ofLines, hclosing,
      ← hdepth]
  · show 1 ≤ closing.line - index
    omega
  · show index + (closing.line - index) < lines.length
    omega

/-- An open literal that takes no lines is malformed. -/
theorem ofLines_eq_malformed {value line : String} {lines braceLines : List String} {index : Nat}
    (hopen : value.toList.getLast? ≠ some '\x7d')
    (hnone : ∀ g, ¬ TakesLines value lines braceLines index g) :
    ofLines value line lines (.ofLines braceLines) index = .error (.malformedObject line) := by
  rcases hclosing : (BraceIndex.ofLines braceLines).closing? index with _ | closing
  · exact ofLines_of_not_closing hopen hclosing
  · rw [ofLines_of_closing hopen hclosing, if_neg]
    rintro ⟨hdepth, hthere⟩
    exact hnone _ (takesLines_of_closing hopen hclosing hdepth hthere)

/-- If the lines to be taken are there, taking them checks nothing that fails. -/
theorem TakesLines.ofLines_eq_ok {value : String} {lines braceLines : List String} {index : Nat}
    {g : Gathered} (h : TakesLines value lines braceLines index g) (line : String) :
    ofLines value line lines (.ofLines braceLines) index = .ok g := by
  have hclosing := h.closes
  rw [← BraceIndex.closing?_ofLines] at hclosing
  rw [ofLines_of_closing h.isOpen hclosing, if_pos ⟨rfl, h.inside⟩]
  dsimp only
  rw [Nat.add_sub_cancel_left, ← h.text]

end Gathered

/-! ## The checks of gathering -/

namespace Checked

/-- The lines between two line numbers are those that are taken after the first of them. -/
theorem linesBetween?_of_lt {lines : List String} {index last : Nat} (hafter : index < last)
    (hthere : last < lines.length) :
    linesBetween? lines (index + 1) last = some ((lines.drop (index + 1)).take (last - index)) := by
  rw [linesBetween?, if_pos ⟨by omega, hthere⟩, List.take_drop,
    show index + 1 + (last - index) = last + 1 by omega]

/-- **No check fails**, and the checked steps come to what gathering is. There is a closing line
when line numbers are computed, and it comes after the literal. So the number of the next line is at
most its number, which is a word, and the difference of the two is not below zero. -/
theorem gatherFrom_eq_ok (value line : String) (lines : List String) {braceLines : List String}
    (hwords : braceLines.length ≤ wordCount) (index : Nat) :
    gatherFrom value line lines braceLines index =
      .ok (Gathered.ofLines value line lines (.ofLines braceLines) index) := by
  have htable := BraceTable.ofLines_eq_ok braceLines
  rw [gatherFrom, htable]
  show gather value line lines _ index = _
  rw [gather, BraceTable.closing?_eq_ok htable]
  by_cases hclosed : value.toList.getLast? = some '\x7d'
  · rw [if_pos hclosed, Gathered.ofLines,
      if_pos ((Gathered.isClosed_eq_true_iff value).2 hclosed)]
  · rw [if_neg hclosed]
    rcases hclosing : (BraceIndex.ofLines braceLines).closing? index with _ | closing
    · rw [Gathered.ofLines_of_not_closing hclosed hclosing]
      rfl
    · obtain ⟨hnearest, -⟩ := BraceIndex.isNearestSmaller_of_closing? hclosing
      have hafter : index < closing.line := hnearest.1.1
      have hinside : closing.line < braceLines.length := hnearest.1.2.1
      -- the number after the index is at most that of the closing line, which is a word
      have hnext : next index = .ok (index + 1) := if_pos (by omega)
      have hdifference : difference closing.line index = .ok (closing.line - index) :=
        if_pos (Nat.le_of_lt hafter)
      rw [Gathered.ofLines_of_closing hclosed hclosing]
      dsimp only [Except.bind]
      -- first the depth is looked at, and the lines only if it is zero
      by_cases hdepth : closing.depth = 0
      · rw [if_pos hdepth, hnext]
        dsimp only
        by_cases hthere : closing.line < lines.length
        · rw [linesBetween?_of_lt hafter hthere, if_pos ⟨hdepth, hthere⟩, hdifference]
          rfl
        · -- the closing line is none of the lines that are to be joined
          rw [linesBetween?, if_neg (fun h => hthere h.2), if_neg (fun h => hthere h.2)]
      · rw [if_neg hdepth, if_neg (fun h => hdepth h.1)]

/-- **Gathering is safe with any index of braces.** Whatever lines the index is made from and
whatever line it is asked about, no read leaves its list and no line number leaves the words. A
value that is complete is taken as it is. An open one takes one or more lines that are there, up to
the line that closes it, or is malformed when there is no such line. -/
theorem gathering_is_safe (value line : String) (lines braceLines : List String) (index : Nat)
    (hwords : braceLines.length ≤ wordCount) :
    ∃ outcome, gatherFrom value line lines braceLines index = .ok outcome ∧
      outcome = Gathered.ofLines value line lines (.ofLines braceLines) index ∧
      ((value.toList.getLast? = some '\x7d' ∧ outcome = .ok ⟨value, 0⟩) ∨
        (∃ g, outcome = .ok g ∧ Gathered.TakesLines value lines braceLines index g) ∨
        (value.toList.getLast? ≠ some '\x7d' ∧
          (∀ g, ¬ Gathered.TakesLines value lines braceLines index g) ∧
          outcome = .error (.malformedObject line))) := by
  refine ⟨_, gatherFrom_eq_ok value line lines hwords index, rfl, ?_⟩
  -- the three cases exclude one another, so they are asked for in their order
  by_cases hclosed : value.toList.getLast? = some '\x7d'
  · refine .inl ⟨hclosed, ?_⟩
    rw [Gathered.ofLines, if_pos ((Gathered.isClosed_eq_true_iff value).2 hclosed)]
  · by_cases htakes : ∃ g, Gathered.TakesLines value lines braceLines index g
    · obtain ⟨g, hg⟩ := htakes
      exact .inr (.inl ⟨g, hg.ofLines_eq_ok line, hg⟩)
    · have hnone := not_exists.1 htakes
      exact .inr (.inr ⟨hclosed, hnone, Gathered.ofLines_eq_malformed hclosed hnone⟩)

/-- The brace index of other lines sends the literal two lines on, and the lines are there. -/
theorem gathering_is_safe_with_other_lines :
    let lines := ["set p = \x7b", "a: 1,", "b: 2", "display(p)"]
    let braceLines := ["\x7b", "", "\x7d\x7b\x7d"]
    braceLines.length ≤ wordCount ∧
      gatherFrom "\x7b" "set p = \x7b" lines braceLines 0 = .ok (.ok ⟨"\x7b a: 1, b: 2", 2⟩) ∧
      Gathered.TakesLines "\x7b" lines braceLines 0 ⟨"\x7b a: 1, b: 2", 2⟩ := by
  intro lines braceLines
  have hwords : braceLines.length ≤ wordCount := by decide
  have hgathered : gatherFrom "\x7b" "set p = \x7b" lines braceLines 0 =
      .ok (.ok ⟨"\x7b a: 1, b: 2", 2⟩) := by decide +kernel
  obtain ⟨outcome, houtcome, -, hcases⟩ :=
    gathering_is_safe "\x7b" "set p = \x7b" lines braceLines 0 hwords
  obtain rfl : .ok ⟨"\x7b a: 1, b: 2", 2⟩ = outcome := Except.ok.inj (hgathered.symm.trans houtcome)
  refine ⟨hwords, hgathered, ?_⟩
  rcases hcases with ⟨hclosed, -⟩ | ⟨g, hg, htakes⟩ | ⟨-, -, hmalformed⟩
  · exact absurd hclosed (by decide)
  · rwa [Except.ok.inj hg]
  · exact absurd hmalformed (by simp)

end Checked

end CanvasScript
