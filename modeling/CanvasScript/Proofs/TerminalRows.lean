/-
Whether lines stand on rows of their own.

A run puts its lines twenty pixels below each other, and a terminal has rows of a height of its own.
With rows of at most that height, a line is at least one row below the line before it. With higher
rows the lines fall behind: each is less than one row below the one before, so in the end two of
them are on one row. That does not show as long as the rows end first, which they do for heights
that are only a little above twenty pixels. The first `lastCell` lines are then on the rows from
zero on, one by one, and all others are on the last row.

So it can be seen from one line. `rowsApart_iff` says that lines stand on rows of their own above
the last row, in whatever run, exactly when the line with `lastCell` lines before it is on the last
row.
-/
import CanvasScript.Proofs.CommandLines
import CanvasScript.Proofs.RowBorders
import CanvasScript.Proofs.TerminalTrace
import CanvasScript.Proofs.UsableSettings

set_option autoImplicit false

namespace CanvasScript

open Binary64

/-- Lines that come later are lower. -/
theorem Page.atMost_baseline {a b : Nat} (h : a ≤ b) : AtMost (baseline a) (baseline b) := by
  obtain ⟨twenty, htwenty, hunits⟩ := exists_ofNat_eq (show 20 < twoTo 53 by decide)
  have hpos : 0 < twenty.val := by
    rw [Nat.pos_iff_ne_zero]
    intro hzero
    rw [hzero, units_of_lt binade_pos] at hunits
    exact absurd hunits (Nat.ne_of_lt (Nat.mul_pos (by decide) unitsInOne_pos))
  rw [baseline, baseline, firstBaseline, lineHeight, htwenty]
  exact ((atMost_ofNat h).mul hpos).add hpos

namespace Terminal

/-- The row of the line that so many lines come before. -/
def lineRow (terminal : Terminal) (before : Nat) : Nat := terminal.rowOf (Page.baseline before)

theorem lineRow_le (terminal : Terminal) (before : Nat) : terminal.lineRow before ≤ lastCell :=
  (terminal.cell_le Page.left (Page.baseline before)).2

/-! ## One line and the next -/

/-- What twenty pixels come to in the comparisons with borders. -/
def spacing : Nat := 40 * (unitsInOne * unitsInOne)

theorem lastCell_pos : 0 < lastCell := by decide

/-- Rounding to numbers counts for so little that it does not add up to a pixel in all rows. It is a
gap between two numbers, and there are sixty-five thousand rows. -/
theorem lastCell_mul_gap_le : lastCell * gap (halves (2 * lastCell + 1) - 1) ≤ unitsInOne := by
  have hsmall := binade_mul_gap_le (Nat.add_one_pos _) (halves_lt_binade (Nat.le_refl lastCell))
  have hcells : (2 * lastCell + 1) * lastCell ≤ 2 * binade := by decide
  generalize gap (halves (2 * lastCell + 1) - 1) = step at hsmall ⊢
  refine Nat.le_of_mul_le_mul_left ?_ (Nat.add_one_pos (2 * lastCell))
  calc (2 * lastCell + 1) * (lastCell * step) = (2 * lastCell + 1) * lastCell * step :=
        (Nat.mul_assoc ..).symm
    _ ≤ 2 * binade * step := Nat.mul_le_mul_right step hcells
    _ = 2 * (binade * step) := Nat.mul_assoc ..
    _ ≤ (2 * lastCell + 1) * unitsInOne := hsmall

/-- The border of a row, in proportion to the lines up to it, is no further than the border of the
last row. The border is rounded to a number of the format, and this is where the loss is shown to be
too small to matter. -/
theorem mul_halves_le_mul_border {n : Nat} (hn : n < lastCell) :
    (lastCell + 1) * ((2 * n + 1) * unitsInOne) ≤ (n + 1) * border (2 * lastCell + 1) := by
  have hsmall := lastCell_mul_gap_le
  have hborder := border_add_gap (Nat.add_one_pos _) (halves_lt_binade (Nat.le_refl lastCell))
  generalize unitsInOne = one at hsmall hborder ⊢
  generalize border (2 * lastCell + 1) = last at hborder ⊢
  generalize gap (halves (2 * lastCell + 1) - 1) = step at hsmall hborder
  obtain ⟨rest, hrest⟩ := Nat.exists_eq_add_of_lt hn
  rw [hrest] at hsmall hborder ⊢
  have hsum : (n + 1) * last + (n + 1) * step = (n + 1) * ((2 * (n + rest + 1) + 1) * one) := by
    rw [← Nat.mul_add, hborder]
  have hsplit : (n + 1) * ((2 * (n + rest + 1) + 1) * one) =
      (n + rest + 1 + 1) * ((2 * n + 1) * one) + (rest + 1) * one := by ring
  -- what is lost to rounding up to this row is less than the rows that are left are worth
  have hlost : (n + 1) * step ≤ one := Nat.le_trans (Nat.mul_le_mul_right step (by omega)) hsmall
  have hleft : one ≤ (rest + 1) * one := Nat.le_mul_of_pos_left one (Nat.add_one_pos rest)
  omega

section Rows

variable {terminal : Terminal} {height : Fin positions}
  (hheight : terminal.lineHeight = .finite false height) (hpos : 0 < height.val)
include hheight hpos

/-- A later line is on no higher row. -/
theorem lineRow_mono : Monotone terminal.lineRow :=
  fun _ _ hle => rowOf_mono hheight hpos (Page.atMost_baseline hle)

/-- Whether a line has reached a row is a comparison of whole numbers: how far down it is, in units,
and where the row begins. -/
theorem le_lineRow_iff {n : Nat} (hn : n ≤ lastCell) {r : Nat} (hrow : 0 < r) (hle : r ≤ lastCell) :
    r ≤ terminal.lineRow n ↔ units height.val * border (2 * r + 1) ≤ (n + 1) * spacing := by
  have hexact : 20 * (n + 1) < twoTo 53 := by
    have hlast : 20 * (lastCell + 1) < twoTo 53 := by decide
    omega
  rw [lineRow, Page.baseline_eq_ofNat (Nat.le_of_lt hexact),
    le_rowOf_ofNat_iff hheight hpos hexact hrow hle, spacing]
  ring_nf

/-- If every line above the last row is above the next line, then each line is at least as far down
as its number. -/
theorem le_lineRow_of_steps
    (hsteps : ∀ n < lastCell, terminal.lineRow n < lastCell →
      terminal.lineRow n < terminal.lineRow (n + 1)) :
    ∀ n ≤ lastCell, n ≤ terminal.lineRow n := by
  intro n
  induction n with
  | zero => exact fun _ => Nat.zero_le _
  | succ n ih =>
    intro hn
    have hbefore := ih (Nat.le_of_lt hn)
    have hmono := lineRow_mono hheight hpos (Nat.le_add_right n 1)
    -- above the last row each step goes down, and on it there is nothing to reach any more
    rcases Nat.lt_or_ge (terminal.lineRow n) lastCell with hlt | hge
    · have hstep := hsteps n hn hlt
      omega
    · omega

/-! ### Rows of at most twenty pixels -/

/-- A line is not above the border of its row; with small rows that is so on the first row as well,
whose border nothing compares with. -/
theorem reached_of_small (hsmall : units height.val ≤ 20 * unitsInOne) {n : Nat}
    (hn : n < lastCell) :
    units height.val * border (2 * terminal.lineRow n + 1) ≤ (n + 1) * spacing := by
  rcases Nat.eq_zero_or_pos (terminal.lineRow n) with hzero | hrow
  · have hfirst : border 1 ≤ unitsInOne := by
      simpa only [Nat.one_mul] using border_le Nat.one_pos (show 1 < binade by decide)
    rw [hzero, Nat.mul_zero, Nat.zero_add, spacing]
    generalize unitsInOne = one at hsmall hfirst ⊢
    calc units height.val * border 1 ≤ 20 * one * one := Nat.mul_le_mul hsmall hfirst
      _ ≤ (n + 1) * (40 * (one * one)) := by
        rw [Nat.mul_assoc, Nat.add_mul, Nat.one_mul]
        omega
  · exact (le_lineRow_iff hheight hpos (Nat.le_of_lt hn) hrow (terminal.lineRow_le n)).1
      (Nat.le_refl _)

/-- On such rows the next line is on a row further down: its border comes at most one row later, and
the line itself at least one row. Twenty pixels are the distance of lines, so a row that is no
higher is passed by each of them. -/
theorem lineRow_lt_of_small (hsmall : units height.val ≤ 20 * unitsInOne) {n : Nat}
    (hn : n < lastCell) (hlast : terminal.lineRow n < lastCell) :
    terminal.lineRow n < terminal.lineRow (n + 1) := by
  have hreached := reached_of_small hheight hpos hsmall hn
  have hnext := border_succ_le (halves_lt_binade hlast)
  refine (le_lineRow_iff hheight hpos hn (Nat.add_one_pos _) hlast).2 ?_
  rw [spacing] at hreached ⊢
  generalize unitsInOne = one at hsmall hreached hnext ⊢
  generalize terminal.lineRow n = row at hreached hnext ⊢
  calc units height.val * border (2 * (row + 1) + 1)
      ≤ units height.val * (border (2 * row + 1) + 2 * one) := Nat.mul_le_mul_left _ hnext
    _ = units height.val * border (2 * row + 1) + 2 * (units height.val * one) := by ring
    _ ≤ (n + 1) * (40 * (one * one)) + 2 * (20 * one * one) :=
        Nat.add_le_add hreached (Nat.mul_le_mul_left 2 (Nat.mul_le_mul_right _ hsmall))
    _ = (n + 1 + 1) * (40 * (one * one)) := by ring

/-- On such rows the rows end before the lines fall behind. -/
theorem lineRow_last_of_small (hsmall : units height.val ≤ 20 * unitsInOne) :
    terminal.lineRow lastCell = lastCell := by
  have hsteps := le_lineRow_of_steps hheight hpos fun n hn hrow =>
    lineRow_lt_of_small hheight hpos hsmall hn hrow
  exact Nat.le_antisymm (terminal.lineRow_le lastCell) (hsteps lastCell (Nat.le_refl _))

/-! ### Higher rows -/

/-- When the line that `lastCell` others come before is on the last row, the others have kept up
with the rows: in proportion, none of them has fallen behind by more than that line. -/
theorem le_lineRow_of_last (hlast : lastCell ≤ terminal.lineRow lastCell) {n : Nat}
    (hn : n < lastCell) : n ≤ terminal.lineRow n := by
  rcases Nat.eq_zero_or_pos n with rfl | hrow
  · exact Nat.zero_le _
  · have hreached := (le_lineRow_iff hheight hpos (Nat.le_refl lastCell) lastCell_pos
      (Nat.le_refl lastCell)).1 hlast
    have hborder := border_le (Nat.add_one_pos _) (halves_lt_binade (Nat.le_of_lt hn))
    have hshare := mul_halves_le_mul_border hn
    rw [le_lineRow_iff hheight hpos (Nat.le_of_lt hn) hrow (Nat.le_of_lt hn)]
    refine Nat.le_trans (Nat.mul_le_mul_left _ hborder) ?_
    generalize (2 * n + 1) * unitsInOne = ideal at hshare ⊢
    refine Nat.le_of_mul_le_mul_left ?_ (Nat.add_one_pos lastCell)
    calc (lastCell + 1) * (units height.val * ideal)
        = units height.val * ((lastCell + 1) * ideal) := Nat.mul_left_comm ..
      _ ≤ units height.val * ((n + 1) * border (2 * lastCell + 1)) :=
          Nat.mul_le_mul_left _ hshare
      _ = (n + 1) * (units height.val * border (2 * lastCell + 1)) := Nat.mul_left_comm ..
      _ ≤ (n + 1) * ((lastCell + 1) * spacing) := Nat.mul_le_mul_left _ hreached
      _ = (lastCell + 1) * ((n + 1) * spacing) := Nat.mul_left_comm ..

/-- And no line is further down than its number. Rows that are higher than the distance of lines are
passed more slowly than lines are drawn. -/
theorem lineRow_le_of_large (hlarge : 20 * unitsInOne < units height.val) {n : Nat}
    (hn : n < lastCell) : terminal.lineRow n ≤ n := by
  by_contra hbelow
  have hreached := (le_lineRow_iff hheight hpos (Nat.le_of_lt hn) (Nat.add_one_pos n) hn).1
    (Nat.not_le.1 hbelow)
  have hroom : 2 * (n + 1) + 1 < binade := halves_lt_binade hn
  have hsum := border_add_gap (Nat.add_one_pos _) hroom
  have hgap := gap_le (Nat.add_one_pos _) hroom
  have hone := unitsInOne_pos
  rw [spacing] at hreached
  generalize unitsInOne = one at hlarge hreached hsum hgap hone
  have hborder : 2 * (n + 1) * one ≤ border (2 * (n + 1) + 1) := by
    rw [Nat.add_mul (2 * (n + 1)) 1, Nat.one_mul] at hsum
    omega
  have hbeyond : (n + 1) * (40 * (one * one)) < units height.val * border (2 * (n + 1) + 1) :=
    calc (n + 1) * (40 * (one * one)) = 20 * one * (2 * (n + 1) * one) := by ring
      _ < units height.val * (2 * (n + 1) * one) :=
        Nat.mul_lt_mul_of_pos_right hlarge (Nat.mul_pos (by omega) hone)
      _ ≤ units height.val * border (2 * (n + 1) + 1) := Nat.mul_le_mul_left _ hborder
  exact Nat.not_le.2 hbeyond hreached

/-! ### Rows of any height -/

/-- Every line above the last row is above the next line. -/
def StepsDown (terminal : Terminal) : Prop :=
  ∀ n, terminal.lineRow n < lastCell → terminal.lineRow n < terminal.lineRow (n + 1)

/-- Lines step down all the way exactly if the last of as many lines as there are rows is on the
last row. So one line decides for all: if it has kept up, no line before it has fallen behind. -/
theorem stepsDown_iff : terminal.StepsDown ↔ terminal.lineRow lastCell = lastCell := by
  constructor
  · intro hsteps
    have hrow := le_lineRow_of_steps hheight hpos (fun n _ => hsteps n) lastCell (Nat.le_refl _)
    exact Nat.le_antisymm (terminal.lineRow_le lastCell) hrow
  · intro hlast n hrow
    have hn : n < lastCell := by
      by_contra hge
      have hmono := lineRow_mono hheight hpos (Nat.not_lt.1 hge)
      omega
    rcases Nat.lt_or_ge (20 * unitsInOne) (units height.val) with hlarge | hsmall
    · -- the line is on the row of its number, and the next one is not above its own
      refine Nat.lt_of_le_of_lt (lineRow_le_of_large hheight hpos hlarge hn) ?_
      rcases Nat.lt_or_eq_of_le (show n + 1 ≤ lastCell from hn) with hnext | hnext
      · exact le_lineRow_of_last hheight hpos (Nat.le_of_eq hlast.symm) hnext
      · rw [hnext, hlast]
        exact hn
    · exact lineRow_lt_of_small hheight hpos hsmall hn hrow

end Rows

end Terminal

/-! ## The rows of a run -/

/-- The row of a text. -/
def Piece.row? : Piece → Option Nat
  | .text _ row _ _ => some row
  | _ => none

namespace Terminal

/-- The rows on which draw calls put their texts. -/
def rowsDrawn (terminal : Terminal) (calls : List DrawCall) : List Nat :=
  (terminal.trace (calls.map .draw)).filterMap Piece.row?

/-- On a channel that refuses nothing the rows that are drawn on are those of all calls. -/
theorem rowsDrawn_eq {terminal : Terminal} (hwrite : terminal.out.writeRefusal = none)
    (hflush : terminal.out.flushRefusal = none) (calls : List DrawCall) :
    terminal.rowsDrawn calls = calls.map fun call => terminal.rowOf call.y := by
  induction calls generalizing terminal with
  | nil => rfl
  | cons call rest ih =>
    obtain ⟨cellWidth, lineHeight, palette, lowest, written, writes, flushes⟩ := terminal
    obtain rfl : writes = none := hwrite
    obtain rfl : flushes = none := hflush
    -- the drawing is opened before the first text, and the row is that of the call in any case
    cases lowest with
    | none => exact congrArg _ (ih rfl rfl)
    | some lowest => exact congrArg _ (ih rfl rfl)

end Terminal

/-- No two of the rows are equal, unless it is the last row. -/
def RowsApart (rows : List Nat) : Prop :=
  rows.Pairwise fun a b => a < Terminal.lastCell → b < Terminal.lastCell → a ≠ b

/-- The rows of texts that are placed one after the other depend on how many were placed before, and
not on the texts. -/
theorem Page.rows_placeAll (terminal : Terminal) (before : Nat) (drawn : List Emission) :
    (placeAll before drawn).map (fun call => terminal.rowOf call.y) =
      (List.range' before drawn.length).map terminal.lineRow := by
  induction drawn generalizing before with
  | nil => rfl
  | cons emission rest ih =>
    rw [placeAll, List.map_cons, ih, List.length_cons, List.range'_succ, List.map_cons, place,
      Terminal.lineRow]

namespace Terminal

/-- The rows of a run are those of its lines, whatever the lines are. -/
theorem rowsDrawn_run {terminal : Terminal} (hwrite : terminal.out.writeRefusal = none)
    (hflush : terminal.out.flushRefusal = none) (i : Interpreter) (source : String) :
    terminal.rowsDrawn (i.run source).2.1.calls =
      (List.range' i.session.shown (i.run source).2.1.calls.length).map terminal.lineRow := by
  obtain ⟨hcalls, -⟩ := i.calls_run source
  rw [rowsDrawn_eq hwrite hflush, hcalls, Page.rows_placeAll, Page.length_placeAll]

section Rows

variable {terminal : Terminal} {height : Fin positions}
  (hheight : terminal.lineHeight = .finite false height) (hpos : 0 < height.val)
include hheight hpos

/-- If lines step down, those of a run are on rows of their own, wherever on the page the run
begins. -/
theorem rowsApart_of_stepsDown (hsteps : terminal.StepsDown) (before count : Nat) :
    RowsApart ((List.range' before count).map terminal.lineRow) := by
  rw [RowsApart, List.pairwise_map]
  have hsorted : (List.range' before count).Pairwise (· < ·) := List.pairwise_lt_range'
  refine hsorted.imp fun {a b} hlt ha _ => Nat.ne_of_lt ?_
  exact Nat.lt_of_lt_of_le (hsteps a ha) (lineRow_mono hheight hpos hlt)

/-- If so many lines are on rows of their own, the last of them is on the last row. -/
theorem lineRow_last_of_rowsApart
    (hapart : RowsApart ((List.range' 0 (lastCell + 1)).map terminal.lineRow)) :
    terminal.lineRow lastCell = lastCell := by
  have hsteps : ∀ n < lastCell, terminal.lineRow n < lastCell →
      terminal.lineRow n < terminal.lineRow (n + 1) := by
    intro n hn hrow
    have hmono := lineRow_mono hheight hpos (Nat.le_add_right n 1)
    by_contra hge
    -- the rows of a line and the next one never go up, so if they do not go down they are the same
    have hsame : terminal.lineRow n = terminal.lineRow (n + 1) := by omega
    rw [RowsApart, List.pairwise_map, List.pairwise_iff_getElem] at hapart
    have hne := hapart n (n + 1) (by rw [List.length_range']; omega)
      (by rw [List.length_range']; omega) (Nat.lt_add_one n)
    rw [List.getElem_range', List.getElem_range', Nat.zero_add, Nat.zero_add, Nat.one_mul,
      Nat.one_mul] at hne
    exact hne hrow (hsame ▸ hrow) hsame
  exact Nat.le_antisymm (terminal.lineRow_le lastCell)
    (le_lineRow_of_steps hheight hpos hsteps lastCell (Nat.le_refl _))

end Rows

end Terminal

/-! ## A script with any number of lines -/

/-- A script that draws a boolean as often as it has lines. -/
def drawings (count : Nat) : String :=
  "\n".intercalate (List.replicate count (drawingLine "true"))

/-- A script that draws so many lines draws each of them. -/
theorem effects_drawings (count : Nat) :
    effects .empty (List.replicate count (drawingLine "true")) =
      List.replicate count (drawingLine "true", .shows "true") := by
  have hvalue : evaluateText .empty "true" = .ok (.scalar (.boolean true)) :=
    evaluateText_name (by decide) _
  induction count with
  | zero => exact effects_nil _
  | succ count ih =>
    rw [List.replicate_succ, effects_cons,
      effectOf_drawingLine (by decide) (by decide) hvalue, List.replicate_succ]
    exact congrArg _ ih

/-- So there is a run with any number of lines. It is what shows that lines fall behind, where they
do. -/
theorem length_calls_drawings (count : Nat) :
    (Interpreter.fresh.run (drawings count)).2.1.calls.length = count := by
  have hlines : LineStream.linesOf (drawings count) =
      List.replicate count (drawingLine "true") :=
    LineStream.linesOf_intercalate fun line hline =>
      List.eq_of_mem_replicate hline ▸ LineStream.isLine_drawingLine (by decide)
  have hrun : (Interpreter.fresh.run (drawings count)).2.1 =
      replay 0 .fresh (List.replicate count (drawingLine "true", .shows "true")) := by
    rw [← effects_drawings, ← hlines]
    exact runScript_builtin .fresh (drawings count)
  rw [hrun, ← List.length_map DrawCall.emission, emissions_replay, List.flatMap_replicate]
  simp [LineEffect.drawn]

/-! ## Settings of a file -/

/-- **Lines are on rows of their own above the last row, whatever is run, exactly when the rows end
before the lines fall behind.** Rows of at most twenty pixels always do. If it fails, a script that
does nothing but draw shows it, and no script is needed for the other direction but the count of its
lines. -/
theorem rowsApart_iff (rc : String) :
    let start := Terminal.ofSettings (Settings.ofText rc).1 .fresh
    (start.lineRow Terminal.lastCell = Terminal.lastCell →
        ∀ i source, RowsApart (start.rowsDrawn (Interpreter.run i source).2.1.calls)) ∧
      (start.lineRow Terminal.lastCell ≠ Terminal.lastCell →
        ∃ source, ¬ RowsApart (start.rowsDrawn (Interpreter.fresh.run source).2.1.calls)) ∧
      (start.lineHeight.compare? Page.lineHeight ≠ some .gt →
        start.lineRow Terminal.lastCell = Terminal.lastCell) := by
  intro start
  obtain ⟨height, hheight, hpos⟩ :=
    Settings.exists_of_isUsableSize (Settings.isUsable_ofText rc).lineHeight
  have hlineHeight : start.lineHeight = .finite false height := hheight
  refine ⟨fun hlast i source => ?_, fun hlast => ⟨drawings (Terminal.lastCell + 1), ?_⟩,
    fun hle => ?_⟩
  · rw [Terminal.rowsDrawn_run rfl rfl]
    exact Terminal.rowsApart_of_stepsDown hlineHeight hpos
      ((Terminal.stepsDown_iff hlineHeight hpos).2 hlast) _ _
  · rw [Terminal.rowsDrawn_run rfl rfl, length_calls_drawings]
    exact fun hapart => hlast (Terminal.lineRow_last_of_rowsApart hlineHeight hpos hapart)
  · -- twenty is exact in the format, so comparing the height with it is comparing the units
    obtain ⟨twenty, htwenty, hunits⟩ := exists_ofNat_eq (show 20 < twoTo 53 by decide)
    refine Terminal.lineRow_last_of_small hlineHeight hpos ?_
    rw [← hunits, units_strictMono.le_iff_le]
    rw [hlineHeight, Page.lineHeight, htwenty] at hle
    simpa [compare?, place?, compare_gt_iff_gt] using hle

/-- Rows of the height that they have by themselves, and rows of a thousand pixels. -/
theorem rowsApart_of_default :
    (∀ i source, RowsApart ((Terminal.ofSettings (Settings.ofText "").1 .fresh).rowsDrawn
        (Interpreter.run i source).2.1.calls)) ∧
      ∃ source, ¬ RowsApart
        ((Terminal.ofSettings (Settings.ofText "set line_height = 1000").1 .fresh).rowsDrawn
          (Interpreter.fresh.run source).2.1.calls) := by
  obtain ⟨hapart, -, hsmall⟩ := rowsApart_iff ""
  obtain ⟨-, hnot, -⟩ := rowsApart_iff "set line_height = 1000"
  exact ⟨hapart (hsmall (by decide +kernel)), hnot (by decide +kernel)⟩

/-- On rows of a thousand pixels the first two lines are on one row. Fifty lines are on such a row
before it ends. -/
theorem not_rowsApart :
    ¬ ∀ rc source, RowsApart ((Terminal.ofSettings (Settings.ofText rc).1 .fresh).rowsDrawn
      (Interpreter.fresh.run source).2.1.calls) := by
  intro h
  have hapart := h "set line_height = 1000" (drawings 2)
  rw [Terminal.rowsDrawn_run rfl rfl, length_calls_drawings] at hapart
  have hrows : (List.range' Interpreter.fresh.session.shown 2).map
      (Terminal.ofSettings (Settings.ofText "set line_height = 1000").1 .fresh).lineRow =
        [0, 0] := by
    decide +kernel
  rw [hrows] at hapart
  exact absurd rfl (List.rel_of_pairwise_cons hapart (List.mem_singleton_self 0)
    Terminal.lastCell_pos Terminal.lastCell_pos)

end CanvasScript
