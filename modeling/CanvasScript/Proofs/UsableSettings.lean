/-
Settings that can be drawn with.

Drawing divides by the two sizes and looks up the surface by its name. A size that is not finite or
not above zero is refused where it is read, and so is an empty name, and whatever is refused changes
nothing. So the settings of every file can be drawn with, whatever is in it.

The induction is on the lines of the file, with `IsUsable` for its invariant: the settings that
there are without a file have it, and an assignment checks what it writes before it writes it.
Nothing about the text of a file is needed for this, so the same holds of every update that is made
later.
-/
import CanvasScript.Proofs.LiteralReading
import CanvasScript.Settings
import Mathlib.Tactic.SplitIfs

set_option autoImplicit false

namespace CanvasScript.Settings

/-- What drawing asks of its settings. -/
structure IsUsable (settings : Settings) : Prop where
  surface_ne : settings.surface ≠ ""
  cellWidth : isUsableSize settings.cellWidth = true
  lineHeight : isUsableSize settings.lineHeight = true

/-- A usable size is a number of pixels above zero. -/
theorem exists_of_isUsableSize {x : Binary64} (h : isUsableSize x = true) :
    ∃ magnitude : Fin Binary64.positions, x = .finite false magnitude ∧ 0 < magnitude.val := by
  cases x with
  | nan => exact absurd h (by decide)
  | infinity negative => exact absurd h (by cases negative <;> decide)
  | finite negative magnitude =>
    simp only [isUsableSize, Binary64.isFinite, Binary64.isNegative, Binary64.isZero,
      Bool.true_and, Bool.and_eq_true, Bool.not_eq_true', beq_eq_false_iff_ne] at h
    obtain ⟨rfl, hne⟩ := h
    exact ⟨magnitude, rfl, Nat.pos_of_ne_zero hne⟩

/-- A size that is read can be divided by. -/
theorem isUsableSize_of_readSize {name value : String} {x : Binary64}
    (h : readSize name value = .ok x) : isUsableSize x = true := by
  rw [readSize] at h
  split at h
  · split at h
    · rename_i husable
      exact Except.ok.inj h ▸ husable
    · exact absurd h (by simp)
  · exact absurd h (by simp)

/-- The settings that there are without a file can be drawn with. -/
theorem isUsable_default : IsUsable default :=
  ⟨by decide, by decide +kernel, by decide +kernel⟩

/-! ## What keeps settings usable -/

/-- An assignment that succeeds has checked what it writes. -/
theorem IsUsable.assign {settings next : Settings} (husable : settings.IsUsable)
    {name value : String} (h : settings.assign name value = .ok next) : next.IsUsable := by
  rw [Settings.assign] at h
  split_ifs at h with hsurface hempty hwidth hheight htext herror
  · exact Except.ok.inj h ▸ ⟨hempty, husable.cellWidth, husable.lineHeight⟩
  · obtain ⟨size, hsize, rfl⟩ := map_eq_ok_iff.1 h
    exact ⟨husable.surface_ne, isUsableSize_of_readSize hsize, husable.lineHeight⟩
  · obtain ⟨size, hsize, rfl⟩ := map_eq_ok_iff.1 h
    exact ⟨husable.surface_ne, husable.cellWidth, isUsableSize_of_readSize hsize⟩
  · obtain ⟨color, -, rfl⟩ := map_eq_ok_iff.1 h
    exact ⟨husable.surface_ne, husable.cellWidth, husable.lineHeight⟩
  · obtain ⟨color, -, rfl⟩ := map_eq_ok_iff.1 h
    exact ⟨husable.surface_ne, husable.cellWidth, husable.lineHeight⟩

/-- So a line keeps settings usable, whatever it says. A line that is wrong has not changed them. -/
theorem IsUsable.readLine {settings next : Settings} (husable : settings.IsUsable)
    {raw : List Char} (h : settings.readLine raw = .ok next) : next.IsUsable := by
  rw [Settings.readLine] at h
  dsimp only at h
  split_ifs at h with hsilent
  · exact Except.ok.inj h ▸ husable
  · split at h
    · exact absurd h (by simp)
    · rename_i assignment hafter
      rcases hsplit : splitAssignment assignment with fault | ⟨name, value⟩
      · rw [hsplit] at h
        exact absurd h (by simp [Except.bind])
      · rw [hsplit] at h
        exact husable.assign h

/-- And so do all lines, those with faults included. -/
theorem IsUsable.readLines {settings : Settings} (husable : settings.IsUsable) (number : Nat)
    (lines : List (List Char)) : (settings.readLines number lines).1.IsUsable := by
  induction lines generalizing settings number with
  | nil => exact husable
  | cons line rest ih =>
    rw [Settings.readLines]
    split
    · rename_i next hnext
      exact ih (husable.readLine hnext) _
    · exact ih husable _

/-- **The settings of every file are usable.** Sizes are finite and above zero and the surface has a
name, whatever is wrong in the file. -/
theorem isUsable_ofText (text : String) : (ofText text).1.IsUsable :=
  isUsable_default.readLines 1 _

end CanvasScript.Settings
