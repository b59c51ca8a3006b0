/-
A terminal as a surface: text at character cells on a cleared screen.

Pixel positions become cells by dividing by the size of a cell. The column is the quotient
rounded down; the row is the quotient rounded to the nearest whole number, less one, because
the first baseline is one line height below the top. Both are confined to sixteen bits.

The screen is cleared at the first draw call. Leaving the terminal puts the cursor below the
lowest row of all calls made, whether they reached the channel or not, and does nothing when
there was none. Each of these is a single text sent to the channel, so a refusal never leaves
part of a sequence behind.
-/
import CanvasScript.Settings
import CanvasScript.Surface.Channel
import CanvasScript.Surface.DrawCall

set_option autoImplicit false

namespace CanvasScript

/-! ## Colors -/

/-- A color as a terminal knows it. -/
inductive TerminalColor where
  /-- The terminal's own color for text. -/
  | reset
  /-- The terminal's bright red. -/
  | red
  | rgb (color : Color)
  deriving DecidableEq

/-- The terminal colors of values and of error lines. -/
structure Palette where
  text : TerminalColor
  error : TerminalColor
  deriving DecidableEq

namespace Palette

def ofSettings (settings : Settings) : Palette :=
  ⟨(settings.textColor.map .rgb).getD .reset, (settings.errorColor.map .rgb).getD .red⟩

/-- The terminal color for a drawn color: only the two that runs draw in are replaced. -/
def map (palette : Palette) (color : Color) : TerminalColor :=
  if color = Color.text then palette.text
  else if color = Color.error then palette.error
  else .rgb color

end Palette

/-! ## Sequences -/

namespace Terminal

def lead : String := "\x1b["

def clear : String := lead ++ "2J"

/-- Moves to a cell; cells are counted from one in the sequence. -/
def move (column row : Nat) : String :=
  lead ++ Text.natural (row + 1) ++ ";" ++ Text.natural (column + 1) ++ "H"

def select : TerminalColor → String
  | .reset => lead ++ "39m"
  | .red => lead ++ "38;5;9m"
  | .rgb c =>
    lead ++ "38;2;" ++ Text.natural c.red.toNat ++ ";" ++ Text.natural c.green.toNat ++ ";" ++
      Text.natural c.blue.toNat ++ "m"

def plain : String := lead ++ "0m"

/-- The start of a drawing: the cleared screen and the first cell. -/
def opening : String := clear ++ move 0 0

/-- A text at a cell in a color. -/
def placed (column row : Nat) (color : TerminalColor) (text : String) : String :=
  move column row ++ select color ++ text ++ plain

/-- The end of a drawing whose lowest row is given. -/
def closing (lowest : Nat) : String := move 0 (lowest + 1) ++ "\n"

/-- The largest column and row. -/
def lastCell : Nat := 65535

end Terminal

/-! ## The surface -/

/-- A terminal that draws on a channel. -/
structure Terminal where
  /-- Pixels per column. -/
  cellWidth : Binary64
  /-- Pixels per row. -/
  lineHeight : Binary64
  palette : Palette
  /-- The lowest row of all draw calls so far; none before the first. -/
  lowest : Option Nat
  out : Channel

namespace Terminal

/-- A terminal with given settings, before any draw call. -/
def ofSettings (settings : Settings) (out : Channel) : Terminal :=
  ⟨settings.cellWidth, settings.lineHeight, .ofSettings settings, none, out⟩

def columnOf (terminal : Terminal) (x : Binary64) : Nat :=
  (x.div terminal.cellWidth).confined Binary64.floorUnits lastCell

def rowOf (terminal : Terminal) (y : Binary64) : Nat :=
  (y.div terminal.lineHeight).confined (fun exact => Binary64.nearestAway exact - 1) lastCell

/-- Opens the drawing if this is the first draw call. -/
def opened (terminal : Terminal) : Channel × Option String :=
  match terminal.lowest with
  | none => terminal.out.send opening
  | some _ => (terminal.out, none)

/-- Sends a text after the drawing is open, unless opening it was refused. -/
def sendOpened (terminal : Terminal) (text : String) : Channel × Option String :=
  match terminal.opened with
  | (out, some why) => (out, some why)
  | (out, none) => out.send text

/-- The lowest row after a draw call on a row. -/
def lowestWith (terminal : Terminal) (row : Nat) : Nat :=
  match terminal.lowest with
  | none => row
  | some lowest => max lowest row

instance : Surface Terminal where
  draw terminal call :=
    let row := terminal.rowOf call.y
    let text := placed (terminal.columnOf call.x) row (terminal.palette.map call.color) call.text
    let (out, refusal) := terminal.sendOpened text
    ({ terminal with lowest := some (terminal.lowestWith row), out := out },
      match refusal with
      | none => []
      | some why => [.terminalWriteFailed why])

/-- Leaves the drawing: moves below the lowest row, if anything was drawn. -/
def finish (terminal : Terminal) : Terminal × Option String :=
  match terminal.lowest with
  | none => (terminal, none)
  | some lowest =>
    let (out, refusal) := terminal.out.send (closing (min lowest (lastCell - 1)))
    ({ terminal with out := out }, refusal)

/-- Leaves the drawing for good, and reports a refusal. -/
def drop (terminal : Terminal) : Terminal × List Event :=
  match terminal.finish with
  | (last, none) => (last, [])
  | (last, some why) => (last, [.terminalFlushFailed why])

/-- Columns and rows are within sixteen bits. -/
theorem cell_le (terminal : Terminal) (x y : Binary64) :
    terminal.columnOf x ≤ lastCell ∧ terminal.rowOf y ≤ lastCell :=
  ⟨Binary64.confined_le .., Binary64.confined_le ..⟩

end Terminal

end CanvasScript
