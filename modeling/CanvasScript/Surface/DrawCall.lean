/-
Draw calls, and the surfaces that take them.

A draw call places one line of text at a pixel position in a color. A surface is any state
that a draw call changes, perhaps with something to report; the plainest one, a recording,
only keeps the calls. Runs never look at a surface, so a whole drawing can be made first
and put on a surface afterwards, call by call.
-/
import CanvasScript.Color
import CanvasScript.Event

set_option autoImplicit false

namespace CanvasScript

/-- One line of text, where it is placed and its color. -/
structure DrawCall where
  text : String
  x : Binary64
  y : Binary64
  color : Color
  deriving DecidableEq

/-- The written form of a draw call: position, color and text with tabs between them. -/
def DrawCall.toText (call : DrawCall) : String :=
  call.x.plainText ++ "\t" ++ call.y.plainText ++ "\t" ++ call.color.toText ++ "\t" ++ call.text

/-! ## Surfaces -/

/-- A state that draw calls change. -/
class Surface (σ : Type) where
  /-- The state after a draw call, and what the call gave reason to report. -/
  draw : σ → DrawCall → σ × List Event

/-- Puts draw calls on a surface, from first to last. -/
def drawAll {σ : Type} [Surface σ] (surface : σ) : List DrawCall → σ × List Event
  | [] => (surface, [])
  | call :: rest =>
    let (next, events) := Surface.draw surface call
    let (last, more) := drawAll next rest
    (last, events ++ more)

/-! ## Recordings -/

/-- A surface that keeps its draw calls. -/
structure Recording where
  calls : List DrawCall
  deriving DecidableEq

namespace Recording

def empty : Recording := ⟨[]⟩

def texts (r : Recording) : List String := r.calls.map DrawCall.text

instance : Surface Recording where
  draw r call := (⟨r.calls ++ [call]⟩, [])

/-- A recording grows by exactly the calls that are put on it, and reports nothing. -/
theorem drawAll_eq (r : Recording) (calls : List DrawCall) :
    drawAll r calls = (⟨r.calls ++ calls⟩, []) := by
  induction calls generalizing r with
  | nil => simp [drawAll]
  | cons call rest ih => simp [drawAll, Surface.draw, ih]

end Recording

end CanvasScript
