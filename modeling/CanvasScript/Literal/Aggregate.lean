/-
Gathering an object literal from the line it starts on and the lines after it.

A value that ends in a closing brace is taken as it stands. Any other is open, and the
lines up to its closing line are joined to it with single spaces, provided that the depth
there is exactly zero and that the closing line is among the lines at all. The second
condition can only fail when the index was made from other lines; it is checked here so
that nothing is assumed about where the index comes from.
-/
import CanvasScript.Literal.Extent
import CanvasScript.Script.Fault
import CanvasScript.Text.Cut

set_option autoImplicit false

namespace CanvasScript

/-- The text of a literal and the number of lines that it takes after its first. -/
structure Gathered where
  text : String
  consumed : Nat
  deriving DecidableEq, Repr

namespace Gathered

/-- A value with lines joined to it by single spaces. -/
def join (value : String) (lines : List String) : String :=
  value ++ String.join (lines.map fun line => " " ++ line)

/-- Whether a value is complete on its own line. -/
def isClosed (value : String) : Bool := value.toList.getLast? == some '\x7d'

/-- Gathers the literal that starts with `value` on line `index`. The text `line` is what a
failure names. -/
def ofLines (value line : String) (lines : List String) (braces : BraceIndex) (index : Nat) :
    Except ScriptError Gathered :=
  if isClosed value then .ok ⟨value, 0⟩
  else
    match braces.closing? index with
    | none => .error (.malformedObject line)
    | some closing =>
      if closing.depth = 0 ∧ closing.line < lines.length then
        let consumed := closing.line - index
        .ok ⟨join value ((lines.drop (index + 1)).take consumed), consumed⟩
      else .error (.malformedObject line)

end Gathered

end CanvasScript
