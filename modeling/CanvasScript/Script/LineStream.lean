/-
The lines of a script, and the keyword of a line.

A script is its lines without the blanks around them, and blank lines do not exist. With
the lines goes the index of where object literals left open on them would close, made once
for the whole script.

The keyword of a line decides which command gets it. Whatever stands before the first
parenthesis is the keyword; a line without one is a binding when it starts with the word of
bindings and a space, and otherwise has no keyword.
-/
import CanvasScript.Literal.Extent
import CanvasScript.Text.Blank
import CanvasScript.Text.Cut

set_option autoImplicit false

namespace CanvasScript

/-- The lines of a script with the index of their braces. -/
structure LineStream where
  lines : List String
  braces : BraceIndex

namespace LineStream

/-- The lines of a text: trimmed, without the blank ones. -/
def linesOf (source : String) : List String :=
  (((source.toList.splitOn '\n').map Text.trim).filter fun line => !line.isEmpty).map
    String.ofList

def ofLines (lines : List String) : LineStream := ⟨lines, .ofLines lines⟩

def ofSource (source : String) : LineStream := ofLines (linesOf source)

def size (stream : LineStream) : Nat := stream.lines.length

def isEmpty (stream : LineStream) : Bool := stream.lines.isEmpty

def get? (stream : LineStream) (index : Nat) : Option String := stream.lines[index]?

end LineStream

def keyword? (line : String) : Option String :=
  match Text.cutFirst? (· == '(') line.toList with
  | some (before, _) => some (String.ofList before)
  | none => if (Text.after? "set ".toList line.toList).isSome then some "set" else none

end CanvasScript
