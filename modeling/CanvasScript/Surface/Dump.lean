/-
The dump: a surface that writes each draw call as one line of text.

The first three tabs of a line are the ones that separate the parts, because neither a
coordinate nor a color is written with a tab. A call that cannot be written is reported and
otherwise lost; the calls after it are written as if nothing had happened.
-/
import CanvasScript.Surface.Channel
import CanvasScript.Surface.DrawCall

set_option autoImplicit false

namespace CanvasScript

structure Dump where
  out : Channel

namespace Dump

def line (call : DrawCall) : String := call.toText ++ "\n"

instance : Surface Dump where
  draw dump call :=
    match dump.out.send (line call) with
    | (out, none) => (⟨out⟩, [])
    | (out, some why) => (⟨out⟩, [.dumpWriteFailed why])

end Dump

end CanvasScript
