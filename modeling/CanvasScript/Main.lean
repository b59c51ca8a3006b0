/-
The command line as a process: gathers what the program depends on, runs it, and writes what
it comes to.

The program itself is the function `Program.run`, which takes files as a function from paths
to contents. The paths that it can ask for follow from the arguments and the environment, so
just these are read beforehand; the standard input is read only when it is the script, since
reading it may wait for someone to type.
-/
import CanvasScript.CommandLine.Program

set_option autoImplicit false

namespace CanvasScript.CommandLine

/-! ## Reading -/

/-- The bytes of a file as a text. -/
def decoded (bytes : ByteArray) : FileContent :=
  match String.fromUTF8? bytes with
  | some text => .ok text
  | none => .error .notText

/-- The system's number for a path that leads to a directory. -/
def directoryCode : UInt32 := 21

/-- The fault that a failed reading stands for. -/
def faultOf : IO.Error → FileFault
  | .noFileOrDirectory _ _ _ => .missing
  | .noSuchThing _ _ _ => .missing
  | .inappropriateType _ code _ => if code = directoryCode then .isDirectory else .notDirectory
  | .permissionDenied _ code words => .other code.toNat words
  | .resourceExhausted _ code words => .other code.toNat words
  | .invalidArgument _ code words => .other code.toNat words
  | .illegalOperation code words => .other code.toNat words
  | .otherError code words => .other code.toNat words
  | fault => .other 0 (toString fault)

def readFile (path : String) : IO FileContent := do
  try
    return decoded (← IO.FS.readBinFile path)
  catch fault => return .error (faultOf fault)

/-- The bytes of a stream up to its end, after those that were read already. -/
partial def readOn (stream : IO.FS.Stream) (bytes : ByteArray) : IO ByteArray := do
  let more ← stream.read 65536
  if more.isEmpty then return bytes
  else readOn stream (bytes ++ more)

/-- The paths that the program can ask for. -/
def askedFor (s : Surroundings) (arguments : Arguments) : List String :=
  let settings :=
    match arguments.settings with
    | .skip => []
    | .file path => [path]
    | .search => Program.candidates s.settingsPath s.settingsRoot s.home
  settings ++ arguments.script.toList

/-- Surroundings in which the files and the standard input have been read. -/
def filled (s : Surroundings) : IO Surroundings := do
  match Arguments.read s.arguments with
  | .error _ => return s
  | .ok arguments =>
    if arguments.help || arguments.listCommands then return s
    let files ← (askedFor s arguments).mapM fun path => return (path, ← readFile path)
    let input ←
      if arguments.script.isNone then
        pure (decoded (← readOn (← IO.getStdin) ByteArray.empty))
      else pure s.input
    return { s with
      openFile := fun path => (files.lookup path).getD (.error .missing)
      input := input }

/-! ## Surroundings -/

/-- The directory for settings that a home directory and an override give. -/
def settingsRoot (override home : Option String) : Option String :=
  match override with
  | some path =>
    if path.toList.head? = some '/' then some path
    else home.map fun directory => Program.inside directory ".config"
  | none => home.map fun directory => Program.inside directory ".config"

/-- The filters that this process knows: a level, which may be said to be for this program. Those
that are more than a level let warnings through. -/
def filters : LogFilters where
  accepts _ := true
  passes filter :=
    let level := (Text.after? "tela=".toList filter.toList).getD filter.toList
    (String.ofList level).toLower ∉ ["", "off", "error", "0", "1"]

/-- The surroundings of this process, with no file read yet. -/
def surroundings (arguments : List String) : IO Surroundings := do
  let home := (← IO.getEnv "HOME").filter fun path => path != ""
  return {
    arguments := arguments
    settingsPath := ← IO.getEnv "TELARC"
    settingsRoot := settingsRoot (← IO.getEnv "XDG_CONFIG_HOME") home
    home := home
    logFilter := ← IO.getEnv "RUST_LOG"
    filters := filters
    onTerminal := ← (← IO.getStdout).isTty
    openFile := fun _ => .error .missing
    input := .ok "" }

/-- Runs the program in this process and gives its exit status. -/
def run (arguments : List String) : IO UInt32 := do
  let outcome := Program.run (← filled (← surroundings arguments))
  for warning in outcome.warnings do
    IO.eprintln ("WARN " ++ warning)
  IO.print outcome.output
  IO.eprint outcome.diagnostics
  return UInt32.ofNat outcome.status

end CanvasScript.CommandLine

def main (arguments : List String) : IO UInt32 := CanvasScript.CommandLine.run arguments
