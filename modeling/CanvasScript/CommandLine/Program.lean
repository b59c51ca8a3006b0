/-
The program: from the command line, the files and the standard input to an exit status and
what is written.

`Program.run` is a function. What it may depend on is a `Surroundings`, and what it comes to
is an `Outcome`; reading and writing are left to whoever calls it, and so is what a log makes of
its filters. The steps are in the order in which their failures win: the command line, then the
settings, which can only warn, then the script, then the target.
-/
import CanvasScript.CommandLine.Arguments
import CanvasScript.CommandLine.FileTree
import CanvasScript.Script.Interpreter
import CanvasScript.Surface.Dump
import CanvasScript.Surface.Terminal

set_option autoImplicit false

namespace CanvasScript

/-- What a log makes of its filters, which are texts. -/
structure LogFilters where
  /-- Whether a text can be read as a filter. -/
  accepts : String → Bool
  /-- Whether a filter lets the warnings of this program through. -/
  passes : String → Bool

structure Surroundings where
  /-- The arguments after the name of the program. -/
  arguments : List String
  /-- The settings file that the environment names. -/
  settingsPath : Option String
  /-- The directory for the settings of all programs. -/
  settingsRoot : Option String
  home : Option String
  /-- The filter for log records that the environment names. -/
  logFilter : Option String
  /-- The log that records are left to. -/
  filters : LogFilters
  /-- Whether the standard output is a terminal. -/
  onTerminal : Bool
  openFile : String → FileContent
  input : FileContent

structure Outcome where
  status : Nat
  /-- What is written to the standard output. -/
  output : String
  /-- What is written to the standard error, log records apart. -/
  diagnostics : String
  warnings : List String
  deriving DecidableEq, Repr

namespace Program

/-! ## Settings -/

def inside (directory name : String) : String :=
  if directory = "" then name
  else if directory.toList.getLast? == some '/' then directory ++ name
  else directory ++ "/" ++ name

/-- A path, unless it is missing or empty. -/
def given (path : Option String) : List String :=
  path.toList.filter fun p => p != ""

/-- The settings files that are looked for, in order. -/
def candidates (settingsPath settingsRoot home : Option String) : List String :=
  given settingsPath ++
    settingsRoot.toList.map (fun root => inside (inside root "tela") "telarc") ++
    (given home).map (fun directory => inside directory ".telarc") ++
    ["./.telarc"]

/-- The settings file to read, if any. -/
def settingsFile? (s : Surroundings) : SettingsSource → Option String
  | .skip => none
  | .file path => some path
  | .search =>
    (candidates s.settingsPath s.settingsRoot s.home).find? fun path =>
      (s.openFile path).isPresent

/-- Settings, with what reading them gave reason to say. -/
structure Loaded where
  settings : Settings
  diagnostics : String
  warnings : List String

/-- What every message of the program starts with. -/
def messageLead : String := "tela: "

/-- The log record of a fault in a settings file. -/
def warning (path : String) (f : Settings.LineFault) : String := f.message ++ " file=" ++ path

/-- The filter for log records: the one for debugging, if that is asked for, or else the one that
the environment names, unless it cannot be read. -/
def filterFor (s : Surroundings) (debug : Bool) : String :=
  if debug then "tela=debug" else (s.logFilter.filter s.filters.accepts).getD "tela=warn"

/-- Whether the log shows warnings. -/
def showsWarnings (s : Surroundings) (debug : Bool) : Bool := s.filters.passes (filterFor s debug)

/-- Reads the settings. A file that cannot be read counts as none. -/
def load (s : Surroundings) (arguments : Arguments) : Loaded :=
  match settingsFile? s arguments.settings with
  | none => ⟨.default, "", []⟩
  | some path =>
    match s.openFile path with
    | .error fault =>
      ⟨.default, messageLead ++ "warning: " ++ path ++ ": " ++ fault.message ++ "\n", []⟩
    | .ok text =>
      let (settings, faults) := Settings.ofText text
      ⟨settings, "",
        if showsWarnings s arguments.debug then faults.map (warning path) else []⟩

/-! ## Script -/

/-- Reads the script, or says why it cannot be read. -/
def readScript (s : Surroundings) : Option String → Except String String
  | some path => (s.openFile path).mapError fun fault => path ++ ": " ++ fault.message
  | none => s.input.mapError fun fault => "stdin: " ++ fault.message

/-- What a drawing writes: of the surface of the settings, after a run for a target. -/
def drawn {σ : Type} [Surface σ] (surface : σ) (written : σ → String) (settings : Settings)
    (target source : String) : Except ScriptError Unit × String :=
  let result := interpret (Keyed.empty.insert settings.surface surface) target source
  (result.outcome.map fun _ => (), ((result.targets.get? settings.surface).map written).getD "")

def dumpWritten (dump : Dump) : String := dump.out.written

/-- What a terminal has written after it is left. -/
def terminalWritten (terminal : Terminal) : String := terminal.drop.1.out.written

/-- Runs a script and draws it in the form that the output takes. -/
def draw (asDump : Bool) (settings : Settings) (target source : String) :
    Except ScriptError Unit × String :=
  if asDump then drawn (Dump.mk .fresh) dumpWritten settings target source
  else drawn (Terminal.ofSettings settings .fresh) terminalWritten settings target source

/-- Loads settings, reads the script and runs it. -/
def runScript (s : Surroundings) (arguments : Arguments) : Outcome :=
  let loaded := load s arguments
  match readScript s arguments.script with
  | .error why => ⟨1, "", loaded.diagnostics ++ messageLead ++ why ++ "\n", loaded.warnings⟩
  | .ok source =>
    let target := arguments.target.getD loaded.settings.surface
    let asDump := arguments.dump || !s.onTerminal
    match draw asDump loaded.settings target source with
    | (.ok _, output) => ⟨0, output, loaded.diagnostics, loaded.warnings⟩
    | (.error fault, output) =>
      ⟨1, output, loaded.diagnostics ++ messageLead ++ fault.message ++ "\n", loaded.warnings⟩

/-! ## The whole program -/

/-- The keywords of the language, one per line. -/
def keywordList : String :=
  String.join (Builtin.commands.sortedKeywords.map fun keyword => keyword ++ "\n")

def run (s : Surroundings) : Outcome :=
  match Arguments.read s.arguments with
  | .error fault => ⟨1, "", messageLead ++ fault.message ++ "\n" ++ usage ++ "\n", []⟩
  | .ok arguments =>
    if arguments.help then ⟨0, usage ++ "\n", "", []⟩
    else if arguments.listCommands then ⟨0, keywordList, "", []⟩
    else runScript s arguments

end Program

end CanvasScript
