/-
The arguments of the command line.

Options may come in any order and any number of times, and the last one of a kind counts.
Long options are whole words. Short ones may be written together in a cluster after one
dash; in a cluster the letters for the settings file and for the target take the rest of the
cluster as their text. At the end of a cluster the one for the settings file means that there
is none, because a word of its own is always the script, while the one for the target takes
the next argument, whatever it is. After `--` every argument is a word. At most one word may
be given: the script, where `-` means the standard input just as no word does.
-/
import CanvasScript.Text.Cut
import CanvasScript.Text.Natural

set_option autoImplicit false

namespace CanvasScript

inductive SettingsSource where
  /-- The first file that exists among the usual ones. -/
  | search
  | skip
  | file (path : String)
  deriving DecidableEq, Repr

structure Arguments where
  settings : SettingsSource
  /-- The target to draw on, instead of the one of the settings. -/
  target : Option String
  debug : Bool
  /-- Whether to write draw calls instead of drawing. -/
  dump : Bool
  /-- Whether to list the commands of the language and stop. -/
  listCommands : Bool
  /-- Whether to show the usage and stop. -/
  help : Bool
  /-- The script file; none for the standard input. -/
  script : Option String
  deriving DecidableEq, Repr

inductive ArgumentFault where
  | unknownOption (written : String)
  /-- The option for the target is the last argument. -/
  | missingTarget
  | tooMany (count : Nat)
  deriving DecidableEq, Repr

def ArgumentFault.message : ArgumentFault → String
  | .unknownOption written => "unknown option: " ++ written
  | .missingTarget => "-s requires a target argument"
  | .tooMany count => "too many arguments (" ++ Text.natural count ++ ")"

/-- The text that explains the command line. -/
def usage : String :=
  "Usage: tela [-f[<rcfile>]] [-s<target>] [-d] [--dump] [--commands] [<script>]\n" ++
  "\n" ++
  "  -f<rcfile>   load this rc file instead of searching for .telarc\n" ++
  "  -f           skip the rc file\n" ++
  "  -s<target>   draw on surface <target> (default: rc `surface`, or main)\n" ++
  "  -d           debug logging on stderr\n" ++
  "  --dump       print draw calls as `x<TAB>y<TAB>color<TAB>text`\n" ++
  "  --commands   list the registered commands and exit\n" ++
  "  <script>     script file to run; `-` or absent reads stdin"

namespace Arguments

def initial : Arguments := ⟨.search, none, false, false, false, false, none⟩

/-- Reads the letters of a cluster. The flag says that the target is the next argument. -/
def readCluster (asked : Arguments) : List Char → Except ArgumentFault (Arguments × Bool)
  | [] => .ok (asked, false)
  | 'd' :: more => readCluster { asked with debug := true } more
  | 'h' :: more => readCluster { asked with help := true } more
  | ['f'] => .ok ({ asked with settings := .skip }, false)
  | 'f' :: path => .ok ({ asked with settings := .file (String.ofList path) }, false)
  | ['s'] => .ok (asked, true)
  | 's' :: target => .ok ({ asked with target := some (String.ofList target) }, false)
  | c :: _ => .error (.unknownOption (String.ofList ['-', c]))

inductive Kind where
  | endOfOptions
  /-- A whole word that is an option, with what it asks for. -/
  | option (ask : Arguments → Arguments)
  /-- A word that looks like an option and is none. -/
  | unknown
  /-- A cluster of short options, by its letters. -/
  | cluster (letters : List Char)
  | word

def kindOf (argument : String) : Kind :=
  if argument = "--" then .endOfOptions
  else if argument = "--dump" then .option fun asked => { asked with dump := true }
  else if argument = "--commands" then .option fun asked => { asked with listCommands := true }
  else if argument = "--help" then .option fun asked => { asked with help := true }
  else
    match argument.toList with
    | '-' :: '-' :: _ => .unknown
    | '-' :: c :: letters => .cluster (c :: letters)
    | _ => .word

/-- Reads arguments into what they ask for and the words among them. -/
def readAll (asked : Arguments) : List String → Except ArgumentFault (Arguments × List String)
  | [] => .ok (asked, [])
  | argument :: rest =>
    match kindOf argument with
    | .endOfOptions => .ok (asked, rest)
    | .option ask => readAll (ask asked) rest
    | .unknown => .error (.unknownOption argument)
    | .word => (readAll asked rest).map fun (all, words) => (all, argument :: words)
    | .cluster letters =>
      match readCluster asked letters with
      | .error fault => .error fault
      | .ok (next, false) => readAll next rest
      | .ok (next, true) =>
        match rest with
        | [] => .error .missingTarget
        | target :: others => readAll { next with target := some target } others

/-- What is asked for once the words are known. -/
def withWords (asked : Arguments) : List String → Except ArgumentFault Arguments
  | [] => .ok asked
  | [word] => .ok (if word = "-" then asked else { asked with script := some word })
  | words => .error (.tooMany words.length)

def read (arguments : List String) : Except ArgumentFault Arguments :=
  (readAll initial arguments).bind fun (asked, words) => asked.withWords words

end Arguments

end CanvasScript
