/-
Settings, and the file that holds them.

Each line of a settings file sets one thing, with an equals sign or with a blank between
name and value, and the value may stand in double quotes. Blank lines and lines that start
with a semicolon say nothing. A line that is wrong is reported with its number and changes
nothing, and the lines after it count as ever.

The numbers among the settings are sizes in pixels that drawing divides by, so what is not
finite or not above zero is refused where it is read, and the surface has a name always.
-/
import CanvasScript.Color
import CanvasScript.Decimal.Numeral
import CanvasScript.Number.Arithmetic
import CanvasScript.Text.Cut
import CanvasScript.Text.Natural

set_option autoImplicit false

namespace CanvasScript

/-- What a drawing on a terminal depends on. -/
structure Settings where
  surface : String
  /-- Pixels per column. -/
  cellWidth : Binary64
  /-- Pixels per row. -/
  lineHeight : Binary64
  /-- The color that replaces the terminal's own for values. -/
  textColor : Option Color
  /-- The color that replaces red for error lines. -/
  errorColor : Option Color
  deriving DecidableEq

namespace Settings

def default : Settings := ⟨"main", .ofNat 10, .ofNat 20, none, none⟩

instance : Inhabited Settings := ⟨default⟩

/-! ## Faults -/

/-- Why a line or an assignment has no effect. -/
inductive Fault where
  /-- The line does not start with the word that every line starts with. -/
  | expectedSet (line : String)
  /-- The name has characters that names do not have, or none at all. -/
  | invalidName (name : String)
  /-- There is no setting of this name. -/
  | unknownSetting (name : String)
  | emptySurface
  /-- The size is no number, or not finite, or not above zero. -/
  | notPositive (name value : String)
  | invalidColor (text : String)
  deriving DecidableEq

def Fault.message : Fault → String
  | .expectedSet line => "expected 'set', found: " ++ line
  | .invalidName name => "invalid setting name '" ++ name ++ "'"
  | .unknownSetting name => "unknown setting '" ++ name ++ "'"
  | .emptySurface => "surface: empty target id"
  | .notPositive name value => name ++ ": expected a positive number, found '" ++ value ++ "'"
  | .invalidColor text => Color.invalidMessage text

/-! ## One assignment -/

/-- Whether a size can be divided by: finite and above zero. -/
def isUsableSize (x : Binary64) : Bool := x.isFinite && !x.isNegative && !x.isZero

def readSize (name value : String) : Except Fault Binary64 :=
  match (Numeral.read? value.toList).map Numeral.toBinary64 with
  | some x => if isUsableSize x then .ok x else .error (.notPositive name value)
  | none => .error (.notPositive name value)

/-- Reads a color, or one of the two words for none. -/
def readColor (value : String) : Except Fault (Option Color) :=
  if value = "default" ∨ value = "none" then .ok none
  else
    match Color.read value with
    | .ok color => .ok (some color)
    | .error unreadable => .error (.invalidColor unreadable.text)

def assign (settings : Settings) (name value : String) : Except Fault Settings :=
  if name = "surface" then
    if value = "" then .error .emptySurface else .ok { settings with surface := value }
  else if name = "cell_width" then
    (readSize name value).map fun size => { settings with cellWidth := size }
  else if name = "line_height" then
    (readSize name value).map fun size => { settings with lineHeight := size }
  else if name = "text_color" then
    (readColor value).map fun color => { settings with textColor := color }
  else if name = "error_color" then
    (readColor value).map fun color => { settings with errorColor := color }
  else .error (.unknownSetting name)

/-! ## One line -/

/-- Whether a character can stand in the name of a setting. -/
def isNameChar (c : Char) : Bool := c.isAlphanum || c == '_'

/-- Text without one pair of double quotes around it. -/
def unquoted (text : List Char) : List Char :=
  ((Text.after? ['"'] text).bind (Text.beforeFinal? '"')).getD text

/-- The two sides of an assignment: at the first equals sign, or else at the first blank. -/
def sides (assignment : List Char) : List Char × List Char :=
  match Text.cutFirst? (· == '=') assignment with
  | some (name, value) => (Text.trim name, Text.trim value)
  | none =>
    match Text.cutFirst? Text.isBlank assignment with
    | some (name, value) => (name, Text.trim value)
    | none => (assignment, [])

/-- The name and the value of an assignment. -/
def splitAssignment (assignment : List Char) : Except Fault (String × String) :=
  let (name, value) := sides (Text.trim assignment)
  if name.isEmpty || !name.all isNameChar then .error (.invalidName (String.ofList name))
  else .ok (String.ofList name, String.ofList (unquoted value))

def isSilent : List Char → Bool
  | [] => true
  | c :: _ => c == ';'

/-- The settings after one line of a file. -/
def readLine (settings : Settings) (raw : List Char) : Except Fault Settings :=
  let line := Text.trim raw
  if isSilent line then .ok settings
  else
    match Text.after? "set ".toList line with
    | none => .error (.expectedSet (String.ofList line))
    | some assignment =>
      (splitAssignment assignment).bind fun (name, value) => settings.assign name value

/-! ## A file -/

/-- A fault and the number of its line, counted from one. -/
structure LineFault where
  line : Nat
  fault : Fault
  deriving DecidableEq

/-- The message for a fault with the number of its line. -/
def LineFault.message (f : LineFault) : String :=
  "line " ++ Text.natural f.line ++ ": " ++ f.fault.message

/-- Reads lines numbered from `number` on. -/
def readLines (settings : Settings) (number : Nat) :
    List (List Char) → Settings × List LineFault
  | [] => (settings, [])
  | line :: rest =>
    match settings.readLine line with
    | .ok next => next.readLines (number + 1) rest
    | .error fault =>
      let (last, faults) := settings.readLines (number + 1) rest
      (last, ⟨number, fault⟩ :: faults)

/-- The settings of a file, and its faults in the order of its lines. -/
def ofText (text : String) : Settings × List LineFault :=
  default.readLines 1 (text.toList.splitOn '\n')

end Settings

end CanvasScript
