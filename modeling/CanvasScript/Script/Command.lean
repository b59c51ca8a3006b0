/-
Commands: what they are given, and what they may do.

A command sees the line that it is called for, all lines of the script with their brace
index, and the session: the bindings, and how many lines have been drawn. It answers with
a reply: texts to draw, in order, the bindings from now on, log events, and either the
number of lines that it took after its own or the reason why it failed. It has no other
way to draw and none to change how many lines have been drawn.
-/
import CanvasScript.Color
import CanvasScript.Event
import CanvasScript.Script.LineStream

set_option autoImplicit false

namespace CanvasScript

structure CommandInput where
  line : String
  lines : List String
  /-- Where literals left open on the lines would close. -/
  braces : BraceIndex
  index : Nat

/-- What carries over from line to line and from run to run. -/
structure Session where
  vars : Bindings
  /-- How many lines have been drawn. -/
  shown : Nat
  deriving DecidableEq

def Session.fresh : Session := ⟨.empty, 0⟩

/-- A text to draw as the next line. -/
structure Emission where
  text : String
  color : Color
  deriving DecidableEq

structure Reply where
  drawn : List Emission
  /-- The variables from now on. -/
  vars : Bindings
  events : List Event
  /-- The number of lines taken after the command's own, or why the command failed. -/
  outcome : Except ScriptError Nat

namespace Reply

/-- A failure without any other effect. -/
def failure (session : Session) (fault : ScriptError) : Reply :=
  ⟨[], session.vars, [], .error fault⟩

def showing (session : Session) (text : String) (color : Color) : Reply :=
  ⟨[⟨text, color⟩], session.vars, [], .ok 0⟩

end Reply

abbrev Handler := CommandInput → Session → Reply

/-! ## Tables -/

namespace Text

/-- A character as it stands between quotes. Those of a given class are shown by their numbers. -/
def quotedChar (byNumber : Char → Bool) (c : Char) : List Char :=
  match c with
  | '"' => ['\\', '"']
  | '\\' => ['\\', '\\']
  | '\n' => ['\\', 'n']
  | '\t' => ['\\', 't']
  | '\r' => ['\\', 'r']
  | '\x00' => ['\\', '0']
  | c =>
    if byNumber c then ['\\', 'u', '\x7b'] ++ Nat.toDigits 16 c.toNat ++ ['\x7d'] else [c]

def quoted (byNumber : Char → Bool) (text : String) : String :=
  "\"" ++ String.ofList (text.toList.flatMap (quotedChar byNumber)) ++ "\""

end Text

abbrev CommandTable := Keyed Handler

namespace CommandTable

/-- The keywords in increasing order. -/
def sortedKeywords (table : CommandTable) : List String :=
  table.keys.mergeSort fun a b => decide (a ≤ b)

/-- A table in words. Of commands only the keywords can be shown. Characters that would not be seen
are shown by number, and which those are depends on the tables of Unicode. -/
def description (byNumber : Char → Bool) (table : CommandTable) : String :=
  "CommandRegistry \x7b keywords: [" ++
    ", ".intercalate (table.sortedKeywords.map (Text.quoted byNumber)) ++ "] \x7d"

end CommandTable

end CanvasScript
