/-
The two commands of the language: binding a name and drawing an expression.

A binding is the word `set`, blanks, a name, an equals sign with or without blanks around
it, and a value that ends with the line. A drawing is an expression between the word
`display` with its parenthesis and the parenthesis that ends the line. What either pattern
requires of line feeds matters only where a line was not made from a line stream, and the
definitions below say it for all texts: no line feed inside a drawing, and none in the value
of a binding except among the blanks before it.
-/
import CanvasScript.Expr.Evaluation
import CanvasScript.Literal.Aggregate
import CanvasScript.Literal.Reader
import CanvasScript.Script.Command

set_option autoImplicit false

namespace CanvasScript

/-! ## Patterns -/

namespace Pattern

/-- The value after the equals sign of a binding, without blanks around it. When there are
only blanks, the last of them may not be a line feed. -/
def boundValue? (rest : List Char) : Option (List Char) :=
  match Text.trimStart rest with
  | [] => if rest.isEmpty || rest.getLast? == some '\n' then none else some []
  | value => if value.contains '\n' then none else some (Text.trimEnd value)

/-- Text that starts with a blank, without the blanks at its start. -/
def afterBlanks? : List Char → Option (List Char)
  | [] => none
  | c :: text => if Text.isBlank c then some (Text.trimStart text) else none

/-- The name and the value of a binding. -/
def binding? (line : List Char) : Option (List Char × List Char) := do
  let afterWord ← Text.after? "set".toList line
  let named ← afterBlanks? afterWord
  let name := named.takeWhile Lexer.isNameChar
  guard (!name.isEmpty)
  let rest ← Text.after? ['='] (Text.trimStart (named.dropWhile Lexer.isNameChar))
  let value ← boundValue? rest
  return (name, value)

/-- The expression of a drawing, without blanks around it. -/
def drawing? (line : List Char) : Option (List Char) := do
  let opened ← Text.after? "display(".toList line
  let inside ← Text.beforeFinal? ')' opened
  guard (!inside.contains '\n')
  return Text.trim inside

end Pattern

/-! ## Commands -/

namespace Builtin

/-- The whole literal that a value starts, when it is an object, and the lines it takes. -/
def wholeLiteral (input : CommandInput) (value : List Char) : Except ScriptError Gathered :=
  if Literal.startsObject value then
    Gathered.ofLines (String.ofList value) input.line input.lines input.braces input.index
  else .ok ⟨String.ofList value, 0⟩

/-- The name, the value and the number of lines taken by a binding. -/
def readBinding (input : CommandInput) (vars : Bindings) :
    Except ScriptError (String × Value × Nat) :=
  match Pattern.binding? input.line.toList with
  | none => .error (.invalidSetSyntax input.line)
  | some (name, value) =>
    (wholeLiteral input value).bind fun literal =>
      (Literal.readValue vars input.line literal.text.toList).map fun v =>
        (String.ofList name, v, literal.consumed)

/-- Binds a name to a value, replacing an earlier binding. -/
def set : Handler := fun input session =>
  match readBinding input session.vars with
  | .error fault => .failure session fault
  | .ok (name, v, consumed) =>
    ⟨[], session.vars.insert name v, [.bound name v.kind consumed], .ok consumed⟩

def readDrawing (line : String) (vars : Bindings) : Except ScriptError String :=
  match Pattern.drawing? line.toList with
  | none => .error (.invalidDisplaySyntax line)
  | some expr =>
    match evaluateText vars (String.ofList expr) with
    | .error reason => .error (.evaluation (String.ofList expr) reason)
    | .ok v => .ok v.text

def display : Handler := fun input session =>
  match readDrawing input.line session.vars with
  | .error fault => .failure session fault
  | .ok text => .showing session text Color.text

def commands : CommandTable := .ofList [("set", set), ("display", display)]

end Builtin

end CanvasScript
