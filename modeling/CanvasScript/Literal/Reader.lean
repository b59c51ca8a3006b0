/-
Reading value literals.

The forms are tried in a fixed order: an object in braces, a string in one pair of equal
quotes, the two booleans, a number, and at last the name of a bound variable, whose present
value is taken. Strings have no escapes here, so a quote inside is just a character.

An object is what stands between the first opening and the last closing brace, cut at
commas. Pieces that are blank are passed over, so a comma too many does no harm. Each other
piece is a key and a value on the two sides of its first colon; both must be there, and the
value must be a scalar.
-/
import CanvasScript.Decimal.Numeral
import CanvasScript.Script.Fault
import CanvasScript.Text.Blank
import CanvasScript.Text.Cut

set_option autoImplicit false

namespace CanvasScript.Literal

/-! ## Values other than objects -/

/-- The text between two equal quotes at the ends. -/
def between? (quote : Char) (text : List Char) : Option (List Char) :=
  (Text.after? [quote] text).bind (Text.beforeFinal? quote)

/-- The content of a quoted string, in either quote. -/
def unquote? (text : List Char) : Option (List Char) :=
  (between? '\'' text).or (between? '"' text)

theorem between?_eq_some_iff {quote : Char} {text content : List Char} :
    between? quote text = some content ↔ text = quote :: (content ++ [quote]) := by
  simp only [between?, Option.bind_eq_some_iff, Text.after?_eq_some_iff,
    Text.beforeFinal?_eq_some_iff, List.singleton_append]
  constructor
  · rintro ⟨rest, rfl, rfl⟩
    rfl
  · intro htext
    exact ⟨content ++ [quote], htext, rfl⟩

/-- A string literal is its content between two equal quotes. -/
theorem unquote?_eq_some_iff {text content : List Char} :
    unquote? text = some content ↔
      text = '\'' :: (content ++ ['\'']) ∨ text = '"' :: (content ++ ['"']) := by
  rw [unquote?, Option.or_eq_some_iff, between?_eq_some_iff, between?_eq_some_iff]
  constructor
  · exact Or.imp_right And.right
  · rintro (hsingle | hdouble)
    · exact .inl hsingle
    · -- a text that starts with one quote does not start with the other
      refine .inr ⟨?_, hdouble⟩
      rw [hdouble]
      rfl

def boolean? (text : List Char) : Option Bool :=
  if text = "true".toList then some true
  else if text = "false".toList then some false
  else none

/-- The value of a text that is a quoted string, a boolean or a number. -/
def constant? (text : List Char) : Option Scalar :=
  match unquote? text with
  | some content => some (.string (String.ofList content))
  | none =>
    match boolean? text with
    | some b => some (.boolean b)
    | none => (Numeral.read? text).map fun numeral => .number numeral.toBinary64

/-- The value of a text that is a constant or the name of a variable. -/
def atom? (vars : Bindings) (text : List Char) : Option Value :=
  match constant? text with
  | some s => some (.scalar s)
  | none => vars.get? (String.ofList text)

/-! ## Objects -/

/-- The scalar that the value of an entry is. -/
def entryValue? (vars : Bindings) : List Char → Option Scalar
  | '\x7b' :: _ => none
  | text => (atom? vars text).bind Value.scalar?

/-- Reads an entry. The text `line` is what a bad value names. -/
def readEntry (vars : Bindings) (line : String) (pair : List Char) :
    Except ScriptError (String × Scalar) :=
  match Text.cutFirst? (· == ':') pair with
  | none => .error (.invalidPair (String.ofList pair))
  | some (before, after) =>
    let key := Text.trim before
    let value := Text.trim after
    if key.isEmpty || value.isEmpty then .error (.invalidPair (String.ofList pair))
    else
      match entryValue? vars value with
      | some s => .ok (String.ofList key, s)
      | none => .error (.invalidValue line)

/-- The pieces between commas, without blanks around them and without blank ones. -/
def pieces (body : List Char) : List (List Char) :=
  ((body.splitOn ',').map Text.trim).filter fun piece => !piece.isEmpty

/-- The text between the first opening and the last closing brace. -/
def body? (text : List Char) : Option (List Char) := do
  let (_, inside) ← Text.cutFirst? (· == '\x7b') text
  let (body, _) ← Text.cutLast? (· == '\x7d') inside
  return body

def readEntries (vars : Bindings) (line : String) :
    List (List Char) → Except ScriptError (List (String × Scalar))
  | [] => .ok []
  | pair :: rest =>
    match readEntry vars line pair with
    | .error fault => .error fault
    | .ok entry => (readEntries vars line rest).map (entry :: ·)

/-- Reads an object. The text `line` is what a failure names. -/
def readObject (vars : Bindings) (line : String) (text : List Char) :
    Except ScriptError FlatObject :=
  match body? text with
  | none => .error (.malformedObject line)
  | some body => (readEntries vars line (pieces body)).map Keyed.ofList

/-! ## Any value -/

/-- Whether a text is an object literal, complete or not. -/
def startsObject : List Char → Bool
  | '\x7b' :: _ => true
  | _ => false

/-- Reads a complete value. The text `line` is what a failure names. -/
def readValue (vars : Bindings) (line : String) (text : List Char) : Except ScriptError Value :=
  if startsObject text then (readObject vars line text).map .object
  else
    match atom? vars text with
    | some v => .ok v
    | none => .error (.invalidValue line)

end CanvasScript.Literal
