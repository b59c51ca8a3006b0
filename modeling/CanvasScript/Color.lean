/-
Colors of drawn text: three bytes, written in hexadecimal.

A color is read from six digits, or from three of which each stands for itself twice, with
an optional `#` in front and blanks around it all. It is written in one way only, with the
`#` and six digits in upper case, so reading undoes writing and writing after reading is
the canonical spelling.
-/
import CanvasScript.Text.Blank

set_option autoImplicit false

namespace CanvasScript

/-- A color by its red, green and blue parts. -/
structure Color where
  red : UInt8
  green : UInt8
  blue : UInt8
  deriving DecidableEq, Repr

namespace Color

/-- The color of values that are drawn. -/
def text : Color := ⟨0, 0, 0⟩

def error : Color := ⟨255, 0, 0⟩

/-! ## Writing -/

/-- The upper-case hexadecimal digit for a number below sixteen. -/
def hexDigit (n : Nat) : Char :=
  if n < 10 then Char.ofNat ('0'.toNat + n) else Char.ofNat ('A'.toNat + (n - 10))

def hexPair (part : UInt8) : List Char :=
  [hexDigit (part.toNat / 16), hexDigit (part.toNat % 16)]

/-- The characters of a color: `#` and six digits. -/
def spelling (c : Color) : List Char :=
  '#' :: hexPair c.red ++ hexPair c.green ++ hexPair c.blue

def toText (c : Color) : String := String.ofList c.spelling

/-! ## Reading -/

/-- The number of a hexadecimal digit in either case. -/
def hexValue? (c : Char) : Option Nat :=
  if '0' ≤ c ∧ c ≤ '9' then some (c.toNat - '0'.toNat)
  else if 'A' ≤ c ∧ c ≤ 'F' then some (c.toNat - 'A'.toNat + 10)
  else if 'a' ≤ c ∧ c ≤ 'f' then some (c.toNat - 'a'.toNat + 10)
  else none

def part (high low : Nat) : UInt8 := UInt8.ofNat (16 * high + low)

/-- A color from the numbers of its six or three digits. -/
def ofHexValues? : List Nat → Option Color
  | [r, r', g, g', b, b'] => some ⟨part r r', part g g', part b b'⟩
  | [r, g, b] => some ⟨part r r, part g g, part b b⟩
  | _ => none

/-- Text without one `#` in front. -/
def withoutMark : List Char → List Char
  | '#' :: digits => digits
  | digits => digits

def read? (text : String) : Option Color :=
  ((withoutMark (Text.trim text.toList)).mapM hexValue?).bind ofHexValues?

/-- A text that is no color. -/
structure Unreadable where
  text : String
  deriving DecidableEq, Repr

def read (text : String) : Except Unreadable Color :=
  match read? text with
  | some color => .ok color
  | none => .error ⟨text⟩

/-- The message for a text that is no color. -/
def invalidMessage (text : String) : String :=
  "invalid color '" ++ text ++ "' (expected #RRGGBB or #RGB)"

theorem read_eq_color_iff {text : String} {color : Color} :
    read text = .ok color ↔ read? text = some color := by
  rw [read]
  rcases read? text with _ | other
  · simp
  · simp

/-- What is reported of a text that is no color is the whole text. -/
theorem read_eq_unreadable_iff {text : String} {unreadable : Unreadable} :
    read text = .error unreadable ↔ unreadable = ⟨text⟩ ∧ read? text = none := by
  rw [read]
  rcases read? text with _ | other
  · simp [eq_comm]
  · simp

/-- A written digit is read as the number it was written for. -/
theorem hexValue?_hexDigit {n : Nat} (h : n < 16) : hexValue? (hexDigit n) = some n := by
  have hall : ∀ m : Fin 16, hexValue? (hexDigit m.val) = some m.val := by decide
  exact hall ⟨n, h⟩

/-- The two digits of a part make up the part. -/
theorem part_digits (p : UInt8) : part (p.toNat / 16) (p.toNat % 16) = p := by
  rw [part, Nat.div_add_mod]
  exact UInt8.ofNat_toNat

end Color

end CanvasScript
