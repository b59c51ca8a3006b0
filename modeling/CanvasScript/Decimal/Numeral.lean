/-
Numerals: the one written form of numbers that this project reads.

A numeral is an optional sign, digits with at most one point among or beside them, and an
optional exponent: `7`, `-3.5`, `.5`, `5.`, `+1e3`, `2E-7`. The digits are the ten of
ASCII, nothing may stand before, between or after the parts, and there is no digit that
may be left out beyond the one side of the point. Script values, settings and the number
tokens of expressions all go through `Numeral.read?`, so a spelling that two of them
accept means the same number in both.
-/
import CanvasScript.Decimal.Basic

set_option autoImplicit false

namespace CanvasScript

/-- A signed decimal as it was written. -/
structure Numeral where
  negative : Bool
  /-- The digits and the power of ten. -/
  magnitude : Decimal
  deriving DecidableEq, Repr

namespace Numeral

/-- The binary64 number nearest to a numeral. -/
def toBinary64 (n : Numeral) : Binary64 := n.magnitude.toBinary64 n.negative

/-- Takes an optional sign from the front; the flag is set by a minus. -/
def takeSign : List Char → Bool × List Char
  | '-' :: rest => (true, rest)
  | '+' :: rest => (false, rest)
  | text => (false, text)

/-- Takes a point and the digits after it from the front, if a point is there. -/
def takeFraction : List Char → List Char × List Char
  | '.' :: rest => (rest.takeWhile Char.isDigit, rest.dropWhile Char.isDigit)
  | text => ([], text)

def digitsValue (digits : List Char) : Nat := Nat.ofDigitChars 10 digits 0

/-- The digits after an exponent letter and its optional sign, to the end of the text. -/
def readExponentDigits? (text : List Char) : Option Int :=
  let (negative, digits) := takeSign text
  if digits.isEmpty || !digits.all Char.isDigit then none
  else some (if negative then -(digitsValue digits : Int) else digitsValue digits)

/-- An exponent to the end of the text: none written counts as zero. -/
def readExponent? : List Char → Option Int
  | [] => some 0
  | 'e' :: rest => readExponentDigits? rest
  | 'E' :: rest => readExponentDigits? rest
  | _ => none

/-- Reads a text that is a numeral from its first character to its last. -/
def read? (text : List Char) : Option Numeral :=
  let (negative, unsigned) := takeSign text
  let whole := unsigned.takeWhile Char.isDigit
  let (fraction, rest) := takeFraction (unsigned.dropWhile Char.isDigit)
  if whole.isEmpty && fraction.isEmpty then none
  else (readExponent? rest).map fun exponent =>
    ⟨negative, digitsValue (whole ++ fraction), exponent - fraction.length⟩

example : read? "-3.50".toList = some ⟨true, 350, -2⟩ := by decide
example : read? "5.e1".toList = some ⟨false, 5, 1⟩ := by decide
example : read? "1e".toList = none := by decide
example : read? "-.".toList = none := by decide

end Numeral

end CanvasScript
