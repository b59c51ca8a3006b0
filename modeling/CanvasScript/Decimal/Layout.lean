/-
How a number is written: the digits of its shortest decimal, laid out with a point or
with an exponent.

Two written forms share these digits. `Binary64.text` is the form that scripts see: zero
has no sign, the infinities are spelled out, and from `1e21` up, or below `1e-6`, there is
one digit before the point and an exponent after it, with a plus sign when it is not
negative. `Binary64.plainText` is the form of coordinates in a recorded drawing: never an
exponent, and a zero keeps its sign.
-/
import CanvasScript.Decimal.Shortest

set_option autoImplicit false

namespace CanvasScript

namespace Decimal

/-! ## Layouts of a digit string -/

/-- A digit string without the zeros at its end. -/
def withoutFinalZeros (digits : List Char) : List Char :=
  (digits.reverse.dropWhile (· == '0')).reverse

/-- The digits of a decimal that have to be written. -/
def significant (d : Decimal) : List Char := withoutFinalZeros (Nat.toDigits 10 d.digits)

def zeros (count : Nat) : List Char := List.replicate count '0'

/-- Digits with the point at a given order: zeros fill the places that have no digit, and
a number below one has one zero before the point. -/
def positional (digits : List Char) (order : Int) : List Char :=
  if order ≤ 0 then '0' :: '.' :: zeros (-order).toNat ++ digits
  else if digits.length ≤ order.toNat then digits ++ zeros (order.toNat - digits.length)
  else digits.take order.toNat ++ '.' :: digits.drop order.toNat

/-- A whole number with its sign, plus signs included. -/
def signedDigits (n : Int) : List Char :=
  (if n < 0 then '-' else '+') :: Nat.toDigits 10 n.natAbs

/-- Digits with the point after the first of them, and an exponent. -/
def scientific : List Char → Int → List Char
  | [], _ => []
  | [digit], order => digit :: 'e' :: signedDigits (order - 1)
  | digit :: more, order => digit :: '.' :: more ++ 'e' :: signedDigits (order - 1)

end Decimal

/-! ## The two written forms -/

namespace Binary64

/-- The orders that scripts see without an exponent: from `1e-6` up to below `1e21`. -/
def isPositionalOrder (order : Int) : Bool := decide (-5 ≤ order ∧ order ≤ 21)

/-- A sign, when negative, before a written magnitude. -/
def withSign (negative : Bool) (magnitude : List Char) : List Char :=
  if negative then '-' :: magnitude else magnitude

/-- The written magnitude at a position other than zero, as scripts see it. -/
def magnitudeText (position : Nat) : List Char :=
  let d := Decimal.shortest position
  if isPositionalOrder d.order then Decimal.positional d.significant d.order
  else Decimal.scientific d.significant d.order

/-- The characters of a number as scripts see it. -/
def textChars : Binary64 → List Char
  | .nan => ['N', 'a', 'N']
  | .infinity negative => withSign negative "Infinity".toList
  | .finite negative magnitude =>
    if magnitude.val = 0 then ['0'] else withSign negative (magnitudeText magnitude.val)

/-- The text of a number as scripts see it. -/
def text (x : Binary64) : String := String.ofList x.textChars

def plainChars : Binary64 → List Char
  | .nan => ['N', 'a', 'N']
  | .infinity negative => withSign negative ['i', 'n', 'f']
  | .finite negative magnitude =>
    withSign negative <|
      if magnitude.val = 0 then ['0']
      else
        let d := Decimal.shortest magnitude.val
        Decimal.positional d.significant d.order

def plainText (x : Binary64) : String := String.ofList x.plainChars

/-- Both zeros are written alike. -/
theorem text_signedZero (a b : Bool) : (signedZero a).text = (signedZero b).text := rfl

end Binary64

end CanvasScript
