/-
From the text of an expression to its tokens.

`nextToken` reads the token that starts with a given character and returns what is left,
with the fact that what is left is no longer than what followed that character. This is
the only thing that the loop in `tokens` needs in order to end, so there is no counter.

A number keeps its maximal spelling: digits, a point when a digit follows it, and from an
exponent letter on a sign and digits if there are any. The spelling is then read as a
numeral, and since everything before the exponent is always well formed, the only number
that fails is one whose exponent has no digits. A number that starts with its point has no
exponent. Strings are in either quote; a backslash takes the next character as it is,
except that `n` stands for a line feed and `t` for a tab.
-/
import CanvasScript.Decimal.Numeral
import CanvasScript.Expr.Fault
import CanvasScript.Text.Blank

set_option autoImplicit false

namespace CanvasScript.Lexer

/-- What is left of a text: no longer than the text. -/
abbrev Remainder (text : List Char) := { rest : List Char // rest.length ≤ text.length }

def allOf (text : List Char) : Remainder text := ⟨text, Nat.le_refl _⟩

def Remainder.further {text : List Char} (rest : Remainder text)
    (more : Remainder rest.val) : Remainder text :=
  ⟨more.val, Nat.le_trans more.property rest.property⟩

def Remainder.after {text : List Char} (c : Char) (rest : Remainder text) :
    Remainder (c :: text) :=
  ⟨rest.val, Nat.le_succ_of_le rest.property⟩

/-- What is left after the longest beginning of a class. -/
def dropClass (inClass : Char → Bool) (text : List Char) : Remainder text :=
  ⟨text.dropWhile inClass, (List.dropWhile_sublist inClass).length_le⟩

/-! ## Numbers -/

/-- A point and digits at the front, if a digit follows the point. -/
def takePointAndDigits : (text : List Char) → List Char × Remainder text
  | '.' :: d :: text =>
    if d.isDigit then
      ('.' :: d :: text.takeWhile Char.isDigit, ((dropClass Char.isDigit text).after d).after '.')
    else ([], allOf _)
  | text => ([], allOf text)

/-- A sign at the front, if there is one. -/
def takeExponentSign : (text : List Char) → List Char × Remainder text
  | '+' :: text => (['+'], (allOf text).after '+')
  | '-' :: text => (['-'], (allOf text).after '-')
  | text => ([], allOf text)

/-- The part of an exponent after its letter: a sign and digits, both optional here. -/
def takeExponentBody (text : List Char) : List Char × Remainder text :=
  let (sign, afterSign) := takeExponentSign text
  (sign ++ afterSign.val.takeWhile Char.isDigit,
    afterSign.further (dropClass Char.isDigit afterSign.val))

/-- An exponent at the front, if its letter is there; the letter is kept in lower case. -/
def takeExponent : (text : List Char) → List Char × Remainder text
  | c :: text =>
    if c = 'e' ∨ c = 'E' then
      let (body, rest) := takeExponentBody text
      ('e' :: body, rest.after c)
    else ([], allOf _)
  | [] => ([], allOf [])

/-- The token for the spelling of a number. -/
def numberToken (spelling : List Char) : Except EvalError Token :=
  match Numeral.read? spelling with
  | some numeral => .ok (.number numeral.toBinary64)
  | none => .error (.invalidNumber (String.ofList spelling))

/-- Reads a number that starts with a digit. -/
def readNumber (first : Char) (text : List Char) : Except EvalError (Token × Remainder text) :=
  let afterWhole := dropClass Char.isDigit text
  let (fraction, afterFraction) := takePointAndDigits afterWhole.val
  let (exponent, rest) := takeExponent afterFraction.val
  (numberToken (first :: text.takeWhile Char.isDigit ++ fraction ++ exponent)).map fun token =>
    (token, afterWhole.further (afterFraction.further rest))

/-- Reads a number that starts with its point, from the digits on. -/
def readFraction (text : List Char) : Except EvalError (Token × Remainder text) :=
  (numberToken ('0' :: '.' :: text.takeWhile Char.isDigit)).map fun token =>
    (token, dropClass Char.isDigit text)

/-! ## Strings -/

/-- The character that a backslash makes of the one after it. -/
def unescape : Char → Char
  | 'n' => '\n'
  | 't' => '\t'
  | c => c

/-- Reads the characters of a string up to its closing quote. -/
def readString? (quote : Char) : (text : List Char) → Option (List Char × Remainder text)
  | [] => none
  | ['\\'] => none
  | '\\' :: c :: text =>
    (readString? quote text).map fun (s, rest) => (unescape c :: s, (rest.after c).after '\\')
  | c :: text =>
    if c = quote then some ([], (allOf text).after c)
    else (readString? quote text).map fun (s, rest) => (c :: s, rest.after c)

/-! ## Names -/

/-- Whether a character can start a name. -/
def isNameStart (c : Char) : Bool := c.isAlpha || c == '_'

/-- Whether a character can stand in a name after its start. -/
def isNameChar (c : Char) : Bool := c.isAlphanum || c == '_'

/-! ## Symbols -/

/-- The symbol of a character that is one by itself or begins no other. -/
def plainSymbol? : Char → Option Symbol
  | '+' => some .plus
  | '-' => some .minus
  | '*' => some .star
  | '/' => some .slash
  | '%' => some .percent
  | '.' => some .dot
  | '(' => some .openParen
  | ')' => some .closeParen
  | '!' => some .bang
  | '<' => some .less
  | '>' => some .greater
  | _ => none

def pairSymbol? : Char → Char → Option Symbol
  | '!', '=' => some .notEqual
  | '=', '=' => some .equal
  | '<', '=' => some .lessEqual
  | '>', '=' => some .greaterEqual
  | '&', '&' => some .and
  | '|', '|' => some .or
  | _, _ => none

/-- Reads the longest symbol that starts with a character. -/
def readSymbol? (c : Char) : (text : List Char) → Option (Symbol × Remainder text)
  | [] => (plainSymbol? c).map fun s => (s, allOf [])
  | d :: text =>
    match pairSymbol? c d with
    | some s => some (s, (allOf text).after d)
    | none => (plainSymbol? c).map fun s => (s, allOf (d :: text))

/-! ## Tokens -/

/-- Whether a text starts with a digit. -/
def startsWithDigit : List Char → Bool
  | [] => false
  | c :: _ => c.isDigit

/-- Reads the token that starts with a character. -/
def nextToken (c : Char) (text : List Char) : Except EvalError (Token × Remainder text) :=
  if c.isDigit then readNumber c text
  else if c = '.' ∧ startsWithDigit text then readFraction text
  else if c = '"' ∨ c = '\'' then
    match readString? c text with
    | some (s, rest) => .ok (.string (String.ofList s), rest)
    | none => .error .unterminatedString
  else if isNameStart c then
    .ok (.identifier (String.ofList (c :: text.takeWhile isNameChar)), dropClass isNameChar text)
  else
    match readSymbol? c text with
    | some (s, rest) => .ok (.symbol s, rest)
    | none => .error (.unexpectedChar c)

/-- The tokens of a text, which may have blanks between them. -/
def tokens : List Char → Except EvalError (List Token)
  | [] => .ok []
  | c :: text =>
    if Text.isBlank c then tokens text
    else
      match nextToken c text with
      | .error fault => .error fault
      | .ok (token, rest) =>
        match tokens rest.val with
        | .error fault => .error fault
        | .ok more => .ok (token :: more)
termination_by text => text.length
decreasing_by
  · exact Nat.lt_succ_self _
  · exact Nat.lt_succ_of_le rest.property

@[simp] theorem tokens_nil : tokens [] = .ok [] := by rw [tokens]

theorem tokens_cons_of_blank {c : Char} (text : List Char) (h : Text.isBlank c = true) :
    tokens (c :: text) = tokens text := by
  rw [tokens, if_pos h]

/-- A token at the front is followed by the tokens of what it leaves. -/
theorem tokens_cons_of_ok {c : Char} {text : List Char} {token : Token} {rest : Remainder text}
    (hblank : Text.isBlank c = false) (h : nextToken c text = .ok (token, rest)) :
    tokens (c :: text) = (tokens rest.val).map (token :: ·) := by
  rw [tokens, if_neg (by simp [hblank]), h]
  dsimp only
  cases htail : tokens rest.val with
  | error fault => rfl
  | ok more => rfl

end CanvasScript.Lexer
