/-
The grammar of numerals, and that reading decides it.

A `NumberLiteral` is a numeral in the parts that it is written with: a sign, digits, a point with
digits behind it, and an exponent with a sign of its own, where everything but one digit may be
left out. It says what a numeral is without saying how it is found. Reading finds the parts from
the front, each as long as it can be, and each part ends where the next one begins; so the parts
that it finds are those that were written, and a text without such parts is not read.

The parts are also what other grammars of numbers are described with. The lexer reads unsigned
numerals of its own, and scripts see numbers written in some of the ways that are allowed here; each
of them says which parts it has, and gets its value from `numeral`. So there is one place where it
is said what a numeral is worth.
-/
import CanvasScript.Decimal.Numeral
import Mathlib.Data.List.TakeWhile

set_option autoImplicit false

namespace CanvasScript

/-! ## Runs of a class of characters -/

/-- A text does not go on with a character of the class. -/
def Ends (inClass : Char → Bool) (rest : List Char) : Prop :=
  ∀ c ∈ rest.head?, inClass c = false

theorem Ends.nil (inClass : Char → Bool) : Ends inClass [] := by
  intro c hc
  simp at hc

/-- A class ends in front of a character that is not in it. -/
theorem Ends.cons {inClass : Char → Bool} {c : Char} (h : inClass c = false) (rest : List Char) :
    Ends inClass (c :: rest) := by
  intro d hd
  obtain rfl := Option.mem_some_iff.1 hd
  exact h

/-- What is left behind the longest beginning of a class does not go on with it. -/
theorem ends_dropWhile (inClass : Char → Bool) (text : List Char) :
    Ends inClass (text.dropWhile inClass) := by
  intro c hc
  have hhead := List.head?_dropWhile_not inClass text
  rw [Option.mem_def.1 hc] at hhead
  simpa using hhead

section Runs

variable {inClass : Char → Bool} {word rest : List Char}

/-- A word of a class is taken whole and alone, if the class ends behind it. -/
theorem takeWhile_append_of_ends (hword : ∀ c ∈ word, inClass c = true)
    (hrest : Ends inClass rest) : (word ++ rest).takeWhile inClass = word := by
  rw [List.takeWhile_append_of_pos hword]
  rcases rest with _ | ⟨c, rest⟩
  · simp
  · simp [hrest c rfl]

/-- What stands behind a word of a class is then left as it is. -/
theorem dropWhile_append_of_ends (hword : ∀ c ∈ word, inClass c = true)
    (hrest : Ends inClass rest) : (word ++ rest).dropWhile inClass = rest := by
  rw [List.dropWhile_append_of_pos hword]
  rcases rest with _ | ⟨c, rest⟩
  · rfl
  · simp [hrest c rfl]

end Runs

/-! ## Numerals in their parts -/

/-- A sign that may be left out. -/
inductive WrittenSign where
  | absent
  | plus
  | minus
  deriving DecidableEq, Repr

namespace WrittenSign

def chars : WrittenSign → List Char
  | absent => []
  | plus => ['+']
  | minus => ['-']

def isMinus : WrittenSign → Bool
  | minus => true
  | _ => false

/-- The integer with a sign and given digits. -/
def value (sign : WrittenSign) (digits : List Char) : Int :=
  if sign.isMinus then -(Numeral.digitsValue digits : Int) else Numeral.digitsValue digits

end WrittenSign

/-- An exponent in its parts. -/
structure WrittenExponent where
  /-- Whether its letter is the capital one. -/
  capital : Bool
  sign : WrittenSign
  digits : List Char
  ne_nil : digits ≠ []
  isDigit : ∀ c ∈ digits, c.isDigit = true

/-- An exponent with its letter in lower case. -/
def WrittenExponent.lowered (e : WrittenExponent) : WrittenExponent := { e with capital := false }

/-- A numeral in its parts. -/
structure NumberLiteral where
  sign : WrittenSign
  whole : List Char
  /-- The digits behind the point, if there is a point. -/
  fraction : Option (List Char)
  exponent : Option WrittenExponent
  isDigit_whole : ∀ c ∈ whole, c.isDigit = true
  isDigit_fraction : ∀ c ∈ fraction.getD [], c.isDigit = true
  /-- There is a digit on one side of the point. -/
  ne_nil : whole ++ fraction.getD [] ≠ []

namespace NumberLiteral

def fractionChars : Option (List Char) → List Char
  | none => []
  | some digits => '.' :: digits

def exponentChars : Option WrittenExponent → List Char
  | none => []
  | some e => (if e.capital then 'E' else 'e') :: (e.sign.chars ++ e.digits)

def exponentValue : Option WrittenExponent → Int
  | none => 0
  | some e => e.sign.value e.digits

/-- A numeral as it is written. -/
def chars (l : NumberLiteral) : List Char :=
  l.sign.chars ++ (l.whole ++ (fractionChars l.fraction ++ exponentChars l.exponent))

/-- What a numeral says. -/
def numeral (l : NumberLiteral) : Numeral :=
  ⟨l.sign.isMinus, Numeral.digitsValue (l.whole ++ l.fraction.getD []),
    exponentValue l.exponent - (l.fraction.getD []).length⟩

/-- A class without the two letters of an exponent ends in front of one. With no exponent there, it
has to end in front of what follows. -/
theorem ends_exponentChars_append {inClass : Char → Bool} (hsmall : inClass 'e' = false)
    (hcapital : inClass 'E' = false) {rest : List Char} (hrest : Ends inClass rest)
    (exponent : Option WrittenExponent) : Ends inClass (exponentChars exponent ++ rest) := by
  rcases exponent with _ | e
  · exact hrest
  · refine .cons ?_ _
    rcases e.capital
    · exact hsmall
    · exact hcapital

/-- The same at the end of a text. -/
theorem ends_exponentChars {inClass : Char → Bool} (hsmall : inClass 'e' = false)
    (hcapital : inClass 'E' = false) (exponent : Option WrittenExponent) :
    Ends inClass (exponentChars exponent) := by
  have hends := ends_exponentChars_append hsmall hcapital (.nil inClass) exponent
  rwa [List.append_nil] at hends

/-- A class without the point ends in front of a fraction, or, with no fraction there, in front of
what follows. -/
theorem ends_fractionChars {inClass : Char → Bool} (hpoint : inClass '.' = false)
    {rest : List Char} (hrest : Ends inClass rest) (fraction : Option (List Char)) :
    Ends inClass (fractionChars fraction ++ rest) := by
  rcases fraction with _ | digits
  · exact hrest
  · exact .cons hpoint _

/-! ### The letter of the exponent -/

/-- A numeral with the letter of its exponent in lower case. -/
def lowered (l : NumberLiteral) : NumberLiteral :=
  { l with exponent := l.exponent.map WrittenExponent.lowered }

/-- The letter of an exponent says nothing about the value. -/
theorem numeral_lowered (l : NumberLiteral) : l.lowered.numeral = l.numeral := by
  have hvalue : exponentValue (l.exponent.map WrittenExponent.lowered) =
      exponentValue l.exponent := by
    rcases l.exponent with _ | e
    · rfl
    · rfl
  rw [numeral, numeral, lowered, hvalue]

/-! ### Characters -/

/-- The characters of numerals. -/
def isNumeralChar (c : Char) : Bool :=
  c.isDigit || c == '+' || c == '-' || c == '.' || c == 'e' || c == 'E'

theorem isNumeralChar_of_isDigit {c : Char} (h : c.isDigit = true) : isNumeralChar c = true := by
  simp [isNumeralChar, h]

theorem isNumeralChar_of_mem_sign {sign : WrittenSign} :
    ∀ c ∈ sign.chars, isNumeralChar c = true := by
  cases sign with
  | absent => exact fun _ hc => absurd hc List.not_mem_nil
  | plus => exact List.forall_mem_singleton.2 rfl
  | minus => exact List.forall_mem_singleton.2 rfl

/-- A fraction has a point and digits in it. -/
theorem isNumeralChar_of_mem_fraction {fraction : Option (List Char)}
    (h : ∀ c ∈ fraction.getD [], c.isDigit = true) :
    ∀ c ∈ fractionChars fraction, isNumeralChar c = true := by
  intro c hc
  rcases fraction with _ | digits
  · exact absurd hc List.not_mem_nil
  · rcases List.mem_cons.1 hc with rfl | hdigit
    · rfl
    · exact isNumeralChar_of_isDigit (h c hdigit)

/-- An exponent has one of its two letters in it, a sign, and digits. -/
theorem isNumeralChar_of_mem_exponent {exponent : Option WrittenExponent} :
    ∀ c ∈ exponentChars exponent, isNumeralChar c = true := by
  intro c hc
  rcases exponent with _ | e
  · exact absurd hc List.not_mem_nil
  · rcases List.mem_cons.1 hc with rfl | hbehind
    · cases e.capital <;> rfl
    · rcases List.mem_append.1 hbehind with hsign | hdigit
      · exact isNumeralChar_of_mem_sign c hsign
      · exact isNumeralChar_of_isDigit (e.isDigit c hdigit)

/-- No other characters are in a numeral than digits, signs, a point and the two letters. So nothing
that separates values in a script is in one. -/
theorem isNumeralChar_of_mem_chars (l : NumberLiteral) :
    ∀ c ∈ l.chars, isNumeralChar c = true := by
  intro c hc
  simp only [chars, List.mem_append] at hc
  rcases hc with hsign | hwhole | hfraction | hexponent
  · exact isNumeralChar_of_mem_sign c hsign
  · exact isNumeralChar_of_isDigit (l.isDigit_whole c hwhole)
  · exact isNumeralChar_of_mem_fraction l.isDigit_fraction c hfraction
  · exact isNumeralChar_of_mem_exponent c hexponent

/-- A numeral has at least one digit, before the point or behind it. -/
theorem chars_ne_nil (l : NumberLiteral) : l.chars ≠ [] := by
  intro hnil
  simp only [chars, List.append_eq_nil_iff] at hnil
  obtain ⟨-, hwhole, hfraction, -⟩ := hnil
  rcases hnone : l.fraction with _ | digits
  · exact l.ne_nil (by rw [hwhole, hnone]; rfl)
  · rw [hnone] at hfraction
    exact List.cons_ne_nil _ _ hfraction

end NumberLiteral

/-! ## The parts that reading finds -/

namespace Numeral

open NumberLiteral

def isSign (c : Char) : Bool := c == '+' || c == '-'

/-- A digit is no sign, so a numeral without a sign is read as one. -/
theorem isSign_eq_false_of_isDigit {c : Char} (h : c.isDigit = true) : isSign c = false := by
  by_contra hsign
  simp only [isSign, Bool.not_eq_false, Bool.or_eq_true, beq_iff_eq] at hsign
  rcases hsign with rfl | rfl
  · exact absurd h (by decide)
  · exact absurd h (by decide)

/-- A sign is taken as it is written, and a sign that is left out counts as a plus. -/
theorem takeSign_chars_append (sign : WrittenSign) {text : List Char} (h : Ends isSign text) :
    takeSign (sign.chars ++ text) = (sign.isMinus, text) := by
  cases sign with
  | absent =>
    rw [WrittenSign.chars, List.nil_append, takeSign.eq_def]
    split
    · exact absurd (h '-' rfl) (by decide)
    · exact absurd (h '+' rfl) (by decide)
    · rfl
  | plus => rfl
  | minus => rfl

/-- Whatever is taken as a sign, possibly nothing, was written as one. -/
theorem exists_sign (text : List Char) :
    ∃ sign : WrittenSign, sign.chars ++ (takeSign text).2 = text ∧
      sign.isMinus = (takeSign text).1 := by
  rw [takeSign.eq_def]
  split
  · exact ⟨.minus, rfl, rfl⟩
  · exact ⟨.plus, rfl, rfl⟩
  · exact ⟨.absent, rfl, rfl⟩

/-- A fraction is taken as it is written, if what follows goes on neither with digits nor with a
point. Without a point there is nothing to take. -/
theorem takeFraction_fractionChars_append {fraction : Option (List Char)} {rest : List Char}
    (hfraction : ∀ c ∈ fraction.getD [], c.isDigit = true) (hrest : Ends Char.isDigit rest)
    (hpoint : Ends (· == '.') rest) :
    takeFraction (fractionChars fraction ++ rest) = (fraction.getD [], rest) := by
  rcases fraction with _ | digits
  · -- without a point nothing is taken, because what follows does not begin with one
    rw [fractionChars, List.nil_append, takeFraction.eq_def]
    split
    · exact absurd (hpoint '.' rfl) (by decide)
    · rfl
  · rw [Option.getD_some] at hfraction ⊢
    rw [fractionChars, List.cons_append, takeFraction,
      takeWhile_append_of_ends hfraction hrest, dropWhile_append_of_ends hfraction hrest]

/-- Whatever is taken as a fraction, possibly nothing, was written as one, in digits. -/
theorem exists_fraction (text : List Char) :
    ∃ fraction : Option (List Char), fractionChars fraction ++ (takeFraction text).2 = text ∧
      fraction.getD [] = (takeFraction text).1 ∧ ∀ c ∈ fraction.getD [], c.isDigit = true := by
  rw [takeFraction.eq_def]
  split
  · rename_i rest
    refine ⟨some (rest.takeWhile Char.isDigit), ?_, rfl, fun c hc => List.mem_takeWhile_imp hc⟩
    rw [fractionChars, List.cons_append, List.takeWhile_append_dropWhile]
  · exact ⟨none, rfl, rfl, fun c hc => absurd hc List.not_mem_nil⟩

/-- What stands behind the letter of an exponent is read exactly if it is a sign, which may be left
out, and at least one digit. -/
theorem readExponentDigits?_eq_some_iff {text : List Char} {n : Int} :
    readExponentDigits? text = some n ↔
      ∃ (sign : WrittenSign) (digits : List Char), digits ≠ [] ∧ (∀ c ∈ digits, c.isDigit = true) ∧
        sign.chars ++ digits = text ∧ sign.value digits = n := by
  rw [readExponentDigits?]
  constructor
  · intro h
    obtain ⟨sign, htext, hsign⟩ := exists_sign text
    rcases htake : takeSign text with ⟨negative, digits⟩
    rw [htake] at h htext hsign
    dsimp only at h htext hsign
    split at h
    · exact absurd h (by simp)
    · rename_i hdigits
      simp only [Bool.or_eq_true, Bool.not_eq_true', not_or, Bool.not_eq_false,
        List.isEmpty_iff, List.all_eq_true] at hdigits
      refine ⟨sign, digits, hdigits.1, hdigits.2, htext, ?_⟩
      rw [WrittenSign.value, hsign]
      exact Option.some.inj h
  · -- the digits begin with no sign, so the sign is cut off as it was written
    rintro ⟨sign, digits, hne, hdigits, rfl, rfl⟩
    obtain ⟨first, more, rfl⟩ := List.exists_cons_of_ne_nil hne
    have hfirst := isSign_eq_false_of_isDigit (hdigits first List.mem_cons_self)
    have hall : (first :: more).all Char.isDigit = true := List.all_eq_true.2 hdigits
    rw [takeSign_chars_append sign (.cons hfirst more)]
    simp only [List.isEmpty_cons, hall, Bool.not_true, Bool.or_false, Bool.false_eq_true,
      if_false, WrittenSign.value]

/-- What stands behind the digits of a numeral is read exactly if it is an exponent or nothing.
Anything else makes the whole text no numeral. -/
theorem readExponent?_eq_some_iff {text : List Char} {n : Int} :
    readExponent? text = some n ↔
      ∃ exponent, exponentChars exponent = text ∧ exponentValue exponent = n := by
  constructor
  · intro h
    rw [readExponent?.eq_def] at h
    split at h
    · exact ⟨none, rfl, Option.some.inj h⟩
    · -- the letter is a small one here and a capital one in the next case
      obtain ⟨sign, digits, hne, hdigits, rfl, rfl⟩ := readExponentDigits?_eq_some_iff.1 h
      exact ⟨some ⟨false, sign, digits, hne, hdigits⟩, rfl, rfl⟩
    · obtain ⟨sign, digits, hne, hdigits, rfl, rfl⟩ := readExponentDigits?_eq_some_iff.1 h
      exact ⟨some ⟨true, sign, digits, hne, hdigits⟩, rfl, rfl⟩
    · exact absurd h (by simp)
  · rintro ⟨exponent, rfl, rfl⟩
    rcases exponent with _ | ⟨capital, sign, digits, hne, hdigits⟩
    · rfl
    · have hread := readExponentDigits?_eq_some_iff.2 ⟨sign, digits, hne, hdigits, rfl, rfl⟩
      cases capital with
      | false => exact hread
      | true => exact hread

/-! ## Reading decides the grammar -/

/-- A numeral is read as what it says. The reader cuts off one part after the other, and each of
them stops where the next one begins. -/
theorem read?_literal (l : NumberLiteral) : read? l.chars = some l.numeral := by
  -- each part ends where the next begins, with a digit, with a point, with a letter, or not at all
  have hexponent : Ends Char.isDigit (exponentChars l.exponent) := ends_exponentChars rfl rfl _
  have hpoint : Ends (· == '.') (exponentChars l.exponent) := ends_exponentChars rfl rfl _
  have hrest : Ends Char.isDigit (fractionChars l.fraction ++ exponentChars l.exponent) :=
    ends_fractionChars rfl hexponent _
  have hunsigned : Ends isSign
      (l.whole ++ (fractionChars l.fraction ++ exponentChars l.exponent)) := by
    rcases hwhole : l.whole with _ | ⟨first, more⟩
    · exact ends_fractionChars rfl (ends_exponentChars rfl rfl _) _
    · have hfirst : first.isDigit = true :=
        l.isDigit_whole first (by rw [hwhole]; exact List.mem_cons_self)
      exact .cons (isSign_eq_false_of_isDigit hfirst) _
  have hfilled : (l.whole.isEmpty && (l.fraction.getD []).isEmpty) = false := by
    rw [Bool.eq_false_iff]
    simpa using l.ne_nil
  have hvalue := readExponent?_eq_some_iff.2 ⟨l.exponent, rfl, rfl⟩
  rw [read?, chars, takeSign_chars_append l.sign hunsigned]
  dsimp only
  rw [takeWhile_append_of_ends l.isDigit_whole hrest,
    dropWhile_append_of_ends l.isDigit_whole hrest,
    takeFraction_fractionChars_append l.isDigit_fraction hexponent hpoint]
  dsimp only
  rw [hfilled, hvalue]
  rfl

/-- **Reading decides the grammar of numerals**, and finds what a numeral says. So a text that is no
numeral is not read at all, and none is read in two ways. -/
theorem read?_eq_some_iff {text : List Char} {n : Numeral} :
    read? text = some n ↔ ∃ l : NumberLiteral, l.chars = text ∧ l.numeral = n := by
  constructor
  · -- the parts that reading cuts off, put together again, are the text
    intro h
    obtain ⟨sign, hsigned, hsign⟩ := exists_sign text
    rw [read?] at h
    generalize takeSign text = taken at h hsigned hsign
    obtain ⟨negative, unsigned⟩ := taken
    obtain ⟨fraction, hbehind, hdigits, hfraction⟩ :=
      exists_fraction (unsigned.dropWhile Char.isDigit)
    dsimp only at h hsigned hsign
    generalize takeFraction (unsigned.dropWhile Char.isDigit) = found at h hbehind hdigits
    obtain ⟨digits, rest⟩ := found
    dsimp only at h hbehind hdigits
    split at h
    · exact absurd h (by simp)
    · rename_i hfilled
      obtain ⟨value, hexponent, rfl⟩ := Option.map_eq_some_iff.1 h
      obtain ⟨exponent, hchars, rfl⟩ := readExponent?_eq_some_iff.1 hexponent
      have hne : unsigned.takeWhile Char.isDigit ++ fraction.getD [] ≠ [] := by
        rw [hdigits]
        simpa using hfilled
      refine ⟨⟨sign, unsigned.takeWhile Char.isDigit, fraction, exponent,
        fun c hc => List.mem_takeWhile_imp hc, hfraction, hne⟩, ?_, ?_⟩
      · rw [chars]
        dsimp only
        rw [hchars, hbehind, List.takeWhile_append_dropWhile, hsigned]
      · rw [numeral]
        dsimp only
        rw [hsign, hdigits]
  · rintro ⟨l, rfl, rfl⟩
    exact read?_literal l

end Numeral

end CanvasScript
