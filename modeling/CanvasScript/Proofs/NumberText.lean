/-
The text of a number is a numeral, and the numeral has the value of the number.

A `Spelling` is an unsigned numeral taken apart: digits, digits behind a point, and an
exponent with its sign. The parts and not the characters are what reading is about, so the
first half says that a spelling is read as the decimal that its parts say.

The second half goes the other way, from the number to the parts. Its text starts from the
digits of the shortest decimal, without the zeros at their end, and puts the point or an
exponent to them, in one of five ways. Each way is a spelling, and all five have the value of
the same digits with the point at the same order, up to zeros that moved between the digits
and the exponent. The shortest decimal has that value too, and it is read as the number. A sign in
front of a spelling changes the sign of what is read and nothing else.
-/
import CanvasScript.Decimal.Layout
import CanvasScript.Proofs.DecimalReading
import CanvasScript.Proofs.NumeralGrammar

set_option autoImplicit false

namespace CanvasScript

/-! ## Spellings -/

/-- An unsigned numeral in its parts. -/
structure Spelling where
  /-- The digits before the point. -/
  whole : List Char
  /-- The digits behind the point; there is no point without them. -/
  fraction : List Char
  exponent : Option Int
  whole_ne_nil : whole ≠ []
  isDigit_whole : ∀ c ∈ whole, c.isDigit = true
  isDigit_fraction : ∀ c ∈ fraction, c.isDigit = true

namespace Spelling

def fractionChars : List Char → List Char
  | [] => []
  | c :: more => '.' :: c :: more

def exponentChars : Option Int → List Char
  | none => []
  | some n => 'e' :: Decimal.signedDigits n

/-- A spelling as it is written. -/
def chars (s : Spelling) : List Char :=
  s.whole ++ (fractionChars s.fraction ++ exponentChars s.exponent)

/-- What a spelling says. -/
def decimal (s : Spelling) : Decimal :=
  ⟨Numeral.digitsValue (s.whole ++ s.fraction), s.exponent.getD 0 - s.fraction.length⟩

/-- A fraction is written with its point, if it has any digits. -/
theorem fractionChars_of_ne_nil {fraction : List Char} (h : fraction ≠ []) :
    fractionChars fraction = '.' :: fraction := by
  rcases fraction with _ | ⟨c, fraction⟩
  · exact absurd rfl h
  · rfl

end Spelling

/-! ## Spellings are read as what they say -/

namespace Spelling

/-- The exponent of a spelling in its parts. -/
def exponentOf (n : Int) : WrittenExponent where
  capital := false
  sign := if n < 0 then .minus else .plus
  digits := Nat.toDigits 10 n.natAbs
  ne_nil := Nat.toDigits_ne_nil
  isDigit := fun _ => Nat.isDigit_of_mem_toDigits (by decide) (by decide)

/-- A spelling is a numeral. -/
def literal (s : Spelling) : NumberLiteral where
  sign := .absent
  whole := s.whole
  fraction := if s.fraction = [] then none else some s.fraction
  exponent := s.exponent.map exponentOf
  isDigit_whole := s.isDigit_whole
  isDigit_fraction := by
    split_ifs
    · exact fun c hc => absurd hc List.not_mem_nil
    · exact s.isDigit_fraction
  ne_nil := List.append_ne_nil_of_left_ne_nil s.whole_ne_nil _

/-- The exponent of a spelling is written as that of a literal, which has a sign in any case. -/
theorem exponentChars_exponentOf (exponent : Option Int) :
    NumberLiteral.exponentChars (exponent.map exponentOf) = exponentChars exponent := by
  rcases exponent with _ | n
  · rfl
  · rw [exponentChars, Decimal.signedDigits]
    by_cases hneg : n < 0
    · simp [NumberLiteral.exponentChars, exponentOf, hneg, WrittenSign.chars]
    · simp [NumberLiteral.exponentChars, exponentOf, hneg, WrittenSign.chars]

/-- It has the same value there, and none counts as zero. -/
theorem exponentValue_exponentOf (exponent : Option Int) :
    NumberLiteral.exponentValue (exponent.map exponentOf) = exponent.getD 0 := by
  rcases exponent with _ | n
  · rfl
  · have hvalue : Numeral.digitsValue (Nat.toDigits 10 n.natAbs) = n.natAbs :=
      Nat.ofDigitChars_toDigits (by decide) (by decide)
    rw [Option.map_some, NumberLiteral.exponentValue, WrittenSign.value, Option.getD_some]
    simp only [exponentOf, hvalue]
    by_cases hneg : n < 0
    · rw [if_pos hneg, WrittenSign.isMinus, if_pos rfl]
      omega
    · rw [if_neg hneg, if_neg (by decide)]
      omega

/-- The digits behind the point are those of the spelling. -/
theorem getD_fraction_literal (s : Spelling) : s.literal.fraction.getD [] = s.fraction := by
  rw [literal]
  dsimp only
  split_ifs with hnone
  · rw [hnone]
    rfl
  · rfl

theorem fraction_literal_ne (s : Spelling) : s.literal.fraction ≠ some [] := by
  rw [literal]
  dsimp only
  split_ifs with hnone
  · simp
  · exact fun h => hnone (Option.some.inj h)

/-- A spelling is a literal, part by part, so that what is known of reading literals is known of
spellings. -/
theorem chars_literal (s : Spelling) : s.literal.chars = s.chars := by
  have hfraction : NumberLiteral.fractionChars s.literal.fraction = fractionChars s.fraction := by
    rw [literal]
    dsimp only
    split_ifs with hnone
    · rw [hnone]
      rfl
    · rw [fractionChars_of_ne_nil hnone]
      rfl
  rw [NumberLiteral.chars, hfraction, chars, literal]
  dsimp only
  rw [exponentChars_exponentOf, WrittenSign.chars, List.nil_append]

/-- As a literal it says what it says as a spelling. -/
theorem numeral_literal (s : Spelling) : s.literal.numeral = ⟨false, s.decimal⟩ := by
  rw [NumberLiteral.numeral, getD_fraction_literal, literal]
  dsimp only
  rw [exponentValue_exponentOf]
  rfl

end Spelling

/-! ## Texts of numbers are spellings -/

namespace Decimal

@[simp] theorem length_zeros (count : Nat) : (zeros count).length = count := List.length_replicate

theorem isDigit_of_mem_zeros {count : Nat} : ∀ c ∈ zeros count, c.isDigit = true := by
  intro c hc
  obtain rfl := List.eq_of_mem_replicate hc
  rfl

/-- Zeros behind digits multiply their value. -/
theorem digitsValue_append_zeros (digits : List Char) (count : Nat) :
    Numeral.digitsValue (digits ++ zeros count) = Numeral.digitsValue digits * tenTo count := by
  rw [Numeral.digitsValue, Nat.ofDigitChars_append, zeros, Nat.ofDigitChars_replicate_zero,
    Nat.mul_comm]
  rfl

/-- Zeros in front of digits do nothing. -/
theorem digitsValue_zeros_append (count : Nat) (digits : List Char) :
    Numeral.digitsValue (zeros count ++ digits) = Numeral.digitsValue digits := by
  rw [Numeral.digitsValue, Nat.ofDigitChars_append, zeros, Nat.ofDigitChars_replicate_zero,
    Nat.mul_zero, Numeral.digitsValue]

/-- The decimal with given digits and the point at a given order. -/
def ofDigits (digits : List Char) (order : Int) : Decimal :=
  ⟨Numeral.digitsValue digits, order - digits.length⟩

/-- A text is a spelling of the number that a decimal is read as. -/
def Spells (text : List Char) (d : Decimal) : Prop :=
  ∃ s : Spelling, s.chars = text ∧ s.decimal.toBinary64 false = d.toBinary64 false

section Layouts

variable {digits : List Char}

/-- The layout without an exponent spells its digits with the point at its order. There are three
ways: all digits behind the point, all in front of it, and some on either side. -/
theorem spells_positional (hne : digits ≠ []) (hdigits : ∀ c ∈ digits, c.isDigit = true)
    (order : Int) : Spells (positional digits order) (ofDigits digits order) := by
  rw [positional]
  split_ifs with hlow hshort
  · -- zeros between the point and the digits change nothing but the exponent
    have hfraction : ∀ c ∈ zeros (-order).toNat ++ digits, c.isDigit = true := fun c hc =>
      (List.mem_append.1 hc).elim (isDigit_of_mem_zeros c) (hdigits c)
    refine ⟨⟨['0'], zeros (-order).toNat ++ digits, none, by simp, by simp, hfraction⟩, ?_, ?_⟩
    · simp [Spelling.chars, Spelling.exponentChars, Spelling.fractionChars_of_ne_nil, hne]
    · have hvalue : Numeral.digitsValue ('0' :: (zeros (-order).toNat ++ digits)) =
          Numeral.digitsValue digits := digitsValue_zeros_append ((-order).toNat + 1) digits
      congr 1
      simp only [Spelling.decimal, ofDigits, List.singleton_append, hvalue, mk.injEq, true_and,
        Option.getD_none, List.length_append, length_zeros]
      omega
  · -- zeros before the point are digits
    have hwhole : ∀ c ∈ digits ++ zeros (order.toNat - digits.length), c.isDigit = true :=
      fun c hc => (List.mem_append.1 hc).elim (hdigits c) (isDigit_of_mem_zeros c)
    refine ⟨⟨_, [], none, by simp [hne], hwhole, by simp⟩, ?_, ?_⟩
    · simp [Spelling.chars, Spelling.exponentChars, Spelling.fractionChars]
    · simp only [Spelling.decimal, ofDigits, List.append_nil, digitsValue_append_zeros,
        toBinary64_mul_tenTo]
      congr 2
      simp only [Option.getD_none, List.length_nil]
      omega
  · -- the point cuts the digits in two parts, neither of them empty
    have htake : digits.take order.toNat ≠ [] := by
      simp only [ne_eq, List.take_eq_nil_iff, hne, or_false]
      omega
    have hdrop : digits.drop order.toNat ≠ [] := by
      simp only [ne_eq, List.drop_eq_nil_iff]
      omega
    refine ⟨⟨digits.take order.toNat, digits.drop order.toNat, none, htake,
      fun c hc => hdigits c (List.mem_of_mem_take hc),
      fun c hc => hdigits c (List.mem_of_mem_drop hc)⟩, ?_, ?_⟩
    · simp [Spelling.chars, Spelling.exponentChars, Spelling.fractionChars_of_ne_nil hdrop]
    · congr 1
      simp only [Spelling.decimal, ofDigits, List.take_append_drop, mk.injEq, true_and,
        Option.getD_none, List.length_drop]
      omega

/-- The layout with an exponent spells the same: the point behind the first digit, and an exponent
that is one less than the order. -/
theorem spells_scientific (hne : digits ≠ []) (hdigits : ∀ c ∈ digits, c.isDigit = true)
    (order : Int) : Spells (scientific digits order) (ofDigits digits order) := by
  rcases digits with _ | ⟨digit, _ | ⟨second, more⟩⟩
  · exact absurd rfl hne
  · refine ⟨⟨[digit], [], some (order - 1), hne, hdigits, by simp⟩, ?_, ?_⟩
    · simp [Spelling.chars, Spelling.exponentChars, Spelling.fractionChars, scientific]
    · congr 1
      simp [Spelling.decimal, ofDigits]
  · refine ⟨⟨[digit], second :: more, some (order - 1), by simp,
      fun c hc => hdigits c (by simp_all), fun c hc => hdigits c (List.mem_cons_of_mem _ hc)⟩,
      ?_, ?_⟩
    · simp [Spelling.chars, Spelling.exponentChars, Spelling.fractionChars, scientific]
    · congr 1
      simp [Spelling.decimal, ofDigits]
      omega

/-! ## The digits that are written -/

/-- Digits are those without the zeros at their end, and these zeros. -/
theorem exists_withoutFinalZeros_append (digits : List Char) :
    ∃ count, digits = withoutFinalZeros digits ++ zeros count := by
  refine ⟨(digits.reverse.takeWhile (· == '0')).length, ?_⟩
  have hzeros : digits.reverse.takeWhile (· == '0') =
      zeros (digits.reverse.takeWhile (· == '0')).length :=
    List.eq_replicate_of_mem fun c hc => by simpa using List.mem_takeWhile_imp hc
  have hsplit := congrArg List.reverse
    (List.takeWhile_append_dropWhile (p := (· == '0')) (l := digits.reverse))
  rw [List.reverse_append, List.reverse_reverse, hzeros, zeros, List.reverse_replicate] at hsplit
  exact hsplit.symm

end Layouts

/-- The digits that are written say the value of the decimal. -/
theorem exists_significant (d : Decimal) :
    ∃ count : Nat, d.digits = Numeral.digitsValue d.significant * tenTo count ∧
      d.order - d.significant.length = d.exponent + count := by
  obtain ⟨count, hcount⟩ := exists_withoutFinalZeros_append (Nat.toDigits 10 d.digits)
  refine ⟨count, ?_, ?_⟩
  · have hvalue := digitsValue_append_zeros d.significant count
    rw [significant, ← hcount, Numeral.digitsValue,
      Nat.ofDigitChars_toDigits (by decide) (by decide)] at hvalue
    exact hvalue
  · have hlength := congrArg List.length hcount
    rw [List.length_append, length_zeros] at hlength
    simp only [order, digitCount, significant]
    omega

/-- What is written of a decimal are digits. -/
theorem isDigit_of_mem_significant (d : Decimal) : ∀ c ∈ d.significant, c.isDigit = true := by
  intro c hc
  obtain ⟨count, hcount⟩ := exists_withoutFinalZeros_append (Nat.toDigits 10 d.digits)
  have hmem : c ∈ Nat.toDigits 10 d.digits := by
    rw [hcount]
    exact List.mem_append_left _ hc
  exact Nat.isDigit_of_mem_toDigits (by decide) (by decide) hmem

/-- Unless the decimal is zero, a digit is written. -/
theorem significant_ne_nil {d : Decimal} (h : 0 < d.digits) : d.significant ≠ [] := by
  intro hnil
  obtain ⟨count, hdigits, -⟩ := exists_significant d
  rw [hnil, Numeral.digitsValue, Nat.ofDigitChars_nil, Nat.zero_mul] at hdigits
  omega

/-- Leaving out the zeros at the end and moving the exponent by their number keeps the number that
is read. -/
theorem toBinary64_ofDigits_significant (d : Decimal) :
    (ofDigits d.significant d.order).toBinary64 false = d.toBinary64 false := by
  obtain ⟨count, hdigits, hexponent⟩ := exists_significant d
  have hsame : d = ⟨Numeral.digitsValue d.significant * tenTo count, d.exponent⟩ := by
    rw [← hdigits]
  conv_rhs => rw [hsame]
  rw [toBinary64_mul_tenTo, ofDigits, hexponent]

/-- Both layouts of the shortest decimal spell its number. -/
theorem spells_shortest {position : Nat} (hpos : 0 < position)
    (hposition : position < Binary64.positions) :
    let d := shortest position
    Spells (positional d.significant d.order) d ∧ Spells (scientific d.significant d.order) d := by
  intro d
  have hne : d.significant ≠ [] := significant_ne_nil (shortest_digits_pos hpos hposition)
  have hdigits := isDigit_of_mem_significant d
  have hvalue := toBinary64_ofDigits_significant d
  obtain ⟨s, hchars, hs⟩ := spells_positional hne hdigits d.order
  obtain ⟨s', hchars', hs'⟩ := spells_scientific hne hdigits d.order
  exact ⟨⟨s, hchars, hs.trans hvalue⟩, ⟨s', hchars', hs'.trans hvalue⟩⟩

end Decimal

namespace Binary64

/-- **The text of a number is a spelling of it**, if the number is finite and has no sign. The
shortest digits are laid out in one of two ways, and both spell the decimal that was found to be
read as the number. -/
theorem exists_spelling_textChars (magnitude : Fin positions) :
    ∃ s : Spelling, s.chars = (finite false magnitude).textChars ∧
      s.decimal.toBinary64 false = .finite false magnitude := by
  obtain ⟨position, hposition⟩ := magnitude
  rw [textChars]
  split_ifs with hzero
  · obtain rfl : position = 0 := hzero
    exact ⟨⟨['0'], [], none, by simp, by simp, by simp⟩, rfl, Decimal.toBinary64_zero false 0⟩
  · -- digits and order have been chosen so that they are read as this number
    have hpos : 0 < position := Nat.pos_of_ne_zero hzero
    obtain ⟨hpositional, hscientific⟩ := Decimal.spells_shortest hpos hposition
    rw [← Decimal.toBinary64_shortest hpos hposition]
    simp only [withSign, magnitudeText, Bool.false_eq_true, if_false]
    split_ifs
    · exact hpositional
    · exact hscientific

end Binary64

/-! ## Signs -/

/-- The sign of a finite number is the one that its decimal is read with. -/
theorem Decimal.toBinary64_of_finite {d : Decimal} {magnitude : Fin Binary64.positions}
    (h : d.toBinary64 false = .finite false magnitude) (negative : Bool) :
    d.toBinary64 negative = .finite negative magnitude := by
  unfold toBinary64 at h ⊢
  split_ifs at h ⊢
  · simp only [Binary64.signedZero, Binary64.finite.injEq, true_and] at h ⊢
    exact h
  · unfold Binary64.rounded Binary64.atPosition at h ⊢
    split_ifs at h ⊢
    simp only [Binary64.finite.injEq, true_and] at h ⊢
    exact h

/-- A spelling with a sign, when negative, is a numeral. -/
def Spelling.signed (s : Spelling) (negative : Bool) : NumberLiteral :=
  { s.literal with sign := if negative then .minus else .absent }

/-- A spelling with a sign is written with it in front. -/
theorem Spelling.chars_signed (s : Spelling) (negative : Bool) :
    (s.signed negative).chars = Binary64.withSign negative s.chars := by
  rw [← s.chars_literal]
  cases negative with
  | false => rfl
  | true => rfl

/-- The sign changes nothing else of what the spelling says. -/
theorem Spelling.numeral_signed (s : Spelling) (negative : Bool) :
    (s.signed negative).numeral = ⟨negative, s.decimal⟩ := by
  have hmagnitude : (s.signed negative).numeral.magnitude = s.decimal :=
    congrArg Numeral.magnitude s.numeral_literal
  rw [← hmagnitude]
  cases negative with
  | false => rfl
  | true => rfl

namespace Binary64

/-- A finite number is a sign and a magnitude. -/
theorem exists_of_isFinite {x : Binary64} (h : x.isFinite = true) :
    ∃ negative magnitude, x = .finite negative magnitude := by
  cases x with
  | nan => exact Bool.noConfusion h
  | infinity negative => exact Bool.noConfusion h
  | finite negative magnitude => exact ⟨negative, magnitude, rfl⟩

end Binary64

end CanvasScript
