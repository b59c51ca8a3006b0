/-
Decimal literals without a sign, read as values and as expressions.

A value is a numeral as a whole. An expression is read token by token, and what the token of a
number is depends on its first character: from a digit on it is digits, a point with digits behind
it and an exponent, but from a point on it is the digits behind it and nothing else. So the two
ways of reading agree on every combination of the parts but one. In a literal that begins with its
point and has an exponent, the letter of the exponent begins a name, and a number with a name
behind it is no expression.

`read_chars` says so for every literal and gives the name that is left over. The literals are those
that values can be written as, without a sign, so the parts are those of the grammar of numerals and
not those that the lexer knows.
-/
import CanvasScript.Proofs.ObjectText
import CanvasScript.Proofs.ParserGrammar
import CanvasScript.Proofs.TokenText

set_option autoImplicit false

namespace CanvasScript

/-! ## Literals -/

/-- Digits, digits with a point between them, or a point and digits; an exponent may follow. -/
structure UnsignedLiteral extends NumberLiteral where
  unsigned : sign = .absent
  /-- A point has digits behind it. -/
  closed : fraction ≠ some []

namespace WrittenExponent

def letter (e : WrittenExponent) : Char := if e.capital then 'E' else 'e'

/-- The name that an exponent begins with: its letter, and its digits unless a sign comes first. -/
def word (e : WrittenExponent) : String :=
  String.ofList (e.letter :: if e.sign = .absent then e.digits else [])

/-- What stands behind that name. -/
def behindWord (e : WrittenExponent) : List Char :=
  if e.sign = .absent then [] else e.sign.chars ++ e.digits

end WrittenExponent

/-- The name that an expression has where a literal has its exponent, if it comes to that. -/
def UnsignedLiteral.strayName? (l : UnsignedLiteral) : Option String :=
  if l.whole = [] then l.exponent.map WrittenExponent.word else none

/-! ## Exponents as tokens -/

namespace WrittenExponent

theorem isName_word (e : WrittenExponent) : isName e.word = true := by
  have hletter : (e.letter.isAlpha || e.letter == '_') = true := by
    rw [letter]
    cases e.capital
    · rfl
    · rfl
  rw [isName, word, String.toList_ofList, Bool.and_eq_true, List.all_eq_true]
  refine ⟨hletter, fun c hc => ?_⟩
  split_ifs at hc
  · rw [Char.isAlphanum, e.isDigit c hc, Bool.or_true, Bool.true_or]
  · exact absurd hc List.not_mem_nil

theorem word_append_behindWord (e : WrittenExponent) :
    e.word.toList ++ e.behindWord = NumberLiteral.exponentChars (some e) := by
  rw [word, String.toList_ofList, behindWord, NumberLiteral.exponentChars, ← letter]
  by_cases hsign : e.sign = .absent
  · rw [if_pos hsign, if_pos hsign, hsign, List.append_nil]
    rfl
  · rw [if_neg hsign, if_neg hsign]
    rfl

/-- The digits of an exponent are a number of their own. -/
theorem tokens_digits (e : WrittenExponent) : ∃ x, Lexer.tokens e.digits = .ok [.number x] := by
  let l : NumberLiteral :=
    ⟨.absent, e.digits, none, none, e.isDigit, fun _ h => absurd h List.not_mem_nil,
      List.append_ne_nil_of_left_ne_nil e.ne_nil _⟩
  have hchars : l.chars ++ [] = e.digits := by
    rw [List.append_nil]
    exact List.append_nil _
  have hstarts := Lexer.starts_literal (l := l) rfl e.ne_nil (by simp [l]) .nil
  rw [hchars] at hstarts
  refine ⟨l.numeral.toBinary64, ?_⟩
  rw [Lexer.tokens_of_starts hstarts, Lexer.tokens_nil]
  rfl

/-- What stands behind the name can be read, and does not go on with the name. It is nothing, or a
sign and digits. -/
theorem tokens_behindWord (e : WrittenExponent) :
    Ends Lexer.isNameChar e.behindWord ∧ ∃ more, Lexer.tokens e.behindWord = .ok more := by
  obtain ⟨x, hdigits⟩ := e.tokens_digits
  rw [behindWord]
  rcases e.sign
  · exact ⟨.nil _, [], Lexer.tokens_nil⟩
  · refine ⟨.cons (by decide) _, [.symbol .plus, .number x], ?_⟩
    rw [if_neg (by decide), WrittenSign.chars, List.singleton_append, Lexer.tokens_plus, hdigits]
    rfl
  · refine ⟨.cons (by decide) _, [.symbol .minus, .number x], ?_⟩
    rw [if_neg (by decide), WrittenSign.chars, List.singleton_append, Lexer.tokens_minus, hdigits]
    rfl

theorem tokens_exponentChars (e : WrittenExponent) :
    ∃ more, Lexer.tokens (NumberLiteral.exponentChars (some e)) =
      .ok (.identifier e.word :: more) := by
  obtain ⟨hends, more, hmore⟩ := e.tokens_behindWord
  refine ⟨more, ?_⟩
  rw [← e.word_append_behindWord,
    Lexer.tokens_of_starts (Lexer.starts_identifier e.isName_word hends), hmore]
  rfl

end WrittenExponent

/-! ## Points at the front -/

/-- From a point on, the token of a number is the digits behind the point. It is worth what a
numeral with a zero in front of the point is. -/
theorem Lexer.starts_fraction {digits : List Char} (hne : digits ≠ [])
    (hdigits : ∀ c ∈ digits, c.isDigit = true) {rest : List Char} (hrest : Ends Char.isDigit rest) :
    Starts (.number (Numeral.toBinary64 ⟨false, Numeral.digitsValue digits, -digits.length⟩)) rest
      ('.' :: (digits ++ rest)) := by
  -- it is read as a numeral with a zero before the point
  let l : NumberLiteral :=
    ⟨.absent, ['0'], some digits, none, by simp, hdigits, List.cons_ne_nil _ _⟩
  have hchars : l.chars = '0' :: '.' :: digits := by
    change '0' :: '.' :: (digits ++ []) = _
    rw [List.append_nil]
  have hvalue : l.numeral = ⟨false, Numeral.digitsValue digits, -digits.length⟩ := by
    change Numeral.mk false ⟨Numeral.digitsValue digits, 0 - digits.length⟩ = _
    rw [Int.zero_sub]
  have htoken : numberToken ('0' :: '.' :: digits) =
      .ok (.number (Numeral.toBinary64 ⟨false, Numeral.digitsValue digits, -digits.length⟩)) := by
    rw [numberToken, ← hchars, Numeral.read?_literal, hvalue]
  obtain ⟨first, more, rfl⟩ := List.exists_cons_of_ne_nil hne
  have hfirst : first.isDigit = true := hdigits first List.mem_cons_self
  refine ⟨'.', _, rfl, by decide, ?_⟩
  rw [nextToken, if_neg (by decide), if_pos ⟨rfl, hfirst⟩]
  simp only [readFraction, bare, dropClass, takeWhile_append_of_ends hdigits hrest,
    dropWhile_append_of_ends hdigits hrest, htoken]
  rfl

/-! ## Values and expressions -/

namespace UnsignedLiteral

/-- With digits before its point, a literal is one token. -/
theorem tokens_chars_of_whole (l : UnsignedLiteral) (hwhole : l.whole ≠ []) :
    Lexer.tokens l.chars = .ok [.number l.numeral.toBinary64] := by
  have hstarts := Lexer.starts_literal l.unsigned hwhole l.closed .nil
  rw [List.append_nil] at hstarts
  rw [Lexer.tokens_of_starts hstarts, Lexer.tokens_nil]
  rfl

/-- A literal that begins with its point is a number up to its exponent. Behind the digits the lexer
stops, as this is the one way to begin a number in which it asks for no exponent. -/
theorem starts_of_point (l : UnsignedLiteral) (hwhole : l.whole = []) :
    ∃ x, Lexer.Starts (.number x) (NumberLiteral.exponentChars l.exponent) l.chars ∧
      (l.exponent = none → x = l.numeral.toBinary64) := by
  have hchars : l.chars = NumberLiteral.fractionChars l.fraction ++
      NumberLiteral.exponentChars l.exponent := by
    rw [NumberLiteral.chars, l.unsigned, hwhole]
    rfl
  have hends : Ends Char.isDigit (NumberLiteral.exponentChars l.exponent) :=
    NumberLiteral.ends_exponentChars rfl rfl _
  have hdigits := l.isDigit_fraction
  have hne := l.ne_nil
  rw [hwhole, List.nil_append] at hne
  -- without a whole part there must be digits behind the point, or there is no literal
  rcases hfraction : l.fraction with _ | digits
  · rw [hfraction] at hne
    exact absurd rfl hne
  · rw [hfraction, Option.getD_some] at hne hdigits
    rw [hchars, hfraction]
    refine ⟨_, Lexer.starts_fraction hne hdigits hends, fun hexponent => ?_⟩
    rw [NumberLiteral.numeral, l.unsigned, hwhole, hfraction, hexponent]
    simp [NumberLiteral.exponentValue, WrittenSign.isMinus]

/-- **Values and expressions agree on unsigned decimal literals** in any bindings, unless a literal
begins with its point and has an exponent. As an expression it then ends where the exponent begins,
which is a name there. -/
theorem read_chars (l : UnsignedLiteral) (vars : Bindings) (line : String) :
    Literal.readValue vars line l.chars = .ok (.number l.numeral.toBinary64) ∧
      evaluateText vars (String.ofList l.chars) =
        match l.strayName? with
        | none => .ok (.number l.numeral.toBinary64)
        | some name => .error (.unexpectedToken (.identifier name)) := by
  refine ⟨(WrittenScalar.number l.toNumberLiteral).readValue_chars vars line, ?_⟩
  -- a text that is one number is a phrase by itself
  have hone (x : Binary64) (htokens : Lexer.tokens l.chars = .ok [.number x]) :
      evaluateText vars (String.ofList l.chars) = .ok (.number x) :=
    Parser.evaluateText_of_phrase (p := .number x) (by rwa [String.toList_ofList]) (.number x)
      (Nat.zero_le _) vars
  by_cases hwhole : l.whole = []
  · -- what is left behind the digits is the exponent, and it begins a name
    obtain ⟨x, hstarts, hvalue⟩ := l.starts_of_point hwhole
    rw [strayName?, if_pos hwhole]
    rcases hexponent : l.exponent with _ | e
    · rw [hexponent] at hstarts
      have htokens := Lexer.tokens_of_starts hstarts
      rw [NumberLiteral.exponentChars, Lexer.tokens_nil] at htokens
      rw [hone x htokens, hvalue hexponent]
      rfl
    · rw [hexponent] at hstarts
      obtain ⟨more, hmore⟩ := e.tokens_exponentChars
      have hderives : Grammar.Derives .primary (.number x) := .number x
      have hparse : Parser.parseTokens (.number x :: .identifier e.word :: more) =
          .error (.unexpectedToken (.identifier e.word)) :=
        Parser.parseTokens_append_of_stops (hderives.of_level_le (Nat.zero_le _)) (Nat.zero_le _)
          (.identifier _ e.word more)
      have htokens : Lexer.tokens l.chars = .ok (.number x :: .identifier e.word :: more) := by
        rw [Lexer.tokens_of_starts hstarts, hmore]
        rfl
      rw [evaluateText, Parser.parse, String.toList_ofList, htokens, Except.bind, hparse]
      rfl
  · rw [strayName?, if_neg hwhole]
    exact hone _ (l.tokens_chars_of_whole hwhole)

/-- Both ways of reading give the same number, whatever the bindings are. -/
def ReadsAlike (l : UnsignedLiteral) : Prop :=
  ∀ vars line, ∃ x, Literal.readValue vars line l.chars = .ok (.number x) ∧
    evaluateText vars (String.ofList l.chars) = .ok (.number x)

/-- A half times ten is a value but no expression, when it is written without a zero in front. So
the two grammars do not agree on all unsigned literals. -/
theorem not_readsAlike : ¬ ∀ l : UnsignedLiteral, l.ReadsAlike := by
  intro h
  let exponent : WrittenExponent :=
    ⟨false, .absent, ['1'], by simp, List.forall_mem_singleton.2 rfl⟩
  let l : UnsignedLiteral :=
    ⟨⟨.absent, [], some ['5'], some exponent, by simp, List.forall_mem_singleton.2 rfl, by simp⟩,
      rfl, by simp⟩
  have hchars : l.chars = ".5e1".toList := by decide
  obtain ⟨x, -, hexpr⟩ := h l .empty ""
  have hfault : evaluateText .empty ".5e1" = .error (.unexpectedToken (.identifier "e1")) := by
    decide +kernel
  rw [hchars, String.ofList_toList, hfault] at hexpr
  exact absurd hexpr (by simp)

end UnsignedLiteral

end CanvasScript
