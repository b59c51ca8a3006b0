/-
Whether the name of a binding can be read in an expression.

The name that a binding takes is a word of letters, digits and underscores, and it is bound whatever
word it is. In an expression a word with a letter or an underscore at its front is a name, and it is
worth what has just been bound to it, even where the word is one of the two for booleans. But from a
digit on a number is read, as far as it goes, with an exponent if there is one; and what is left
of the word is a name of its own, behind a number where no name can stand. So a word with a digit at
its front is a number, or it is no expression, and the binding plays no part in it.

`set_evaluated` says this of every binding that succeeds. Reading a value is different: there a
whole text is a number or it is not, and a word that is none is looked up among the bindings,
whatever it begins with.
-/
import CanvasScript.Proofs.ClosingText
import CanvasScript.Proofs.CommandLines
import CanvasScript.Proofs.DecimalLiterals
import CanvasScript.Proofs.LiteralReading
import CanvasScript.Proofs.StoreShape

set_option autoImplicit false

namespace CanvasScript

/-! ## Words with a digit at their front -/

/-- The number with given digits, times a power of ten. -/
def wholeNumber (digits power : List Char) : Binary64 :=
  Numeral.toBinary64 ⟨false, Numeral.digitsValue digits, Numeral.digitsValue power⟩

/-- A number with nothing behind it is worth itself, and no name can stand behind it. -/
def numberThen (x : Binary64) (name : List Char) : Except EvalError Value :=
  if name = [] then .ok (.number x)
  else .error (.unexpectedToken (.identifier (String.ofList name)))

/-- Whether a text begins with the letter of an exponent. -/
def startsWithExponent : List Char → Bool
  | [] => false
  | c :: _ => c = 'e' ∨ c = 'E'

/-- What a word with a digit at its front comes to, in any bindings. Its number takes digits, and if
the letter of an exponent is behind them, that letter and at least one digit more. -/
def digitWord (word : List Char) : Except EvalError Value :=
  let digits := word.takeWhile Char.isDigit
  let behind := word.dropWhile Char.isDigit
  if startsWithExponent behind then
    let power := behind.tail.takeWhile Char.isDigit
    if power = [] then .error (.invalidNumber (String.ofList (digits ++ ['e'])))
    else numberThen (wholeNumber digits power) (behind.tail.dropWhile Char.isDigit)
  else numberThen (wholeNumber digits []) behind

/-! ## Reading numbers from words -/

namespace Numeral

/-- Digits and what is behind them, which has no point, are a numeral if the latter is an
exponent. -/
theorem read?_digits_append {digits rest : List Char} (hne : digits ≠ [])
    (hdigits : ∀ c ∈ digits, c.isDigit = true) (hrest : Ends Char.isDigit rest)
    (hpoint : Ends (· == '.') rest) :
    read? (digits ++ rest) =
      (readExponent? rest).map fun exponent => ⟨false, digitsValue digits, exponent⟩ := by
  obtain ⟨first, more, rfl⟩ := List.exists_cons_of_ne_nil hne
  -- a digit is no sign, and without a point there is no fraction
  have hsign : takeSign (first :: more ++ rest) = (false, first :: more ++ rest) :=
    takeSign_chars_append .absent
      (.cons (isSign_eq_false_of_isDigit (hdigits first List.mem_cons_self)) _)
  have hnone : ∀ c ∈ (none : Option (List Char)).getD [], c.isDigit = true := by simp
  have hfraction : takeFraction rest = ([], rest) :=
    takeFraction_fractionChars_append hnone hrest hpoint
  simp only [read?, hsign, takeWhile_append_of_ends hdigits hrest,
    dropWhile_append_of_ends hdigits hrest, hfraction]
  simp

/-- Behind the letter of an exponent there are digits, or the number is refused. -/
theorem readExponent?_e {power : List Char} (hpower : ∀ c ∈ power, c.isDigit = true) :
    readExponent? ('e' :: power) =
      if power = [] then none else some (digitsValue power : Int) := by
  have hsign : takeSign power = (false, power) := by
    refine takeSign_chars_append .absent ?_
    intro c hc
    exact isSign_eq_false_of_isDigit (hpower c (List.mem_of_mem_head? hc))
  have hall : power.all Char.isDigit = true := List.all_eq_true.2 hpower
  rw [readExponent?, readExponentDigits?, hsign]
  simp [hall]

end Numeral

/-- A word has no point and no sign. -/
theorem ends_of_word {inClass : Char → Bool} {text : List Char}
    (hword : ∀ c ∈ text, Lexer.isNameChar c = true)
    (hclass : ∀ c, Lexer.isNameChar c = true → inClass c = false) : Ends inClass text :=
  fun c hc => hclass c (hword c (List.mem_of_mem_head? hc))

namespace Lexer

/-- A point does not go into a name, so a number within a name has no fraction. -/
theorem not_point_of_isNameChar (c : Char) (h : isNameChar c = true) : (c == '.') = false := by
  rw [beq_eq_false_iff_ne]
  rintro rfl
  exact absurd h (by decide)

/-- Neither does a sign, so its exponent has none. -/
theorem not_isSign_of_isNameChar (c : Char) (h : isNameChar c = true) :
    Numeral.isSign c = false := by
  rw [Numeral.isSign, Bool.or_eq_false_iff, beq_eq_false_iff_ne, beq_eq_false_iff_ne]
  refine ⟨?_, ?_⟩
  · rintro rfl
    exact absurd h (by decide)
  · rintro rfl
    exact absurd h (by decide)

/-- In a word, a number has no point. -/
theorem bare_readNumber_word (first : Char) {text : List Char}
    (hword : ∀ c ∈ text.dropWhile Char.isDigit, isNameChar c = true) :
    bare (readNumber first text) =
      let exponent := takeExponent (text.dropWhile Char.isDigit)
      (numberToken (first :: text.takeWhile Char.isDigit ++ exponent.1)).map
        fun token => (token, exponent.2.val) := by
  have hnone : (none : Option (List Char)) ≠ some [] := by simp
  obtain ⟨htaken, hleft⟩ := takePointAndDigits_fractionChars hnone (by simp)
    (ends_dropWhile Char.isDigit text) (ends_of_word hword not_point_of_isNameChar)
  rw [NumberLiteral.fractionChars, List.nil_append] at htaken hleft
  rw [bare_readNumber]
  dsimp only
  rw [htaken, hleft, List.append_nil]

/-- In a word, an exponent has no sign; its digits may be missing. -/
theorem takeExponent_word {c : Char} (hletter : c = 'e' ∨ c = 'E') {behind : List Char}
    (hword : ∀ d ∈ behind, isNameChar d = true) :
    (takeExponent (c :: behind)).1 = 'e' :: behind.takeWhile Char.isDigit ∧
      (takeExponent (c :: behind)).2.val = behind.dropWhile Char.isDigit := by
  obtain ⟨htaken, hleft⟩ :=
    takeExponentSign_chars .absent (ends_of_word hword not_isSign_of_isNameChar)
  rw [WrittenSign.chars, List.nil_append] at htaken hleft
  rw [takeExponent, if_pos hletter]
  refine ⟨?_, ?_⟩
  · change 'e' :: ((takeExponentSign behind).1 ++
      (takeExponentSign behind).2.val.takeWhile Char.isDigit) = _
    rw [htaken, hleft, List.nil_append]
  · change (takeExponentSign behind).2.val.dropWhile Char.isDigit = _
    rw [hleft]

/-- Where no exponent begins, none is taken. -/
theorem takeExponent_other {text : List Char} (h : startsWithExponent text = false) :
    (takeExponent text).1 = [] ∧ (takeExponent text).2.val = text := by
  rcases text with _ | ⟨c, behind⟩
  · exact ⟨rfl, rfl⟩
  · rw [takeExponent, if_neg (of_decide_eq_false h)]
    exact ⟨rfl, rfl⟩

/-- The token of a number, and what it leaves, in a word with a digit at its front. A word has
neither a point nor a sign in it, so only the letter of an exponent can carry the number on. -/
theorem bare_nextToken_word {first : Char} (hdigit : first.isDigit = true) {more : List Char}
    (hword : ∀ c ∈ more.dropWhile Char.isDigit, isNameChar c = true) {exponent rest : List Char}
    (htaken : (takeExponent (more.dropWhile Char.isDigit)).1 = exponent)
    (hleft : (takeExponent (more.dropWhile Char.isDigit)).2.val = rest) :
    bare (nextToken first more) =
      (numberToken (first :: more.takeWhile Char.isDigit ++ exponent)).map
        fun token => (token, rest) := by
  rw [nextToken, if_pos hdigit, bare_readNumber_word first hword]
  dsimp only
  rw [htaken, hleft]

/-- Digits alone are a number, however many there are. -/
theorem numberToken_digits {digits : List Char} (hne : digits ≠ [])
    (hdigits : ∀ c ∈ digits, c.isDigit = true) :
    numberToken digits =
      .ok (.number (wholeNumber digits [])) := by
  have hread := Numeral.read?_digits_append hne hdigits (.nil _) (.nil _)
  rw [List.append_nil] at hread
  rw [numberToken, hread]
  rfl

/-- Digits and the letter of an exponent are a number if there are digits behind the letter, and are
refused as a number if not. -/
theorem numberToken_digits_e {digits power : List Char} (hne : digits ≠ [])
    (hdigits : ∀ c ∈ digits, c.isDigit = true) (hpower : ∀ c ∈ power, c.isDigit = true) :
    numberToken (digits ++ 'e' :: power) =
      if power = [] then .error (.invalidNumber (String.ofList (digits ++ ['e'])))
      else .ok (.number (wholeNumber digits power)) := by
  have hrest : Ends Char.isDigit ('e' :: power) := .cons rfl _
  have hread := Numeral.read?_digits_append hne hdigits hrest (.cons (by decide) _)
  rw [numberToken, hread, Numeral.readExponent?_e hpower]
  by_cases hnone : power = []
  · rw [if_pos hnone, if_pos hnone, hnone]
    rfl
  · rw [if_neg hnone, if_neg hnone]
    rfl

end Lexer

/-! ## Words as expressions -/

/-- A word is a name if it does not begin with a digit. -/
theorem isName_ofList {first : Char} {more : List Char} (hdigit : first.isDigit = false)
    (hword : ∀ c ∈ first :: more, Lexer.isNameChar c = true) :
    isName (String.ofList (first :: more)) = true := by
  have hfirst := hword first List.mem_cons_self
  rw [Lexer.isNameChar, Char.isAlphanum, hdigit, Bool.or_false] at hfirst
  rw [isName, String.toList_ofList]
  dsimp only
  rw [Bool.and_eq_true, List.all_eq_true]
  exact ⟨hfirst, fun c hc => hword c (List.mem_cons_of_mem _ hc)⟩

/-- A name that ends with the text is its only token. -/
theorem tokens_name {name : List Char} (h : isName (String.ofList name) = true) :
    Lexer.tokens name = .ok [.identifier (String.ofList name)] := by
  have hstarts := Lexer.starts_identifier h (Ends.nil Lexer.isNameChar)
  rw [List.append_nil, String.toList_ofList] at hstarts
  rw [Lexer.tokens_of_starts hstarts, Lexer.tokens_nil]
  rfl

/-- What is left of a word behind digits is a name, if there is anything left. -/
theorem isName_dropWhile {word : List Char} (hword : ∀ c ∈ word, Lexer.isNameChar c = true)
    (hne : word.dropWhile Char.isDigit ≠ []) :
    isName (String.ofList (word.dropWhile Char.isDigit)) = true := by
  obtain ⟨c, rest, hrest⟩ := List.exists_cons_of_ne_nil hne
  have hends := ends_dropWhile Char.isDigit word
  rw [hrest] at hends ⊢
  refine isName_ofList (hends c rfl) fun d hd => hword d ?_
  rw [← hrest] at hd
  exact (List.dropWhile_sublist _).subset hd

section DigitWords

variable {first : Char} {more : List Char}

theorem isBlank_of_isDigit (hdigit : first.isDigit = true) : Text.isBlank first = false :=
  Text.isBlank_eq_false_of_isAlphanum (by simp [Char.isAlphanum, hdigit])

/-- A word whose first token is a number comes to that number, or to the name it leaves. The parser
has a phrase when it has read the number, and a name cannot go on with it, so it is the name that
the error is about. -/
theorem evaluateText_numberThen (hdigit : first.isDigit = true) {x : Binary64} {name : List Char}
    (hnext : Lexer.bare (Lexer.nextToken first more) = .ok (.number x, name))
    (hname : name ≠ [] → isName (String.ofList name) = true) (vars : Bindings) :
    evaluateText vars (String.ofList (first :: more)) = numberThen x name := by
  have htokens : Lexer.tokens (String.ofList (first :: more)).toList =
      (Lexer.tokens name).map (.number x :: ·) := by
    rw [String.toList_ofList, Lexer.tokens_cons_of_bare (isBlank_of_isDigit hdigit) hnext]
  have hderives : Grammar.Derives .primary (.number x) := .number x
  rw [numberThen]
  split
  · rename_i hnone
    rw [hnone, Lexer.tokens_nil] at htokens
    exact Parser.evaluateText_of_phrase htokens hderives (Nat.zero_le _) vars
  · rename_i hsome
    rw [tokens_name (hname hsome)] at htokens
    have hparse : Parser.parseTokens [.number x, .identifier (String.ofList name)] =
        .error (.unexpectedToken (.identifier (String.ofList name))) :=
      Parser.parseTokens_append_of_stops (hderives.of_level_le (Nat.zero_le _)) (Nat.zero_le _)
        (.identifier _ (String.ofList name) [])
    rw [evaluateText, Parser.parse, htokens]
    change (Except.bind (Parser.parseTokens _) _) = _
    rw [hparse]
    rfl

/-- A word whose first token is no number after all is no expression. -/
theorem evaluateText_of_nextToken_error (hdigit : first.isDigit = true) {fault : EvalError}
    (hnext : Lexer.bare (Lexer.nextToken first more) = .error fault) (vars : Bindings) :
    evaluateText vars (String.ofList (first :: more)) = .error fault := by
  have htoken := map_eq_error_iff.1 hnext
  have htokens : Lexer.tokens (first :: more) = .error fault := by
    rw [Lexer.tokens, if_neg (by simp [isBlank_of_isDigit hdigit]), htoken]
  rw [evaluateText, Parser.parse, String.toList_ofList, htokens]
  rfl

/-- **A word with a digit at its front is worth the same in any bindings**: the number that it is,
or else nothing. What the lexer makes of it depends on how the digits end: at a letter that begins
an exponent, or at another character of the word. -/
theorem evaluateText_digitWord (hdigit : first.isDigit = true)
    (hword : ∀ c ∈ more, Lexer.isNameChar c = true) (vars : Bindings) :
    evaluateText vars (String.ofList (first :: more)) = digitWord (first :: more) := by
  have hbehind : ∀ c ∈ more.dropWhile Char.isDigit, Lexer.isNameChar c = true :=
    fun c hc => hword c ((List.dropWhile_sublist _).subset hc)
  have hne : first :: more.takeWhile Char.isDigit ≠ [] := List.cons_ne_nil _ _
  have hdigits : ∀ c ∈ first :: more.takeWhile Char.isDigit, c.isDigit = true :=
    List.forall_mem_cons.2 ⟨hdigit, fun c hc => List.mem_takeWhile_imp hc⟩
  rw [digitWord, List.dropWhile_cons_of_pos hdigit, List.takeWhile_cons_of_pos hdigit]
  dsimp only
  by_cases hletter : startsWithExponent (more.dropWhile Char.isDigit) = true
  · rw [if_pos hletter]
    obtain ⟨c, power, hafter⟩ := List.exists_cons_of_ne_nil (l := more.dropWhile Char.isDigit)
      (by rintro hnone; rw [hnone] at hletter; exact absurd hletter (by decide))
    rw [hafter] at hletter hbehind
    have hrest : ∀ d ∈ power, Lexer.isNameChar d = true :=
      fun d hd => hbehind d (List.mem_cons_of_mem _ hd)
    obtain ⟨htaken, hleft⟩ := Lexer.takeExponent_word (of_decide_eq_true hletter) hrest
    rw [← hafter] at htaken hleft hbehind
    have hnext := Lexer.bare_nextToken_word hdigit hbehind htaken hleft
    rw [Lexer.numberToken_digits_e hne hdigits fun d hd => List.mem_takeWhile_imp hd] at hnext
    rw [hafter, List.tail_cons]
    -- an exponent without digits is no numeral, so already the first token fails
    by_cases hnone : power.takeWhile Char.isDigit = []
    · rw [if_pos hnone] at hnext ⊢
      exact evaluateText_of_nextToken_error hdigit hnext vars
    · rw [if_neg hnone] at hnext ⊢
      exact evaluateText_numberThen hdigit hnext (isName_dropWhile hrest) vars
  · rw [if_neg hletter]
    obtain ⟨htaken, hleft⟩ := Lexer.takeExponent_other (Bool.eq_false_of_not_eq_true hletter)
    have hnext := Lexer.bare_nextToken_word hdigit hbehind htaken hleft
    rw [List.append_nil, Lexer.numberToken_digits hne hdigits] at hnext
    exact evaluateText_numberThen hdigit hnext (isName_dropWhile hword) vars

end DigitWords

/-! ## The names of bindings -/

/-- What the name of a variable is worth among bindings that have it. Names with a digit at their
front are names for `set` and none for an expression, and this is the only way in which the two
differ. -/
theorem evaluateText_bound {name : String} (hname : IsVariableName name) {vars : Bindings}
    {v : Value} (hbound : vars.get? name = some v) :
    evaluateText vars name =
      if Lexer.startsWithDigit name.toList then digitWord name.toList else .ok v := by
  obtain ⟨first, more, hchars⟩ := List.exists_cons_of_ne_nil
    (mt String.toList_eq_nil_iff.1 hname.ne_empty)
  have hofList : name = String.ofList (first :: more) := by rw [← hchars, String.ofList_toList]
  have hword : ∀ c ∈ first :: more, Lexer.isNameChar c = true := by
    intro c hc
    rw [← hchars] at hc
    simpa [Lexer.isNameChar] using hname.word c hc
  rw [hchars]
  by_cases hdigit : first.isDigit = true
  · rw [Lexer.startsWithDigit, if_pos hdigit, hofList]
    exact evaluateText_digitWord hdigit (fun c hc => hword c (List.mem_cons_of_mem _ hc)) vars
  · -- a word that does not begin with a digit is a name in expressions too, so it is looked up
    have hisName : isName name = true :=
      hofList ▸ isName_ofList (Bool.eq_false_of_not_eq_true hdigit) hword
    rw [Lexer.startsWithDigit, if_neg hdigit, evaluateText_name hisName, Bindings.valueOf, hbound]

namespace Builtin

/-- **What has been bound is what its name is worth from then on, unless the name has a digit at its
front**: then it is worth the number that it is, or it is no expression. -/
theorem set_evaluated {input : CommandInput} {session : Session} {consumed : Nat}
    (hset : (set input session).outcome = .ok consumed) :
    ∃ name v, readBinding input session.vars = .ok (name, v, consumed) ∧
      (set input session).vars = session.vars.insert name v ∧
      evaluateText (set input session).vars name =
        if Lexer.startsWithDigit name.toList then digitWord name.toList else .ok v := by
  obtain ⟨name, v, hread, hvars⟩ := set_eq_ok_iff.1 hset
  obtain ⟨word, value, literal, hpattern, -, -, rfl, -⟩ := readBinding_eq_ok_iff.1 hread
  obtain ⟨hname, -⟩ := Pattern.isVariableName_of_binding? hpattern
  refine ⟨String.ofList word, v, hread, hvars, evaluateText_bound hname ?_⟩
  rw [hvars, Keyed.get?_insert, if_pos rfl]

/-- A boolean that has been bound to a string, and a word that is a number and something more. -/
theorem set_evaluated_shadowing :
    let line := "set true = 'no'"
    let input : CommandInput := ⟨line, [line], .ofLines [line], 0⟩
    let line' := "set 1e5x = 'no'"
    let input' : CommandInput := ⟨line', [line'], .ofLines [line'], 0⟩
    (set input .fresh).outcome = .ok 0 ∧ (set input' .fresh).outcome = .ok 0 ∧
      evaluateText (set input .fresh).vars "true" = .ok (.string "no") ∧
      evaluateText (set input' .fresh).vars "1e5x" =
        .error (.unexpectedToken (.identifier "x")) := by
  intro line input line' input'
  have hset : (set input .fresh).outcome = .ok 0 := by decide
  have hset' : (set input' .fresh).outcome = .ok 0 := by decide
  obtain ⟨name, v, hread, -, hvalue⟩ := set_evaluated hset
  obtain ⟨name', v', hread', -, hvalue'⟩ := set_evaluated hset'
  have hbinds : readBinding input .empty = .ok ("true", .string "no", 0) := by decide
  have hbinds' : readBinding input' .empty = .ok ("1e5x", .string "no", 0) := by decide
  obtain ⟨rfl, rfl, -⟩ := by simpa using hbinds.symm.trans hread
  obtain ⟨rfl, -, -⟩ := by simpa using hbinds'.symm.trans hread'
  exact ⟨hset, hset', hvalue, hvalue'⟩

/-- What a line binds is what its name is worth behind it. -/
def EvaluatesBack (input : CommandInput) (session : Session) : Prop :=
  ∀ name v consumed, readBinding input session.vars = .ok (name, v, consumed) →
    evaluateText (set input session).vars name = .ok v

/-- A name with a digit at its front is bound, and cannot be read in an expression. The digits are a
token of their own there. -/
theorem not_evaluatesBack :
    ¬ ∀ line lines index session, lines[index]? = some line →
      EvaluatesBack ⟨line, lines, .ofLines lines, index⟩ session := by
  intro h
  obtain ⟨v, hread⟩ : ∃ v, readBinding ⟨"set 1a = 5", ["set 1a = 5"], .ofLines ["set 1a = 5"], 0⟩
      .empty = .ok ("1a", v, 0) := ⟨_, rfl⟩
  have hback := h "set 1a = 5" ["set 1a = 5"] 0 .fresh rfl "1a" v 0 hread
  have hfault : evaluateText (set ⟨"set 1a = 5", ["set 1a = 5"], .ofLines ["set 1a = 5"], 0⟩
      .fresh).vars "1a" = .error (.unexpectedToken (.identifier "a")) := by
    decide +kernel
  rw [hfault] at hback
  exact absurd hback (by simp)

end Builtin

end CanvasScript
