/-
Tokens written as text, with a space between them, are read back as they are.

What a token is written as depends on its kind, and so does what must not follow it: a digit or
a point would go on with a number, a letter with a name, an equals sign with the symbols of
order. A blank goes on with nothing. So every token is read back in front of any text that is
empty or begins with a blank, and that is what carries the induction over a list of tokens.

A number is written as scripts see it. That is a numeral, and the longest number at the front of
a numeral is the whole of it, because its letter and its point are followed by what they need. A
string is in double quotes, with a backslash before each backslash and each double quote in it.

The text of a token is not the only one that is read as it. A string may be in single quotes, a
number may have zeros at its end, and blanks may stand where they like. What is proved here is one
direction: what the printer writes is read. That the printer writes the expressions it is given, and
that what it writes is as short as the grammar allows, is said in `Printing`.
-/
import CanvasScript.Expr.Lexer
import CanvasScript.Proofs.NumberText
import CanvasScript.Proofs.TextPieces

set_option autoImplicit false

namespace CanvasScript

/-! ## Texts of tokens -/

/-- A character as it stands between double quotes. -/
def escape (c : Char) : List Char := if c = '\\' ∨ c = '"' then ['\\', c] else [c]

/-- A token as it is written. -/
def Token.text : Token → String
  | .number x => x.text
  | .string s => "\"" ++ String.ofList (s.toList.flatMap escape) ++ "\""
  | .identifier name => name
  | .symbol s => s.text

/-- Tokens as they are written, with a space between them. -/
def textOfTokens (tokens : List Token) : String := " ".intercalate (tokens.map Token.text)

/-- A letter or an underscore, and then letters, digits and underscores. -/
def isName (name : String) : Bool :=
  match name.toList with
  | [] => false
  | first :: more => (first.isAlpha || first == '_') && more.all fun c => c.isAlphanum || c == '_'

/-- Tokens that can be written: a number has to be finite and without a sign, and a name has to
be one. -/
def Token.isWritable : Token → Bool
  | .number x => x.isFinite && !x.isNegative
  | .string _ => true
  | .identifier name => isName name
  | .symbol _ => true

/-! ## Blanks between tokens -/

/-- A text that is empty or begins with a blank. -/
def Apart (rest : List Char) : Prop := ∀ c ∈ rest.head?, Text.isBlank c = true

/-- Nothing stands behind the last token of a text, and that keeps it apart as a blank does. -/
theorem Apart.nil : Apart [] := by
  intro c hc
  simp at hc

/-- A blank keeps a token apart from what comes next. -/
theorem Apart.cons {c : Char} (h : Text.isBlank c = true) (rest : List Char) :
    Apart (c :: rest) := by
  intro d hd
  obtain rfl := Option.mem_some_iff.1 hd
  exact h

/-- A class without blanks ends in front of a text that is apart. Every part of a token is the
longest beginning of such a class. -/
theorem Apart.ends {inClass : Char → Bool} {rest : List Char} (h : Apart rest)
    (hclass : ∀ c, Text.isBlank c = true → inClass c = false) : Ends inClass rest :=
  fun c hc => hclass c (h c hc)

/-- No digit is a blank. Both classes are tested on the code point, so the proof goes through the
ranges of blanks. -/
theorem Text.not_isDigit_of_isBlank (c : Char) (h : isBlank c = true) : c.isDigit = false := by
  have hclass := isAlphanum_eq_false_of_isBlank h
  rw [Char.isAlphanum, Bool.or_eq_false_iff] at hclass
  exact hclass.2

theorem Apart.ends_isDigit {rest : List Char} (h : Apart rest) : Ends Char.isDigit rest :=
  h.ends Text.not_isDigit_of_isBlank

namespace Lexer

/-- No character of a name is a blank. -/
theorem not_isNameChar_of_isBlank (c : Char) (h : Text.isBlank c = true) :
    isNameChar c = false := by
  rw [isNameChar, Text.isAlphanum_eq_false_of_isBlank h, Bool.false_or, beq_eq_false_iff_ne]
  rintro rfl
  exact absurd h (by decide)

theorem isBlank_eq_false_of_isNameChar {c : Char} (h : isNameChar c = true) :
    Text.isBlank c = false := by
  by_contra hblank
  rw [not_isNameChar_of_isBlank c (eq_true_of_ne_false hblank)] at h
  exact absurd h (by decide)

theorem ends_isNameChar_of_apart {rest : List Char} (h : Apart rest) : Ends isNameChar rest :=
  h.ends not_isNameChar_of_isBlank

/-! ## Results without the length of what is left -/

def bare {text : List Char} (result : Except EvalError (Token × Remainder text)) :
    Except EvalError (Token × List Char) :=
  result.map fun (token, rest) => (token, rest.val)

def bare? {α : Type} {text : List Char} (found : Option (α × Remainder text)) :
    Option (α × List Char) :=
  found.map fun (x, rest) => (x, rest.val)

/-- One token is read, and then those of what it leaves. The length of what is left is forgotten
here, which the lexer keeps for its termination and nothing else. -/
theorem tokens_cons_of_bare {c : Char} {text rest : List Char} {token : Token}
    (hblank : Text.isBlank c = false) (h : bare (nextToken c text) = .ok (token, rest)) :
    tokens (c :: text) = (tokens rest).map (token :: ·) := by
  rcases hnext : nextToken c text with fault | ⟨token', left⟩
  · rw [hnext] at h
    simp [bare, Except.map] at h
  · rw [hnext] at h
    simp only [bare, Except.map, Except.ok.injEq, Prod.mk.injEq] at h
    obtain ⟨rfl, rfl⟩ := h
    exact tokens_cons_of_ok hblank hnext

/-! ## Numbers -/

/-- Reading a number takes three parts one behind the other: digits, a point with digits, an
exponent. It depends on its own text only through these parts. -/
theorem bare_readNumber (first : Char) (text : List Char) :
    bare (readNumber first text) =
      let fraction := takePointAndDigits (text.dropWhile Char.isDigit)
      let exponent := takeExponent fraction.2.val
      (numberToken (first :: text.takeWhile Char.isDigit ++ fraction.1 ++ exponent.1)).map
        fun token => (token, exponent.2.val) := by
  simp only [readNumber, bare, dropClass, Remainder.further]
  generalize numberToken _ = token?
  rcases token? with fault | token
  · rfl
  · rfl

open NumberLiteral

/-- The point and the digits of a fraction are taken as they are written. A second point behind them
is not taken, and none is taken if there is no fraction. -/
theorem takePointAndDigits_fractionChars {fraction : Option (List Char)} {rest : List Char}
    (hclosed : fraction ≠ some []) (hfraction : ∀ c ∈ fraction.getD [], c.isDigit = true)
    (hrest : Ends Char.isDigit rest) (hpoint : Ends (· == '.') rest) :
    (takePointAndDigits (fractionChars fraction ++ rest)).1 = fractionChars fraction ∧
      (takePointAndDigits (fractionChars fraction ++ rest)).2.val = rest := by
  rcases fraction with _ | _ | ⟨c, digits⟩
  · rw [fractionChars, List.nil_append, takePointAndDigits.eq_def]
    split
    · simp [Ends] at hpoint
    · exact ⟨rfl, rfl⟩
  · exact absurd rfl hclosed
  · rw [Option.getD_some] at hfraction
    have hmore : ∀ d ∈ digits, d.isDigit = true := fun d hd =>
      hfraction d (List.mem_cons_of_mem _ hd)
    rw [fractionChars, List.cons_append, List.cons_append, takePointAndDigits,
      if_pos (hfraction c List.mem_cons_self), takeWhile_append_of_ends hmore hrest]
    exact ⟨rfl, dropWhile_append_of_ends hmore hrest⟩

/-- The sign of an exponent is taken as it is written, also if it is left out. -/
theorem takeExponentSign_chars (sign : WrittenSign) {text : List Char}
    (h : Ends Numeral.isSign text) :
    (takeExponentSign (sign.chars ++ text)).1 = sign.chars ∧
      (takeExponentSign (sign.chars ++ text)).2.val = text := by
  cases sign with
  | absent =>
    rw [WrittenSign.chars, List.nil_append, takeExponentSign.eq_def]
    split
    · exact absurd (h '+' rfl) (by decide)
    · exact absurd (h '-' rfl) (by decide)
    · exact ⟨rfl, rfl⟩
  | plus => exact ⟨rfl, rfl⟩
  | minus => exact ⟨rfl, rfl⟩

/-- Of an exponent the sign and all digits are taken. -/
theorem takeExponentBody_chars (e : WrittenExponent) {rest : List Char}
    (hrest : Ends Char.isDigit rest) :
    (takeExponentBody (e.sign.chars ++ e.digits ++ rest)).1 = e.sign.chars ++ e.digits ∧
      (takeExponentBody (e.sign.chars ++ e.digits ++ rest)).2.val = rest := by
  obtain ⟨first, more, hdigits⟩ := List.exists_cons_of_ne_nil e.ne_nil
  have hfirst : first.isDigit = true :=
    e.isDigit first (by rw [hdigits]; exact List.mem_cons_self)
  have hsign : Ends Numeral.isSign (e.digits ++ rest) := by
    rw [hdigits]
    exact .cons (Numeral.isSign_eq_false_of_isDigit hfirst) _
  rw [List.append_assoc]
  obtain ⟨htaken, hleft⟩ := takeExponentSign_chars e.sign hsign
  constructor
  · change (takeExponentSign _).1 ++ (takeExponentSign _).2.val.takeWhile Char.isDigit = _
    rw [htaken, hleft, takeWhile_append_of_ends e.isDigit hrest]
  · change (takeExponentSign _).2.val.dropWhile Char.isDigit = _
    rw [hleft, dropWhile_append_of_ends e.isDigit hrest]

/-- The letter of an exponent is taken in lower case. -/
theorem takeExponent_exponentChars (exponent : Option WrittenExponent) {rest : List Char}
    (hrest : Apart rest) :
    (takeExponent (exponentChars exponent ++ rest)).1 =
        exponentChars (exponent.map WrittenExponent.lowered) ∧
      (takeExponent (exponentChars exponent ++ rest)).2.val = rest := by
  rcases exponent with _ | e
  · rcases rest with _ | ⟨c, rest⟩
    · exact ⟨rfl, rfl⟩
    · -- without an exponent, what comes next is a blank and begins none
      have hletter : ¬(c = 'e' ∨ c = 'E') := by
        rintro (rfl | rfl)
        · exact absurd (hrest _ rfl) (by decide)
        · exact absurd (hrest _ rfl) (by decide)
      rw [exponentChars, List.nil_append, takeExponent, if_neg hletter]
      exact ⟨rfl, rfl⟩
  · obtain ⟨hbody, hleft⟩ := takeExponentBody_chars e hrest.ends_isDigit
    have hletter : (if e.capital then 'E' else 'e') = 'e' ∨
        (if e.capital then 'E' else 'e') = 'E' := by
      cases e.capital
      · exact .inl rfl
      · exact .inr rfl
    rw [exponentChars, List.cons_append, takeExponent, if_pos hletter]
    exact ⟨congrArg ('e' :: ·) hbody, hleft⟩

/-- The longest number at the front of a numeral without a sign is all of it, if there are digits
before its point and, when there is a point, behind it. Numerals that leave one of the two out are
begun or ended in another way. -/
theorem bare_readNumber_literal {l : NumberLiteral} (hunsigned : l.sign = .absent)
    (hwhole : l.whole ≠ []) (hclosed : l.fraction ≠ some []) {first : Char}
    {text rest : List Char} (hrest : Apart rest) (hchars : l.chars ++ rest = first :: text) :
    bare (readNumber first text) = .ok (.number l.numeral.toBinary64, rest) := by
  obtain ⟨digit, more, hdigits⟩ := List.exists_cons_of_ne_nil hwhole
  rw [NumberLiteral.chars, hunsigned, hdigits, List.append_assoc, List.append_assoc,
    List.append_assoc, WrittenSign.chars, List.nil_append, List.cons_append,
    List.cons.injEq] at hchars
  obtain ⟨rfl, rfl⟩ := hchars
  -- no part of the numeral goes on into what is behind it
  have hmore : ∀ c ∈ more, c.isDigit = true := fun c hc =>
    l.isDigit_whole c (by rw [hdigits]; exact List.mem_cons_of_mem _ hc)
  have hexponent : Ends Char.isDigit (exponentChars l.exponent ++ rest) :=
    ends_exponentChars_append rfl rfl hrest.ends_isDigit _
  have hpoint : Ends (· == '.') (exponentChars l.exponent ++ rest) := by
    refine ends_exponentChars_append rfl rfl (hrest.ends ?_) _
    intro c hc
    rw [beq_eq_false_iff_ne]
    rintro rfl
    exact absurd hc (by decide)
  have hfraction := ends_fractionChars rfl hexponent l.fraction
  obtain ⟨htaken, hleft⟩ :=
    takePointAndDigits_fractionChars hclosed l.isDigit_fraction hexponent hpoint
  obtain ⟨htaken', hleft'⟩ := takeExponent_exponentChars l.exponent hrest
  have hlowered : digit :: more ++ fractionChars l.fraction ++
      exponentChars (l.exponent.map WrittenExponent.lowered) = l.lowered.chars := by
    have hlowered : l.lowered.chars = l.sign.chars ++ (l.whole ++ (fractionChars l.fraction ++
        exponentChars (l.exponent.map WrittenExponent.lowered))) := rfl
    rw [hlowered, hunsigned, hdigits, List.append_assoc]
    rfl
  rw [bare_readNumber, takeWhile_append_of_ends hmore hfraction,
    dropWhile_append_of_ends hmore hfraction]
  dsimp only
  rw [htaken, hleft, htaken', hleft', hlowered, numberToken, Numeral.read?_literal,
    numeral_lowered]
  rfl

/-! ## Strings -/

/-- A backslash is read together with the character behind it, which then cannot end the string. -/
theorem bare?_readString?_backslash (quote c : Char) (text : List Char) :
    bare? (readString? quote ('\\' :: c :: text)) =
      (bare? (readString? quote text)).map fun (s, rest) => (unescape c :: s, rest) := by
  rw [readString?, bare?, bare?, Option.map_map, Option.map_map]
  rfl

/-- A character that is neither a backslash nor the quote stands for itself. -/
theorem bare?_readString?_plain {quote c : Char} (hbackslash : c ≠ '\\') (hquote : c ≠ quote)
    (text : List Char) :
    bare? (readString? quote (c :: text)) =
      (bare? (readString? quote text)).map fun (s, rest) => (c :: s, rest) := by
  rw [readString?]
  · rw [if_neg hquote, bare?, bare?, Option.map_map, Option.map_map]
    rfl
  · intro heq
    exact absurd heq hbackslash
  · intro _ _ heq
    exact absurd heq hbackslash

/-- The quote that began the string ends it. -/
theorem bare?_readString?_quote {quote : Char} (hquote : quote ≠ '\\') (text : List Char) :
    bare? (readString? quote (quote :: text)) = some ([], text) := by
  rw [readString?, if_pos rfl]
  · rfl
  · intro heq
    exact absurd heq hquote
  · intro _ _ heq
    exact absurd heq hquote

/-- A way of writing between quotes: a character stands for itself, or it is what a backslash makes
of another one. -/
def Escapes (quote : Char) (write : Char → List Char) : Prop :=
  ∀ c, (write c = [c] ∧ c ≠ '\\' ∧ c ≠ quote) ∨ ∃ d, write c = ['\\', d] ∧ unescape d = c

/-- What has been written between quotes is read back up to the quote behind it. -/
theorem bare?_readString?_escaped {quote : Char} (hquote : quote ≠ '\\')
    {write : Char → List Char} (h : Escapes quote write) (chars rest : List Char) :
    bare? (readString? quote (chars.flatMap write ++ quote :: rest)) = some (chars, rest) := by
  induction chars with
  | nil => exact bare?_readString?_quote hquote rest
  | cons c chars ih =>
    rw [List.flatMap_cons, List.append_assoc]
    rcases h c with ⟨hplain, hbackslash, hother⟩ | ⟨d, hescape, hunescape⟩
    · rw [hplain, List.singleton_append, bare?_readString?_plain hbackslash hother, ih]
      rfl
    · rw [hescape, List.cons_append, List.singleton_append, bare?_readString?_backslash, hunescape,
        ih]
      rfl

/-- The printer's way of writing characters is one that the reader undoes: a backslash stands before
each backslash and each double quote. -/
theorem escapes_escape : Escapes '"' escape := by
  intro c
  rw [escape]
  split_ifs with h
  · -- `n` and `t` mean something else behind a backslash, but they are not escaped
    have hunescape : unescape c = c := by
      rcases h with rfl | rfl
      · rfl
      · rfl
    exact .inr ⟨c, rfl, hunescape⟩
  · exact .inl ⟨rfl, not_or.1 h⟩

/-! ## Symbols -/

/-- A symbol is a character by itself, or a pair of characters. -/
theorem symbol_cases (s : Symbol) :
    (∃ c, s.text.toList = [c] ∧ plainSymbol? c = some s) ∨
      ∃ c d, s.text.toList = [c, d] ∧ pairSymbol? c d = some s := by
  cases s
  case equal => exact .inr ⟨_, _, rfl, rfl⟩
  case notEqual => exact .inr ⟨_, _, rfl, rfl⟩
  case lessEqual => exact .inr ⟨_, _, rfl, rfl⟩
  case greaterEqual => exact .inr ⟨_, _, rfl, rfl⟩
  case and => exact .inr ⟨_, _, rfl, rfl⟩
  case or => exact .inr ⟨_, _, rfl, rfl⟩
  all_goals exact .inl ⟨_, rfl, rfl⟩

/-- Characters that begin nothing but symbols, except that a point may begin a number. -/
def beginsSymbol (c : Char) : Bool :=
  !c.isDigit && !isNameStart c && c != '"' && c != '\'' && !Text.isBlank c

/-- A symbol has a first character, and that is one which begins symbols. Only the point has none
behind it, as a digit there would make a number of it. -/
theorem exists_first_of_symbol (s : Symbol) :
    ∃ first more, s.text.toList = first :: more ∧ beginsSymbol first = true ∧
      (first = '.' → more = []) := by
  cases s
  all_goals exact ⟨_, _, rfl, by decide, by decide⟩

/-- No pair of characters has a blank in second place. -/
theorem pairSymbol?_of_isBlank (c : Char) {d : Char} (h : Text.isBlank d = true) :
    pairSymbol? c d = none := by
  rw [pairSymbol?.eq_def]
  split
  case h_7 => rfl
  all_goals exact absurd h (by decide)

/-- A symbol is read back from its text, as one character or as two. One character is read alone
because a blank, which comes next, makes no pair with it. -/
theorem bare?_readSymbol?_text (s : Symbol) {first : Char} {more rest : List Char}
    (hrest : Apart rest) (htext : s.text.toList = first :: more) :
    bare? (readSymbol? first (more ++ rest)) = some (s, rest) := by
  rcases symbol_cases s with ⟨c, hplain, hsymbol⟩ | ⟨c, d, hpair, hsymbol⟩
  · rw [htext, List.cons.injEq] at hplain
    obtain ⟨rfl, rfl⟩ := hplain
    rw [List.nil_append]
    rcases rest with _ | ⟨d, rest⟩
    · rw [readSymbol?, hsymbol]
      rfl
    · -- a blank makes no pair
      rw [readSymbol?, pairSymbol?_of_isBlank first (hrest d rfl), hsymbol]
      rfl
  · rw [htext, List.cons.injEq] at hpair
    obtain ⟨rfl, rfl⟩ := hpair
    rw [List.singleton_append, readSymbol?, hsymbol]
    rfl

/-! ## One token -/

/-- The token is read from the front of the text, and leaves the rest. -/
def Starts (token : Token) (rest text : List Char) : Prop :=
  ∃ first more, text = first :: more ∧ Text.isBlank first = false ∧
    bare (nextToken first more) = .ok (token, rest)

/-- What starts with a token has that token and then those of the rest. -/
theorem tokens_of_starts {token : Token} {rest text : List Char} (h : Starts token rest text) :
    tokens text = (tokens rest).map (token :: ·) := by
  obtain ⟨first, more, rfl, hblank, hnext⟩ := h
  exact tokens_cons_of_bare hblank hnext

/-- A number literal is read as the number that it says. It begins with a digit, and has one behind
its point if it has a point; any other literal is begun or ended in another way. -/
theorem starts_literal {l : NumberLiteral} (hunsigned : l.sign = .absent) (hwhole : l.whole ≠ [])
    (hclosed : l.fraction ≠ some []) {rest : List Char} (hrest : Apart rest) :
    Starts (.number l.numeral.toBinary64) rest (l.chars ++ rest) := by
  obtain ⟨first, more, hdigits⟩ := List.exists_cons_of_ne_nil hwhole
  have hdigit : first.isDigit = true :=
    l.isDigit_whole first (by rw [hdigits]; exact List.mem_cons_self)
  obtain ⟨text, htext⟩ : ∃ text, l.chars ++ rest = first :: text := by
    rw [NumberLiteral.chars, hunsigned, hdigits]
    exact ⟨_, rfl⟩
  refine ⟨first, text, htext, ?_, ?_⟩
  · exact Text.isBlank_eq_false_of_isAlphanum (by simp [Char.isAlphanum, hdigit])
  · rw [nextToken, if_pos hdigit, bare_readNumber_literal hunsigned hwhole hclosed hrest htext]

/-- Either of the two quotes begins a string, and the same one ends it. -/
theorem bare_nextToken_string {quote : Char} (hquote : quote = '"' ∨ quote = '\'')
    {text rest chars : List Char} (h : bare? (readString? quote text) = some (chars, rest)) :
    bare (nextToken quote text) = .ok (.string (String.ofList chars), rest) := by
  obtain ⟨⟨chars', left⟩, hread, heq⟩ := Option.map_eq_some_iff.1 h
  simp only [Prod.mk.injEq] at heq
  obtain ⟨rfl, rfl⟩ := heq
  have hdigit : quote.isDigit = false := by
    rcases hquote with rfl | rfl
    · rfl
    · rfl
  have hpoint : quote ≠ '.' := by
    rcases hquote with rfl | rfl
    · decide
    · decide
  rw [nextToken, if_neg (by simp [hdigit]), if_neg (by simp [hpoint]), if_pos hquote, hread]
  rfl

/-- A string is read back from its escaped characters between quotes, also in front of a text that
begins with no blank. -/
theorem starts_string (s : String) (rest : List Char) :
    Starts (.string s) rest ('"' :: (s.toList.flatMap escape ++ '"' :: rest)) := by
  refine ⟨'"', _, rfl, by decide, ?_⟩
  rw [bare_nextToken_string (.inl rfl)
    (bare?_readString?_escaped (by decide) escapes_escape s.toList rest), String.ofList_toList]

/-- A name has a first character that begins names, and others that go on with them. -/
theorem exists_of_isName {name : String} (h : isName name = true) :
    ∃ first more, name.toList = first :: more ∧ isNameStart first = true ∧
      ∀ c ∈ more, isNameChar c = true := by
  rw [isName] at h
  split at h
  · exact absurd h (by decide)
  · rename_i first more heq
    rw [Bool.and_eq_true] at h
    exact ⟨first, more, heq, h.1, List.all_eq_true.1 h.2⟩

/-- What begins a name begins nothing else. -/
theorem begins_name {c : Char} (h : isNameStart c = true) :
    Text.isBlank c = false ∧ c.isDigit = false ∧ c ≠ '.' ∧ c ≠ '"' ∧ c ≠ '\'' := by
  rw [isNameStart, Bool.or_eq_true, beq_iff_eq] at h
  rcases h with hletter | rfl
  · have hblank := Text.isBlank_eq_false_of_isAlphanum (c := c) (by simp [Char.isAlphanum, hletter])
    refine ⟨hblank, ?_, ?_, ?_, ?_⟩
    · by_contra hdigit
      have hrange := Text.isDigit_iff.1 (Bool.eq_true_of_not_eq_false hdigit)
      rw [Text.isAlpha_iff] at hletter
      omega
    all_goals
      rintro rfl
      exact absurd hletter (by decide)
  · decide

/-- A name is read back in front of what does not go on with it. -/
theorem starts_identifier {name : String} (hname : isName name = true) {rest : List Char}
    (hends : Ends isNameChar rest) : Starts (.identifier name) rest (name.toList ++ rest) := by
  obtain ⟨first, more, hchars, hstart, hword⟩ := exists_of_isName hname
  obtain ⟨hblank, hdigit, hpoint, hdouble, hsingle⟩ := begins_name hstart
  refine ⟨first, more ++ rest, by rw [hchars]; rfl, hblank, ?_⟩
  rw [nextToken, if_neg (by simp [hdigit]), if_neg (by simp [hpoint]),
    if_neg (by simp [hdouble, hsingle]), if_pos hstart]
  simp only [bare, Except.map, dropClass, dropWhile_append_of_ends hword hends,
    takeWhile_append_of_ends hword hends]
  rw [← hchars, String.ofList_toList]

/-- A symbol is read back from its text in front of a blank, which completes no pair. -/
theorem starts_symbol (s : Symbol) {rest : List Char} (hrest : Apart rest) :
    Starts (.symbol s) rest (s.text.toList ++ rest) := by
  obtain ⟨first, more, htext, hbegins, hpoint⟩ := exists_first_of_symbol s
  simp only [beginsSymbol, Bool.and_eq_true, Bool.not_eq_true', bne_iff_ne] at hbegins
  obtain ⟨⟨⟨⟨hdigit, hname⟩, hdouble⟩, hsingle⟩, hblank⟩ := hbegins
  -- a point would begin a number if a digit came next
  have hnumber : ¬(first = '.' ∧ startsWithDigit (more ++ rest) = true) := by
    rintro ⟨hdot, hdigits⟩
    rw [hpoint hdot, List.nil_append] at hdigits
    rcases rest with _ | ⟨c, rest⟩
    · exact absurd hdigits (by decide)
    · rw [startsWithDigit, hrest.ends_isDigit c rfl] at hdigits
      exact absurd hdigits (by decide)
  obtain ⟨⟨s', left⟩, hread, heq⟩ := Option.map_eq_some_iff.1 (bare?_readSymbol?_text s hrest htext)
  simp only [Prod.mk.injEq] at heq
  refine ⟨first, more ++ rest, by rw [htext]; rfl, hblank, ?_⟩
  rw [nextToken, if_neg (by simp [hdigit]), if_neg hnumber, if_neg (by simp [hdouble, hsingle]),
    if_neg (by simp [hname]), hread]
  simp only [bare, Except.map, heq]

/-- A sign is a symbol whatever comes next, because no pair of characters begins with one. -/
theorem tokens_plus (text : List Char) :
    tokens ('+' :: text) = (tokens text).map (.symbol .plus :: ·) := by
  refine tokens_cons_of_bare (by decide) ?_
  rcases text with _ | ⟨c, text⟩
  · rfl
  · rfl

/-- The same for the other sign. That a minus is a token by itself is what keeps negative numbers
out of the lexer. -/
theorem tokens_minus (text : List Char) :
    tokens ('-' :: text) = (tokens text).map (.symbol .minus :: ·) := by
  refine tokens_cons_of_bare (by decide) ?_
  rcases text with _ | ⟨c, text⟩
  · rfl
  · rfl

/-- A token that can be written is read back from its text, whatever comes behind a blank. Numbers
are the reason for the condition: there is no token for a negative number, nor for one that is not
finite. -/
theorem starts_text {token : Token} (htoken : token.isWritable = true) {rest : List Char}
    (hrest : Apart rest) : Starts token rest (token.text.toList ++ rest) := by
  rcases token with x | s | name | s
  · rw [Token.isWritable, Bool.and_eq_true, Bool.not_eq_true'] at htoken
    obtain ⟨hfinite, hpositive⟩ := htoken
    rcases x with _ | negative | ⟨negative, magnitude⟩
    · simp [Binary64.isFinite] at hfinite
    · simp [Binary64.isFinite] at hfinite
    · -- a number is written as a numeral, and that is read as the number
      obtain rfl : negative = false := hpositive
      obtain ⟨s, hchars, hvalue⟩ := Binary64.exists_spelling_textChars magnitude
      have hstarts := starts_literal (l := s.literal) rfl s.whole_ne_nil s.fraction_literal_ne hrest
      rw [s.numeral_literal, s.chars_literal] at hstarts
      rw [Token.text, Binary64.text, String.toList_ofList, ← hchars, ← hvalue]
      exact hstarts
  · have htext : (Token.string s).text.toList ++ rest =
        '"' :: (s.toList.flatMap escape ++ '"' :: rest) := by
      simp [Token.text]
    rw [htext]
    exact starts_string s rest
  · exact starts_identifier htoken (ends_isNameChar_of_apart hrest)
  · exact starts_symbol s hrest

end Lexer

/-! ## All tokens -/

/-- The characters of tokens: those of the first, and those of each other one behind a space. -/
theorem toList_textOfTokens_cons (token : Token) (more : List Token) :
    (textOfTokens (token :: more)).toList =
      token.text.toList ++ more.flatMap fun t => ' ' :: t.text.toList := by
  rw [textOfTokens, String.toList_intercalate]
  induction more generalizing token with
  | nil => simp
  | cons next more ih =>
    have htail := ih next
    rw [List.map_cons, List.map_cons] at htail
    rw [List.map_cons, List.map_cons, List.map_cons, List.map_cons, List.intercalate_cons_cons,
      htail, List.flatMap_cons, List.append_assoc]
    rfl

/-- Tokens behind others are read back. -/
theorem Lexer.tokens_flatMap_text {more : List Token}
    (h : ∀ token ∈ more, token.isWritable = true) :
    tokens (more.flatMap fun t => ' ' :: t.text.toList) = .ok more := by
  induction more with
  | nil => rw [List.flatMap_nil, tokens_nil]
  | cons token more ih =>
    have hmore := ih fun t ht => h t (List.mem_cons_of_mem _ ht)
    -- behind a token there is the end, or the blank in front of the next one
    have hrest : Apart (more.flatMap fun t => ' ' :: t.text.toList) := by
      rcases more with _ | ⟨next, more⟩
      · exact .nil
      · exact .cons (by decide) _
    have hstarts := starts_text (h token List.mem_cons_self) hrest
    rw [List.flatMap_cons, List.cons_append, tokens_cons_of_blank _ (by decide),
      tokens_of_starts hstarts, hmore]
    rfl

/-- **Tokens with a space between them are read back** as they were written. The spaces keep names,
numbers and symbols from growing into each other. -/
theorem Lexer.tokens_textOfTokens {ts : List Token} (h : ∀ token ∈ ts, token.isWritable = true) :
    tokens (textOfTokens ts).toList = .ok ts := by
  rcases ts with _ | ⟨token, more⟩
  · exact tokens_nil
  · -- with a space before the first token too, nothing is special about it
    have hmore := tokens_flatMap_text h
    rw [List.flatMap_cons, List.cons_append, tokens_cons_of_blank _ (by decide)] at hmore
    rw [toList_textOfTokens_cons]
    exact hmore

end CanvasScript
