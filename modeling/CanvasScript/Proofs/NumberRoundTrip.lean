/-
The text of a finite number stands for that number wherever a script reads it.

As a value a text is one numeral, its sign included. As an expression it has a token for the sign
and one for the magnitude, because the tokens of numbers have no sign, and the value is the
magnitude with a prefix minus. Both go back to the spelling that the text is, without its sign, and
that spelling is read as the magnitude.

Zero is written without its sign, so minus zero comes back as zero, and that is the only number
that is not read back as it was.

`readsBack_text` states both readings, and adds that what is read is drawn with the same text again.
So a script that writes down what it was shown is shown the same.
-/
import CanvasScript.Proofs.CommandLines
import CanvasScript.Proofs.NumberText
import CanvasScript.Proofs.ObjectText

set_option autoImplicit false

namespace CanvasScript

/-! ## A sign and a spelling -/

namespace Binary64

/-- The number that the text of a number says: zero has no sign there. -/
def written (x : Binary64) : Binary64 := if x.isZero then zero else x

/-- The phrase that the text of a number is. -/
def phrase (x : Binary64) : Grammar.Phrase :=
  if x.isNegative then .signed .neg (.number x.abs) else .number x.abs

/-- The number that a text stands for has that text. -/
theorem text_written (x : Binary64) : x.written.text = x.text := by
  rw [written]
  split_ifs with hzero
  · cases x with
    | nan => exact Bool.noConfusion hzero
    | infinity negative => exact Bool.noConfusion hzero
    | finite negative magnitude =>
      obtain rfl : magnitude = ⟨0, positions_pos⟩ := Fin.ext (eq_of_beq hzero)
      exact text_signedZero false negative
  · rfl

/-- The text of a finite number is a spelling with the sign of what it says. What it says is the
number itself, except that zero has no sign. -/
theorem exists_signed_spelling {x : Binary64} (hx : x.isFinite = true) :
    ∃ s : Spelling, x.textChars = withSign x.written.isNegative s.chars ∧
      s.decimal.toBinary64 false = x.written.abs ∧
      s.decimal.toBinary64 x.written.isNegative = x.written := by
  obtain ⟨negative, magnitude, rfl⟩ := exists_of_isFinite hx
  obtain ⟨s, hchars, hvalue⟩ := exists_spelling_textChars magnitude
  have hsigned := Decimal.toBinary64_of_finite hvalue
  refine ⟨s, ?_⟩
  rw [hchars]
  -- the sign is written unless the number is zero, and what is written has a sign exactly then
  by_cases hzero : magnitude.val = 0
  · obtain rfl : magnitude = ⟨0, positions_pos⟩ := Fin.ext hzero
    exact ⟨rfl, hvalue, hvalue⟩
  · have hwritten : (finite negative magnitude).written = .finite negative magnitude := by
      rw [written, isZero, if_neg (by simpa using hzero)]
    rw [hwritten]
    refine ⟨?_, hvalue, hsigned negative⟩
    rw [textChars, if_neg hzero, textChars, if_neg hzero]
    rfl

/-! ## As a value -/

/-- The text of a finite number is a literal of the number that it stands for. -/
theorem exists_literal_textChars {x : Binary64} (hx : x.isFinite = true) :
    ∃ l : NumberLiteral, l.chars = x.textChars ∧ l.numeral.toBinary64 = x.written := by
  obtain ⟨s, hchars, -, hvalue⟩ := exists_signed_spelling hx
  refine ⟨s.signed x.written.isNegative, ?_, ?_⟩
  · rw [s.chars_signed, hchars]
  · rw [s.numeral_signed]
    exact hvalue

/-- As a value it is read as that number, whatever is bound. -/
theorem readValue_text {x : Binary64} (hx : x.isFinite = true) (vars : Bindings) (line : String) :
    Literal.readValue vars line x.text.toList = .ok (.number x.written) := by
  obtain ⟨l, hchars, hvalue⟩ := exists_literal_textChars hx
  have hread := (WrittenScalar.number l).readValue_chars vars line
  rw [WrittenScalar.chars, WrittenScalar.scalar, hchars, hvalue] at hread
  rwa [text, String.toList_ofList]

/-- It can be the value of a binding, since it is all on one line and holds no parenthesis. -/
theorem isInlineValue_text {x : Binary64} (hx : x.isFinite = true) : IsInlineValue x.text := by
  obtain ⟨l, hchars, -⟩ := exists_literal_textChars hx
  have htext : x.text.toList = l.chars := by rw [text, String.toList_ofList, hchars]
  constructor
  · rw [htext]
    exact (WrittenScalar.number l).isBounded_chars
  · rw [htext]
    exact l.not_mem_chars rfl
  · rw [htext]
    exact l.not_mem_chars rfl
  · rw [htext]
    exact (WrittenScalar.number l).startsObject_chars

/-! ## As an expression -/

/-- As an expression it has the tokens of the number's phrase: a sign, if the number is negative,
and its magnitude. -/
theorem tokens_text {x : Binary64} (hx : x.isFinite = true) :
    Lexer.tokens x.text.toList = .ok x.written.phrase.tokens := by
  obtain ⟨s, hchars, hvalue, -⟩ := exists_signed_spelling hx
  have hstarts :=
    Lexer.starts_literal (l := s.literal) rfl s.whole_ne_nil s.fraction_literal_ne .nil
  rw [List.append_nil, s.chars_literal, s.numeral_literal] at hstarts
  have hmagnitude : Lexer.tokens s.chars = .ok [.number x.written.abs] := by
    rw [Lexer.tokens_of_starts hstarts, Lexer.tokens_nil, ← hvalue]
    rfl
  rw [text, String.toList_ofList, hchars, phrase]
  rcases x.written.isNegative
  · exact hmagnitude
  · change Lexer.tokens ('-' :: s.chars) = _
    rw [Lexer.tokens_minus, hmagnitude]
    rfl

/-- That phrase is one of the grammar. -/
theorem derives_phrase (x : Binary64) : Grammar.Derives .unary x.phrase := by
  have hmagnitude : Grammar.Derives .unary (.number x.abs) := .unsigned (.bare (.number x.abs))
  rw [phrase]
  split_ifs
  · exact .signed .neg hmagnitude
  · exact hmagnitude

theorem nesting_phrase_le (x : Binary64) : x.phrase.nesting ≤ 255 := by
  rw [phrase]
  split_ifs
  · change 1 ≤ 255
    decide
  · exact Nat.zero_le _

/-- And its value is the number, with the sign applied to the magnitude. -/
theorem evaluate_phrase (x : Binary64) (vars : Bindings) :
    x.phrase.tree.evaluate vars = .ok (.number x) := by
  rcases x with _ | negative | ⟨negative, magnitude⟩
  · rfl
  · cases negative <;> rfl
  · cases negative <;> rfl

end Binary64

/-! ## Everywhere -/

/-- The text of a number stands for a number wherever a script reads it. -/
structure ReadsBack (x y : Binary64) : Prop where
  value : ∀ vars line, Literal.readValue vars line x.text.toList = .ok (.number y)
  /-- The sign is a prefix operator before the magnitude. -/
  tree : Parser.parse x.text =
    .ok (if y.isNegative then .unary .neg (.number y.abs) else .number y.abs)
  expression : ∀ vars, evaluateText vars x.text = .ok (.number y)
  /-- A number that is bound by its text is drawn with the same text. -/
  redrawn : ∀ (i : Interpreter) (name : String), i.commands.HasBuiltins → isName name = true →
    let (after, run, report) := i.run (bindingLine name x.text ++ "\n" ++ drawingLine name)
    run.calls = [Page.place i.session.shown ⟨x.text, Color.text⟩] ∧
      (∀ other, after.session.vars.get? other =
        if other = name then some (.number y) else i.session.vars.get? other) ∧
      report = ⟨2, 1, 0⟩

/-- **The text of every finite number reads back as that number**, except that zero has no sign.
That is so for values and for expressions, for which a sign is an operator and no part of the
number, and what has been read is drawn as the same text again. -/
theorem readsBack_text {x : Binary64} (hx : x.isFinite = true) :
    ReadsBack x (if x.isZero then .zero else x) where
  value := Binary64.readValue_text hx
  tree := by
    have hparse := Parser.parse_of_phrase (Binary64.tokens_text hx)
      (Binary64.derives_phrase x.written) (Binary64.nesting_phrase_le x.written)
    rw [hparse, Binary64.phrase, Binary64.written]
    -- zero is written without a sign, and any other number with its own
    split_ifs <;> rfl
  expression vars := by
    rw [Parser.evaluateText_of_phrase (Binary64.tokens_text hx) (Binary64.derives_phrase x.written)
      (Binary64.nesting_phrase_le x.written), Binary64.evaluate_phrase]
    rfl
  redrawn i name hbuiltins hname := by
    have hrun := run_bindingLine hbuiltins hname (Binary64.isInlineValue_text hx)
      (Binary64.readValue_text hx i.session.vars)
    have htext : (Value.number x.written).text = x.text := x.text_written
    refine ⟨?_, hrun.get?_eq, hrun.report_eq⟩
    rw [hrun.calls_eq, htext]

/-- A number with a sign and an exponent, and the zero that loses its sign. -/
theorem readsBack_text_of_tiny :
    let x : Binary64 := .rounded true (15 * Binary64.unitsInOne) (tenTo 8)
    let minusZero : Binary64 := .signedZero true
    x.isFinite = true ∧ minusZero.isFinite = true ∧ ReadsBack x x ∧ ReadsBack minusZero .zero ∧
      Builtin.commands.HasBuiltins ∧ isName "v" = true ∧
      let source := "set v = -1.5e-7\ndisplay(v)"
      (Interpreter.fresh.run source).2.1.calls = [Page.place 0 ⟨"-1.5e-7", Color.text⟩] := by
  intro x minusZero
  have hfinite : x.isFinite = true := by decide +kernel
  have hback : ReadsBack x x := by
    have h := readsBack_text hfinite
    rwa [if_neg (by decide +kernel)] at h
  have htext : x.text = "-1.5e-7" := by decide +kernel
  have hsource : bindingLine "v" x.text ++ "\n" ++ drawingLine "v" =
      "set v = -1.5e-7\ndisplay(v)" := by
    rw [htext]
    decide +kernel
  have hdrawn := (hback.redrawn .fresh "v" Builtin.hasBuiltins_commands (by decide +kernel)).1
  rw [hsource, htext] at hdrawn
  exact ⟨hfinite, rfl, hback, readsBack_text (x := minusZero) rfl, Builtin.hasBuiltins_commands,
    by decide +kernel, hdrawn⟩

end CanvasScript
