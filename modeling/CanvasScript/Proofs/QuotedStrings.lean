/-
Strings written between quotes, in the two ways that scripts read them.

A drawing reads an expression. There a backslash takes the next character as it is, so with a
backslash before each backslash and each quote, and the letter `n` behind one for a line feed, any
text at all can be written on one line. That it holds parentheses does not matter, because a drawing
is cut off at its outermost ones.

A binding reads a value. There a string is what stands between the outermost quotes, with no way to
write what may not stand there, so line feeds and opening parentheses cannot be had. Everything else
can, and it is drawn as it was written.
-/
import CanvasScript.Proofs.CommandLines
import CanvasScript.Proofs.ObjectText

set_option autoImplicit false

namespace CanvasScript

/-! ## Ways of writing -/

namespace Quote

/-- There are two quotes. -/
theorem char_eq (quote : Quote) : quote.char = '"' ∨ quote.char = '\'' := by
  cases quote
  · exact .inr rfl
  · exact .inl rfl

theorem lineFeed_ne_char (quote : Quote) : '\n' ≠ quote.char := by
  cases quote <;> decide

/-- A text between quotes. -/
def enclose (quote : Quote) (s : String) : String :=
  String.ofList (quote.char :: (s.toList ++ [quote.char]))

/-- A character as it is written in an expression between quotes. -/
def escape (quote : Quote) (c : Char) : List Char :=
  if c = '\\' then ['\\', '\\']
  else if c = quote.char then ['\\', quote.char]
  else if c = '\n' then ['\\', 'n']
  else [c]

/-- A text as it is written in an expression, on one line and with its quotes. -/
def escaped (quote : Quote) (s : String) : String :=
  quote.enclose (String.ofList (s.toList.flatMap quote.escape))

/-- Escaping is undone by reading, for either of them. -/
theorem escapes_escape (quote : Quote) : Lexer.Escapes quote.char quote.escape := by
  intro c
  rw [escape]
  split_ifs with hbackslash hquote hbreak
  · exact .inr ⟨'\\', rfl, hbackslash.symm⟩
  · have hunescape : Lexer.unescape quote.char = quote.char := by cases quote <;> rfl
    exact .inr ⟨quote.char, rfl, hunescape.trans hquote.symm⟩
  · exact .inr ⟨'n', rfl, hbreak.symm⟩
  · exact .inl ⟨rfl, hbackslash, hquote⟩

theorem toList_enclose (quote : Quote) (s : String) :
    (quote.enclose s).toList = quote.char :: (s.toList ++ [quote.char]) :=
  String.toList_ofList

/-- Quotes are no blanks, so blanks at the ends of the text are kept. -/
theorem isBounded_enclose (quote : Quote) (s : String) :
    Text.IsBounded (quote.enclose s).toList := by
  rw [toList_enclose]
  exact quote.isBounded_quoted s.toList

/-- Enclosing a text brings in no characters but quotes. -/
theorem not_mem_enclose (quote : Quote) {s : String} {c : Char} (hquote : c ≠ quote.char)
    (h : c ∉ s.toList) : c ∉ (quote.enclose s).toList := by
  rw [toList_enclose]
  simp [hquote, h]

/-- An escaped text is on one line: a line feed in it is written as a letter behind a backslash. -/
theorem lineFeed_not_mem_escape (quote : Quote) (c : Char) : '\n' ∉ quote.escape c := by
  have hquote := quote.lineFeed_ne_char
  rw [escape]
  split_ifs with hbackslash hsame hbreak
  · decide
  · simp [hquote]
  · decide
  · simpa using Ne.symm hbreak

end Quote

/-! ## Expressions -/

/-- An escaped text between quotes is one token, the string that it was. -/
theorem Lexer.tokens_escaped (quote : Quote) (s : String) :
    tokens (quote.escaped s).toList = .ok [.string s] := by
  have hbackslash : quote.char ≠ '\\' := by cases quote <;> decide
  have hread := bare?_readString?_escaped hbackslash quote.escapes_escape s.toList []
  rw [Quote.escaped, Quote.toList_enclose, String.toList_ofList,
    tokens_cons_of_bare quote.isBlank_char (bare_nextToken_string quote.char_eq hread), tokens_nil,
    String.ofList_toList]
  rfl

/-- What has been escaped stands for the text, whatever variables there are. -/
theorem evaluateText_escaped (vars : Bindings) (quote : Quote) (s : String) :
    evaluateText vars (quote.escaped s) = .ok (.string s) :=
  Parser.evaluateText_of_phrase (Lexer.tokens_escaped quote s) (.string s) (Nat.zero_le _) vars

/-- **Every text can be drawn**, in either quotes and in any session, by a script of one line. The
text is escaped for that, so it may have line feeds and quotes in it and still stand on one line. -/
theorem run_escaped (session : Session) (quote : Quote) (s : String) :
    let (after, run, report) :=
      (Interpreter.mk Builtin.commands session).run (drawingLine (quote.escaped s))
    run.calls = [Page.place session.shown ⟨s, Color.text⟩] ∧
      after.session = ⟨session.vars, session.shown + 1⟩ ∧ report = ⟨1, 1, 0⟩ := by
  -- the line feeds of the text are escaped, so the script has one line
  have hclear : '\n' ∉ (quote.escaped s).toList := by
    refine quote.not_mem_enclose quote.lineFeed_ne_char ?_
    rw [String.toList_ofList, List.mem_flatMap]
    rintro ⟨c, -, hmem⟩
    exact quote.lineFeed_not_mem_escape c hmem
  have hbounded : Text.IsBounded (quote.escaped s).toList := quote.isBounded_enclose _
  exact run_drawingLine (i := ⟨Builtin.commands, session⟩) Builtin.hasBuiltins_commands hclear
    (Text.isBounded_iff.1 hbounded).2 (evaluateText_escaped session.vars quote s)

/-- Parentheses, both quotes, a backslash and a line feed. -/
example : drawingLine (Quote.single.escaped "f(\"it's\\\")\n") =
    "display('f(\"it\\'s\\\\\")\\n')" := by
  decide +kernel

/-! ## Values -/

/-- A text between quotes is not taken for an object, even if it begins with a brace. -/
theorem startsObject_enclose (quote : Quote) (s : String) :
    Literal.startsObject (quote.enclose s).toList = false := by
  rw [Quote.toList_enclose]
  cases quote
  · rfl
  · rfl

/-- A text between quotes can be the value of a binding, if neither a line feed nor an opening
parenthesis is in it. -/
theorem isInlineValue_enclose (quote : Quote) {s : String} (hclear : '\n' ∉ s.toList)
    (hopen : '(' ∉ s.toList) : IsInlineValue (quote.enclose s) where
  bounded := quote.isBounded_enclose s
  no_lineFeed := quote.not_mem_enclose quote.lineFeed_ne_char hclear
  no_parenthesis := quote.not_mem_enclose (by cases quote <;> decide) hopen
  no_object := startsObject_enclose quote s

/-- It is read as the text, without regard to quotes and backslashes in it. -/
theorem readValue_enclose (vars : Bindings) (line : String) (quote : Quote) (s : String) :
    Literal.readValue vars line (quote.enclose s).toList = .ok (.string s) := by
  have hconstant : Literal.constant? (quote.enclose s).toList = some (.string s) := by
    rw [Quote.toList_enclose, Literal.constant?_quoted, String.ofList_toList]
  exact Literal.readValue_of_constant (startsObject_enclose quote s) hconstant

/-- **A text that is bound between quotes is drawn as it stands**, and nothing else changes. It may
hold anything but line feeds and opening parentheses, both quotes and blanks at its ends too. -/
theorem run_enclosed {i : Interpreter} (hbuiltins : i.commands.HasBuiltins) {name : String}
    (hname : isName name = true) (quote : Quote) {s : String} (hclear : '\n' ∉ s.toList)
    (hopen : '(' ∉ s.toList) :
    let (after, run, report) :=
      i.run (bindingLine name (quote.enclose s) ++ "\n" ++ drawingLine name)
    run.calls = [Page.place i.session.shown ⟨s, Color.text⟩] ∧
      (∀ other, after.session.vars.get? other =
        if other = name then some (.string s) else i.session.vars.get? other) ∧
      report = ⟨2, 1, 0⟩ := by
  have hrun := run_bindingLine hbuiltins hname (isInlineValue_enclose quote hclear hopen)
    fun line => readValue_enclose i.session.vars line quote s
  exact ⟨hrun.calls_eq, hrun.get?_eq, hrun.report_eq⟩

/-- A name that also is a boolean, both quotes, an escape that is none, and a brace in a string with
blanks at its ends, where another command and earlier bindings are there. -/
theorem run_enclosed_of_quotes :
    let i : Interpreter := ⟨Builtin.commands.insert "plot" Builtin.display,
      ⟨.ofList [("true", .boolean false), ("x", .number .zero)], 7⟩⟩
    let s := " it's \"a\\n\" = \x7b b)\t"
    i.commands.HasBuiltins ∧ isName "true" = true ∧ '\n' ∉ s.toList ∧ '(' ∉ s.toList ∧
      bindingLine "true" (Quote.single.enclose s) ++ "\n" ++ drawingLine "true" =
        "set true = ' it's \"a\\n\" = \x7b b)\t'\ndisplay(true)" ∧
      let (after, run, report) :=
        i.run (bindingLine "true" (Quote.single.enclose s) ++ "\n" ++ drawingLine "true")
      run.calls = [Page.place 7 ⟨s, Color.text⟩] ∧
        (∀ other, after.session.vars.get? other =
          if other = "true" then some (.string s) else i.session.vars.get? other) ∧
        report = ⟨2, 1, 0⟩ := by
  intro i s
  have hbuiltins : i.commands.HasBuiltins :=
    Builtin.hasBuiltins_commands.insert (by decide) (by decide) _
  have hclear : '\n' ∉ s.toList := by decide +kernel
  have hopen : '(' ∉ s.toList := by decide +kernel
  exact ⟨hbuiltins, by decide +kernel, hclear, hopen, by decide +kernel,
    run_enclosed hbuiltins (by decide +kernel) .single hclear hopen⟩

end CanvasScript
