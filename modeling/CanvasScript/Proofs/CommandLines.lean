/-
Lines that draw an expression and lines that bind a name, as scripts have them.

Which command gets a line is decided by its keyword, so a run depends on the commands only through
those of the lines that it executes (`executeFrom_congr`). What is said here of scripts made from
the two words of the language therefore holds for every interpreter that has their commands under
them, whatever other commands it has.

A drawing is what stands between the parentheses that begin and end it, whatever parentheses there
are inside. A binding must not have an opening parenthesis at all, since its keyword would go up to
there; apart from that and from line feeds its value may hold anything.
-/
import CanvasScript.Proofs.BindingPattern
import CanvasScript.Proofs.Paging
import CanvasScript.Proofs.ParserGrammar
import CanvasScript.Proofs.ScriptLines

set_option autoImplicit false

namespace CanvasScript

/-! ## Commands that a run does not call -/

/-- **A run depends only on the commands of the lines that it executes.** Lines that a literal takes
may have the keyword of any other command, as nothing looks it up. -/
theorem executeFrom_congr {table other : CommandTable} {stream : LineStream} {index : Nat}
    {session : Session} {remaining : List String}
    (h : ∀ step ∈ (executeFrom table stream index session remaining).steps,
      (keyword? step.line).bind other.get? = (keyword? step.line).bind table.get?) :
    executeFrom other stream index session remaining =
      executeFrom table stream index session remaining := by
  revert h
  refine executeFrom_induction table stream (motive := fun index session remaining run =>
    (∀ step ∈ run.steps,
      (keyword? step.line).bind other.get? = (keyword? step.line).bind table.get?) →
    executeFrom other stream index session remaining = run) ?_ ?_ index session remaining
  · intro index session _
    exact executeFrom_nil other stream index session
  · intro index session line rest run step ih h
    -- the first line has the same command in both tables, and so the rest starts from one session
    have hhandler := h step List.mem_cons_self
    have hresult :
        executeLine other ⟨line, stream.lines, stream.braces, index⟩ session = step.result := by
      change executeLine other _ session = executeLine table _ session
      simp only [executeLine, dispatch]
      rw [show (keyword? line).bind other.get? = (keyword? line).bind table.get? from hhandler]
    have hmore := ih fun later hlater => h later (List.mem_cons_of_mem _ hlater)
    rw [executeFrom_cons]
    dsimp only
    rw [hresult]
    exact congrArg (Run.cons step) hmore

/-- Both words of the language have their commands. -/
structure CommandTable.HasBuiltins (table : CommandTable) : Prop where
  set : table.get? "set" = some Builtin.set
  display : table.get? "display" = some Builtin.display

/-- The commands of the language are such a table, with nothing else in it. -/
theorem Builtin.hasBuiltins_commands : CommandTable.HasBuiltins Builtin.commands where
  set := by rw [Builtin.get?_commands, if_neg (by decide), if_pos rfl]
  display := by rw [Builtin.get?_commands, if_pos rfl]

/-- A table keeps them when another word gets a command. -/
theorem CommandTable.HasBuiltins.insert {table : CommandTable} (h : table.HasBuiltins)
    {keyword : String} (hset : "set" ≠ keyword) (hdisplay : "display" ≠ keyword)
    (handler : Handler) : CommandTable.HasBuiltins (table.insert keyword handler) where
  set := by rw [Keyed.get?_insert, if_neg hset, h.set]
  display := by rw [Keyed.get?_insert, if_neg hdisplay, h.display]

/-- A script of lines with the two words comes to the effects of its lines, whatever other commands
there are. So what is known of runs with the commands of the language holds of runs with more. -/
theorem run_of_hasBuiltins {i : Interpreter} (hbuiltins : i.commands.HasBuiltins) {source : String}
    {lines : List String} (hlines : LineStream.linesOf source = lines)
    (hwords : ∀ line ∈ lines, keyword? line = some "set" ∨ keyword? line = some "display") :
    let run := replay 0 i.session (effects i.session.vars lines)
    i.run source =
      (⟨i.commands, run.session⟩, run, ⟨lines.length, run.calls.length, run.errors⟩) := by
  intro run
  have hrun : execute i.commands (.ofSource source) i.session = run := by
    -- the run with the commands of the language is known, and its lines have commands that are in
    -- both
    have hbuiltin := runScript_builtin i.session source
    rw [hlines] at hbuiltin
    refine Eq.trans (executeFrom_congr fun step hstep => ?_) hbuiltin
    -- every executed line is one of the script, and has one of the two words
    have hline := (step_of_mem_executeFrom Builtin.commands (.ofSource source) 0 i.session hstep).1
    have hmem : step.line ∈ LineStream.linesOf source := List.mem_of_getElem? hline
    rcases hwords step.line (hlines ▸ hmem) with hset | hdisplay
    · rw [hset, Option.bind_some, Option.bind_some, hbuiltins.set,
        Builtin.hasBuiltins_commands.set]
    · rw [hdisplay, Option.bind_some, Option.bind_some, hbuiltins.display,
        Builtin.hasBuiltins_commands.display]
  have hsize : (LineStream.ofSource source).size = lines.length := congrArg List.length hlines
  rw [Interpreter.run, hrun, Run.report, hsize]

/-! ## The lines -/

/-- The line that draws an expression. -/
def drawingLine (expr : String) : String := "display(" ++ expr ++ ")"

/-- The line that binds a name to the value that a text is read as. -/
def bindingLine (name value : String) : String := "set " ++ name ++ " = " ++ value

/-- A text that can stand on the line of a binding as its value, and is not continued on others. -/
structure IsInlineValue (value : String) : Prop where
  bounded : Text.IsBounded value.toList
  no_lineFeed : '\n' ∉ value.toList
  /-- An opening parenthesis would make everything before it the keyword. -/
  no_parenthesis : '(' ∉ value.toList
  no_object : Literal.startsObject value.toList = false

theorem toList_drawingLine (expr : String) :
    (drawingLine expr).toList = "display".toList ++ '(' :: (expr.toList ++ [')']) := by
  simp [drawingLine]

/-- The characters of a binding: the word, the name, and the value behind an equals sign. -/
theorem toList_bindingLine (name value : String) :
    (bindingLine name value).toList =
      "set ".toList ++ (name.toList ++ ' ' :: '=' :: ' ' :: value.toList) := by
  simp [bindingLine]

/-! ### Names -/

/-- All characters of a name go on with a name. -/
theorem isNameChar_of_isName {name : String} (h : isName name = true) :
    ∀ c ∈ name.toList, Lexer.isNameChar c = true := by
  obtain ⟨first, more, hchars, hstart, hmore⟩ := Lexer.exists_of_isName h
  rw [hchars]
  refine List.forall_mem_cons.2 ⟨?_, hmore⟩
  rw [Lexer.isNameStart, Bool.or_eq_true] at hstart
  rw [Lexer.isNameChar, Char.isAlphanum, Bool.or_eq_true, Bool.or_eq_true]
  exact hstart.imp_left .inl

/-- A character that does not go on with names is in none. -/
theorem not_mem_of_isName {name : String} (h : isName name = true) {c : Char}
    (hc : Lexer.isNameChar c = false) : c ∉ name.toList := by
  intro hmem
  rw [isNameChar_of_isName h c hmem] at hc
  exact absurd hc (by decide)

/-- A name has no blanks at its ends, as it has none at all. -/
theorem isBounded_of_isName {name : String} (h : isName name = true) :
    Text.IsBounded name.toList := by
  refine Text.isBounded_of_not_blank ?_ fun c hc => ?_
  · obtain ⟨first, more, hchars, -⟩ := Lexer.exists_of_isName h
    rw [hchars]
    exact List.cons_ne_nil _ _
  · by_contra hblank
    have happart : Apart [c] := .cons (eq_true_of_ne_false hblank) []
    have hends := Lexer.ends_isNameChar_of_apart happart c rfl
    exact not_mem_of_isName h hends hc

/-- A name is a word of the pattern of bindings. -/
theorem word?_of_isName {name : String} (h : isName name = true) :
    Pattern.word? name.toList = some name.toList := by
  obtain ⟨hne, htrim⟩ := Text.isBounded_iff.1 (isBounded_of_isName h)
  rw [Pattern.word?, htrim, if_pos]
  rw [Bool.and_eq_true, List.all_eq_true]
  exact ⟨by simpa using hne, isNameChar_of_isName h⟩

/-! ### As lines of a script -/

namespace LineStream

/-- A text without line feeds and without blanks at its ends is a line of a script as it is. -/
theorem isLine_of_isBounded {line : String} (h : Text.IsBounded line.toList)
    (hclear : '\n' ∉ line.toList) : IsLine line :=
  ⟨(Text.isBounded_iff.1 h).1, hclear, (Text.isBounded_iff.1 h).2⟩

/-- A drawing is a line, since it ends with a parenthesis. -/
theorem isLine_drawingLine {expr : String} (hclear : '\n' ∉ expr.toList) :
    IsLine (drawingLine expr) := by
  have hword : Text.IsBounded "display".toList := ⟨'d', 'y', rfl, rfl, rfl, rfl⟩
  have hend : Text.IsBounded [')'] := ⟨')', ')', rfl, rfl, by decide, by decide⟩
  refine isLine_of_isBounded ?_ ?_
  · have hbounded := hword.append ('(' :: expr.toList) hend
    rw [List.append_assoc, List.cons_append, ← toList_drawingLine] at hbounded
    exact hbounded
  · rw [toList_drawingLine]
    simp [hclear]

/-- A binding is one, if its value ends with no blank. -/
theorem isLine_bindingLine {name value : String} (hname : isName name = true)
    (hvalue : IsInlineValue value) : IsLine (bindingLine name value) := by
  have hword : Text.IsBounded "set".toList := ⟨'s', 't', rfl, rfl, rfl, rfl⟩
  have hclear := not_mem_of_isName hname (c := '\n') rfl
  refine isLine_of_isBounded ?_ ?_
  · have hbounded := hword.append (' ' :: (name.toList ++ [' ', '=', ' '])) hvalue.bounded
    rw [toList_bindingLine]
    simpa using hbounded
  · rw [toList_bindingLine]
    simp [hclear, hvalue.no_lineFeed]

/-- A script of one line has that line and no other. -/
theorem linesOf_of_isLine {line : String} (h : IsLine line) : linesOf line = [line] := by
  have hlines : linesOf ("\n".intercalate [line]) = [line] :=
    linesOf_intercalate (List.forall_mem_singleton.2 h)
  rwa [String.intercalate_singleton] at hlines

end LineStream

/-- The keyword of a drawing goes up to its first parenthesis, which is the one behind the word. -/
theorem keyword?_drawingLine (expr : String) : keyword? (drawingLine expr) = some "display" := by
  have hword : ∀ c ∈ "display".toList, (c == '(') = false := by simp
  rw [keyword?, toList_drawingLine, Text.cutFirst?_append hword rfl]
  rfl

/-- Without a parenthesis, a line has a keyword if the word of bindings and a space begin it. The
other way to have one is a word in front of a parenthesis. -/
theorem keyword?_of_no_parenthesis {line : String} (h : '(' ∉ line.toList) :
    keyword? line = if "set ".toList <+: line.toList then some "set" else none := by
  have hnone : Text.cutFirst? (· == '(') line.toList = none := by
    rw [Text.cutFirst?_eq_none_iff]
    intro c hc
    rw [beq_eq_false_iff_ne]
    rintro rfl
    exact h hc
  have hspace : (Text.after? "set ".toList line.toList).isSome = true ↔
      "set ".toList <+: line.toList := by
    rw [Option.isSome_iff_exists]
    exact exists_congr fun rest => Text.after?_eq_some_iff.trans eq_comm
  rw [keyword?, hnone]
  exact if_congr hspace rfl rfl

/-- A binding has the keyword of bindings if there is no parenthesis in it. -/
theorem keyword?_bindingLine {name value : String} (hname : isName name = true)
    (hvalue : IsInlineValue value) : keyword? (bindingLine name value) = some "set" := by
  have hclosed : '(' ∉ (bindingLine name value).toList := by
    rw [toList_bindingLine]
    simp [not_mem_of_isName hname (c := '(') rfl, hvalue.no_parenthesis]
  rw [keyword?_of_no_parenthesis hclosed, if_pos ⟨_, (toList_bindingLine name value).symm⟩]

/-! ### What the lines come to -/

/-- A drawing shows the text of the value, and takes no lines. The expression may have parentheses
in it, as the one that ends it is the last of the line. -/
theorem effectOf_drawingLine {vars : Bindings} {expr : String} {v : Value}
    (hclear : '\n' ∉ expr.toList) (htrim : Text.trim expr.toList = expr.toList)
    (hvalue : evaluateText vars expr = .ok v) (rest : List String) :
    effectOf vars (drawingLine expr) rest = .shows v.text := by
  have hopened : Text.after? "display(".toList (drawingLine expr).toList =
      some (expr.toList ++ [')']) := by
    rw [Text.after?_eq_some_iff, toList_drawingLine]
    rfl
  -- the last parenthesis is the one behind the expression
  have hinside : Text.beforeFinal? ')' (expr.toList ++ [')']) = some expr.toList :=
    Text.beforeFinal?_eq_some_iff.2 rfl
  have hexpr : Pattern.drawing? (drawingLine expr).toList = some expr.toList := by
    have hcontains : expr.toList.contains '\n' = false := by simpa using hclear
    rw [Pattern.drawing?, hopened]
    simp only [Option.bind_eq_bind, Option.bind_some, hinside, hcontains, htrim, Bool.not_false,
      guard_true, Option.pure_def]
  rw [effectOf_eq_shows_iff]
  refine ⟨keyword?_drawingLine expr, ?_⟩
  rw [Builtin.readDrawing, hexpr]
  dsimp only
  rw [String.ofList_toList, hvalue]

/-- A binding binds its name to the value, and takes no lines if the value is all on its own line.
-/
theorem effectOf_bindingLine {vars : Bindings} {name value : String} {v : Value}
    (hname : isName name = true) (hvalue : IsInlineValue value)
    (hread : ∀ line, Literal.readValue vars line value.toList = .ok v) (rest : List String) :
    effectOf vars (bindingLine name value) rest = .binds name v 0 := by
  have hbinding : Pattern.binding? (bindingLine name value).toList =
      some (name.toList, value.toList) := by
    rw [toList_bindingLine, Pattern.binding?_value (not_mem_of_isName hname rfl) hvalue.no_lineFeed
      hvalue.bounded, word?_of_isName hname]
    rfl
  rw [effectOf_eq_binds_iff, readBinding_front_eq_ok_iff]
  refine ⟨keyword?_bindingLine hname hvalue, name.toList, value.toList, ⟨value, 0⟩, hbinding, ?_,
    hread _, String.ofList_toList, rfl⟩
  rw [hvalue.no_object, String.ofList_toList]
  rfl

/-- A name is evaluated to what it stands for. -/
theorem evaluateText_name {name : String} (hname : isName name = true) (vars : Bindings) :
    evaluateText vars name = vars.valueOf name := by
  have htokens : Lexer.tokens (textOfTokens [.identifier name]).toList = .ok [.identifier name] :=
    Lexer.tokens_textOfTokens (List.forall_mem_singleton.2 hname)
  exact Parser.evaluateText_of_phrase htokens (.name name) (Nat.zero_le _) vars

/-! ## Scripts of such lines -/

/-- **A drawing draws the value of its expression**, and does nothing else. The call is at the next
place, in the color of texts, and the report counts one line. -/
theorem run_drawingLine {i : Interpreter} (hbuiltins : i.commands.HasBuiltins) {expr : String}
    {v : Value} (hclear : '\n' ∉ expr.toList) (htrim : Text.trim expr.toList = expr.toList)
    (hvalue : evaluateText i.session.vars expr = .ok v) :
    let (after, run, report) := i.run (drawingLine expr)
    run.calls = [Page.place i.session.shown ⟨v.text, Color.text⟩] ∧
      after.session = ⟨i.session.vars, i.session.shown + 1⟩ ∧ report = ⟨1, 1, 0⟩ := by
  have hlines := LineStream.linesOf_of_isLine (LineStream.isLine_drawingLine hclear)
  have hwords : ∀ line ∈ [drawingLine expr],
      keyword? line = some "set" ∨ keyword? line = some "display" :=
    List.forall_mem_singleton.2 (.inr (keyword?_drawingLine expr))
  rw [run_of_hasBuiltins hbuiltins hlines hwords, effects_cons,
    effectOf_drawingLine hclear htrim hvalue, List.drop_nil, effects_nil]
  exact ⟨rfl, rfl, rfl⟩

/-- What a script comes to that binds a name and draws it. -/
structure BindsAndDraws (name : String) (v : Value) (before after : Session) (run : Run)
    (report : Report) : Prop where
  calls_eq : run.calls = [Page.place before.shown ⟨v.text, Color.text⟩]
  shown_eq : after.shown = before.shown + 1
  get?_eq : ∀ other, after.vars.get? other = if other = name then some v else before.vars.get? other
  report_eq : report = ⟨2, 1, 0⟩

/-- **A binding and then a drawing of the name draw the value that was bound**, and nothing else.
The value is on one line, and what it is read as does not depend on the line it is quoted with. -/
theorem run_bindingLine {i : Interpreter} (hbuiltins : i.commands.HasBuiltins)
    {name value : String} {v : Value} (hname : isName name = true) (hvalue : IsInlineValue value)
    (hread : ∀ line, Literal.readValue i.session.vars line value.toList = .ok v) :
    let (after, run, report) := i.run (bindingLine name value ++ "\n" ++ drawingLine name)
    BindsAndDraws name v i.session after.session run report := by
  have hclear : '\n' ∉ name.toList := not_mem_of_isName hname rfl
  have htrim := (Text.isBounded_iff.1 (isBounded_of_isName hname)).2
  have hlines : LineStream.linesOf (bindingLine name value ++ "\n" ++ drawingLine name) =
      [bindingLine name value, drawingLine name] := by
    rw [LineStream.linesOf_append,
      LineStream.linesOf_of_isLine (LineStream.isLine_bindingLine hname hvalue),
      LineStream.linesOf_of_isLine (LineStream.isLine_drawingLine hclear), List.singleton_append]
  have hwords : ∀ line ∈ [bindingLine name value, drawingLine name],
      keyword? line = some "set" ∨ keyword? line = some "display" :=
    List.forall_mem_cons.2 ⟨.inl (keyword?_bindingLine hname hvalue),
      List.forall_mem_singleton.2 (.inr (keyword?_drawingLine name))⟩
  -- a binding comes before what the name stands for otherwise, be it an earlier one or a boolean
  have hdrawn : evaluateText (i.session.vars.insert name v) name = .ok v := by
    rw [evaluateText_name hname, Bindings.valueOf, Keyed.get?_insert, if_pos rfl]
  have heffects : effects i.session.vars [bindingLine name value, drawingLine name] =
      [(bindingLine name value, .binds name v 0), (drawingLine name, .shows v.text)] := by
    rw [effects_cons, effectOf_bindingLine hname hvalue hread, LineEffect.consumed, List.drop_zero,
      LineEffect.varsAfter, effects_cons, effectOf_drawingLine hclear htrim hdrawn, List.drop_nil,
      effects_nil]
  rw [run_of_hasBuiltins hbuiltins hlines hwords, heffects]
  exact ⟨rfl, rfl, fun other => Keyed.get?_insert i.session.vars name other v, rfl⟩

end CanvasScript
