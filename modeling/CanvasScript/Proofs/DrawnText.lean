/-
Dumps of runs.

A run draws the values of expressions and the messages for failed lines. A message quotes a line,
or a part of one, and no line holds a line feed; neither does a variable, whatever was run before.
So the only way to a drawn text with a line feed is the escape for it in a string of an
expression, and the dump of a script without this escape can always be cut into its draw calls.
With the escape it cannot: one call can be written like two.

The proof follows the texts backwards. An error line quotes its fault, a fault quotes its line or an
entry of a literal, and a literal is put together from lines (`lineFeed_not_mem_quoted`). A shown
text is that of a value, and a value has what is in the expression and in the variables. That
variables have no line feeds is an invariant of all runs, and it holds whether scripts have the
escape or not: the text of a binding is taken as it stands, so an escape in it is two characters.
-/
import CanvasScript.Proofs.DumpText
import CanvasScript.Proofs.JoinedLines
import CanvasScript.Proofs.LineFeeds

set_option autoImplicit false

namespace CanvasScript

/-! ## Messages -/

/-- The text that the message for a cause quotes. -/
def ScriptError.quoted : ScriptError → String
  | .surfaceUnavailable target => target
  | .unknownCommand line => line
  | .invalidSetSyntax line => line
  | .malformedObject line => line
  | .invalidPair pair => pair
  | .invalidValue line => line
  | .invalidDisplaySyntax line => line
  | .evaluation expr _ => expr

/-- The message of a fault has no line feed unless what it quotes has one. -/
theorem lineFeed_not_mem_errorLine {fault : ScriptError} (h : '\n' ∉ fault.quoted.toList) :
    '\n' ∉ (errorLine fault).text.toList := by
  have hlead : '\n' ∉ errorLead.toList := by decide
  refine lineFeed_not_mem_append hlead ?_
  cases fault <;> exact lineFeed_not_mem_append (by decide) h

namespace Literal

variable {vars : Bindings} {line : String} {fault : ScriptError}

/-- What is quoted when an entry cannot be read is the line, or the entry. Which of the two depends
on what is wrong with it. -/
theorem quoted_of_readEntry {pair : List Char} (h : readEntry vars line pair = .error fault) :
    fault.quoted = line ∨ fault.quoted = String.ofList pair := by
  rw [readEntry] at h
  split at h
  · obtain rfl := Except.error.inj h
    exact .inr rfl
  · dsimp only at h
    split at h
    · obtain rfl := Except.error.inj h
      exact .inr rfl
    · split at h
      · exact absurd h (by simp)
      · obtain rfl := Except.error.inj h
        exact .inl rfl

/-- And for several entries, it is the line or one of them. -/
theorem quoted_of_readEntries {pairs : List (List Char)}
    (h : readEntries vars line pairs = .error fault) :
    fault.quoted = line ∨ ∃ pair ∈ pairs, fault.quoted = String.ofList pair := by
  induction pairs with
  | nil => exact absurd h (by simp [readEntries])
  | cons pair rest ih =>
    rw [readEntries] at h
    -- the first entry that fails is the one that is quoted, and those before it do not count
    rcases hfirst : readEntry vars line pair with fault' | entry
    · simp only [hfirst, Except.error.injEq] at h
      subst h
      exact (quoted_of_readEntry hfirst).imp_right fun hpair => ⟨pair, List.mem_cons_self, hpair⟩
    · rcases hrest : readEntries vars line rest with fault' | entries
      · simp only [hfirst, hrest, Except.map, Except.error.injEq] at h
        subst h
        refine (ih hrest).imp_right ?_
        rintro ⟨other, hother, hquoted⟩
        exact ⟨other, List.mem_cons_of_mem _ hother, hquoted⟩
      · simp [hfirst, hrest, Except.map] at h

/-- A fault in a value quotes its line, or a part of the value. A part is an entry, and an entry is
cut from between the braces, so its characters are characters of the value. -/
theorem quoted_of_readValue {text : List Char} (h : readValue vars line text = .error fault) :
    fault.quoted = line ∨ fault.quoted.toList ⊆ text := by
  rw [readValue] at h
  split at h
  · rw [readObject] at h
    rcases hbody : body? text with _ | body
    · simp only [hbody, Except.map, Except.error.injEq] at h
      subst h
      exact .inl rfl
    · rcases hentries : readEntries vars line (pieces body) with fault' | entries
      · simp only [hbody, hentries, Except.map, Except.error.injEq] at h
        subst h
        refine (quoted_of_readEntries hentries).imp_right ?_
        rintro ⟨piece, hpiece, hquoted⟩
        obtain ⟨part, hpart, rfl⟩ := List.mem_map.1 (List.mem_filter.1 hpiece).1
        obtain ⟨before, after, rfl, -, -⟩ := body?_eq_some_iff.1 hbody
        rw [hquoted, String.toList_ofList]
        intro c hc
        have hmem := Text.subset_of_mem_splitOn hpart ((Text.trim_sublist part).subset hc)
        simp [hmem]
      · simp [hbody, hentries, Except.map] at h
  · split at h
    · exact absurd h (by simp)
    · obtain rfl := Except.error.inj h
      exact .inl rfl

end Literal

/-- If a literal cannot be put together, that is quoted with its first line. -/
theorem Gathered.eq_malformedObject_of_fromRest {value line : String} {rest : List String}
    {fault : ScriptError} (h : fromRest value line rest = .error fault) :
    fault = .malformedObject line := by
  rw [fromRest] at h
  split at h
  · exact absurd h (by simp)
  · split at h
    · exact (Except.error.inj h).symm
    · split at h
      · exact absurd h (by simp)
      · exact (Except.error.inj h).symm

/-- What a binding that fails on lines without line feeds quotes has none. It quotes its own line,
or an entry of the literal that it has gathered, and gathering joins lines with spaces. -/
theorem lineFeed_not_mem_quoted {vars : Bindings} {line : String} {rest : List String}
    {fault : ScriptError} (hline : '\n' ∉ line.toList)
    (hrest : ∀ other ∈ rest, '\n' ∉ other.toList)
    (h : Builtin.readBinding (.front line rest) vars = .error fault) :
    '\n' ∉ fault.quoted.toList := by
  rw [Builtin.readBinding] at h
  rcases hpattern : Pattern.binding? line.toList with _ | ⟨word, value⟩
  · simp only [CommandInput.front, hpattern, Except.error.injEq] at h
    subst h
    exact hline
  · simp only [CommandInput.front, hpattern, Builtin.wholeLiteral_eq_fromRest] at h
    have hvalue : '\n' ∉ (String.ofList value).toList := by
      rw [String.toList_ofList]
      exact (Pattern.isVariableName_of_binding? hpattern).2
    -- what the literal is gathered from has no line feed, and neither has the literal
    generalize hgathered : (if Literal.startsObject value then
      Gathered.fromRest (String.ofList value) line ((line :: rest).drop (0 + 1))
        else Except.ok ⟨String.ofList value, 0⟩) = gathered at h
    rcases gathered with fault' | literal
    · simp only [Except.bind, Except.error.injEq] at h
      subst h
      split at hgathered
      · rw [Gathered.eq_malformedObject_of_fromRest hgathered]
        exact hline
      · exact absurd hgathered (by simp)
    · have hliteral : '\n' ∉ literal.text.toList := by
        split at hgathered
        · exact Gathered.no_lineFeed_of_fromRest hvalue hrest hgathered
        · obtain rfl := Except.ok.inj hgathered
          exact hvalue
      rcases hread : Literal.readValue vars line literal.text.toList with fault' | v
      · simp only [Except.bind, hread, Except.map, Except.error.injEq] at h
        subst h
        rcases Literal.quoted_of_readValue hread with hquoted | hpart
        · rw [hquoted]
          exact hline
        · exact fun hmem => hliteral (hpart hmem)
      · simp [Except.bind, hread, Except.map] at h

/-! ## Lines -/

/-- What trimming leaves stands in the text. -/
theorem Text.trim_infix (text : List Char) : trim text <:+: text := by
  obtain ⟨before, after, htext, -, -⟩ := exists_trim text
  exact ⟨before, after, by rw [List.append_assoc]; exact htext.symm⟩

/-- The expression of a drawing stands on its line. -/
theorem Pattern.infix_of_drawing? {line expr : List Char} (h : drawing? line = some expr) :
    expr <:+: line := by
  simp only [drawing?, Option.bind_eq_bind, Option.bind_eq_some_iff, Option.pure_def,
    Option.some.injEq, Text.after?_eq_some_iff, Text.beforeFinal?_eq_some_iff] at h
  obtain ⟨opened, rfl, inside, rfl, -, -, rfl⟩ := h
  have hinside : inside <:+: "display(".toList ++ (inside ++ [')']) :=
    ⟨"display(".toList, [')'], by rw [List.append_assoc]⟩
  exact (Text.trim_infix inside).trans hinside

/-- What a drawing that fails on a line without line feeds quotes has none. -/
theorem lineFeed_not_mem_quoted_of_readDrawing {vars : Bindings} {line : String}
    {fault : ScriptError} (hline : '\n' ∉ line.toList)
    (h : Builtin.readDrawing line vars = .error fault) : '\n' ∉ fault.quoted.toList := by
  rw [Builtin.readDrawing] at h
  split at h
  · obtain rfl := Except.error.inj h
    exact hline
  · rename_i expr hexpr
    split at h
    · obtain rfl := Except.error.inj h
      rw [ScriptError.quoted, String.toList_ofList]
      exact fun hmem => hline ((Pattern.infix_of_drawing? hexpr).subset hmem)
    · exact absurd h (by simp)

/-- What a drawing on an unbroken line shows has no line feed. The expression is a part of the line,
so it has no escape for one either. -/
theorem lineFeed_not_mem_of_readDrawing {vars : Bindings} {line text : String}
    (hvars : vars.AreClear) (hline : IsUnbroken line.toList)
    (h : Builtin.readDrawing line vars = .ok text) : '\n' ∉ text.toList := by
  rw [Builtin.readDrawing] at h
  split at h
  · exact absurd h (by simp)
  · rename_i expr hexpr
    split at h
    · exact absurd h (by simp)
    · rename_i v hv
      obtain rfl := Except.ok.inj h
      have hunbroken : IsUnbroken (String.ofList expr).toList := by
        rw [String.toList_ofList]
        exact hline.of_infix (Pattern.infix_of_drawing? hexpr)
      exact (isClear_evaluateText hvars hunbroken hv).text

/-- **A line draws no line feed** when it is unbroken and no variable has one. It draws an error
line, whose fault quotes parts of lines, or the text of a value. -/
theorem lineFeed_not_mem_drawn {vars : Bindings} {line : String} {rest : List String}
    (hvars : vars.AreClear) (hline : IsUnbroken line.toList)
    (hrest : ∀ other ∈ rest, '\n' ∉ other.toList) :
    ∀ emission ∈ (effectOf vars line rest).drawn, '\n' ∉ emission.text.toList := by
  rcases heffect : effectOf vars line rest with fault | text | ⟨name, v, consumed⟩
  · have hquoted : '\n' ∉ fault.quoted.toList := by
      -- a fault is one of a binding or of a drawing, or it is that the line is unknown
      rw [effectOf] at heffect
      split at heffect
      · split at heffect
        · rename_i fault' hread
          obtain rfl := LineEffect.fails.inj heffect
          exact lineFeed_not_mem_quoted hline.no_lineFeed hrest hread
        · exact absurd heffect (by simp)
      · split at heffect
        · split at heffect
          · rename_i fault' hread
            obtain rfl := LineEffect.fails.inj heffect
            exact lineFeed_not_mem_quoted_of_readDrawing hline.no_lineFeed hread
          · exact absurd heffect (by simp)
        · obtain rfl := LineEffect.fails.inj heffect
          exact hline.no_lineFeed
    intro emission hemission
    obtain rfl := List.mem_singleton.1 hemission
    exact lineFeed_not_mem_errorLine hquoted
  · intro emission hemission
    obtain rfl := List.mem_singleton.1 hemission
    exact lineFeed_not_mem_of_readDrawing hvars hline (effectOf_eq_shows_iff.1 heffect).2
  · exact fun emission hemission => absurd hemission List.not_mem_nil

/-! ## Runs -/

/-- A text is not changed by being placed. -/
theorem text_of_mem_placeAll {before : Nat} {drawn : List Emission} {call : DrawCall}
    (h : call ∈ Page.placeAll before drawn) : ∃ emission ∈ drawn, call.text = emission.text := by
  have hmem := List.mem_map_of_mem h (f := DrawCall.emission)
  rw [Page.emissions_placeAll] at hmem
  exact ⟨_, hmem, rfl⟩

/-- **A run draws no line feed** when its lines are unbroken. The invariant is that no variable
holds one, and it is kept without any condition on the lines but that they are lines: a bound text
is a part of lines and escapes mean nothing in it. -/
theorem lineFeed_not_mem_replay (index : Nat) (session : Session) (remaining : List String)
    (hvars : Bindings.IsWellFormed session.vars)
    (hlines : ∀ line ∈ remaining, IsUnbroken line.toList) :
    ∀ call ∈ (replay index session (effects session.vars remaining)).calls,
      '\n' ∉ call.text.toList := by
  revert hvars hlines
  refine run_induction (motive := fun _ session remaining run =>
    Bindings.IsWellFormed session.vars → (∀ line ∈ remaining, IsUnbroken line.toList) →
      ∀ call ∈ run.calls, '\n' ∉ call.text.toList) ?_ ?_ index session remaining
  · intro _ session _ _ call hcall
    exact absurd hcall List.not_mem_nil
  · intro _ session line rest run ih hvars hlines call hcall
    have hrest : ∀ other ∈ rest, IsUnbroken other.toList :=
      fun other hother => hlines other (List.mem_cons_of_mem _ hother)
    have hclear : ∀ other ∈ rest, '\n' ∉ other.toList :=
      fun other hother => (hrest other hother).no_lineFeed
    rw [Run.calls_cons] at hcall
    rcases List.mem_append.1 hcall with hfirst | hlater
    · obtain ⟨emission, hemission, htext⟩ := text_of_mem_placeAll hfirst
      rw [htext]
      exact lineFeed_not_mem_drawn hvars.areClear (hlines line List.mem_cons_self) hclear
        emission hemission
    · exact ih (hvars.varsAfter hclear)
        (fun other hother => hrest other (List.mem_of_mem_drop hother)) call hlater

/-! ## Dumps of runs -/

/-- A script in which no line feed is written as an escape. -/
def EscapesNoLineFeed (source : String) : Prop := ¬ ['\\', 'n'] <:+: source.toList

instance (source : String) : Decidable (EscapesNoLineFeed source) :=
  inferInstanceAs (Decidable (¬ _))

/-- The lines of such a script are unbroken. -/
theorem EscapesNoLineFeed.isUnbroken {source line : String} (h : EscapesNoLineFeed source)
    (hline : line ∈ LineStream.linesOf source) : IsUnbroken line.toList := by
  refine ⟨(LineStream.isLine_of_mem_linesOf hline).no_lineFeed, fun hescape => h ?_⟩
  obtain ⟨text, htext, rfl⟩ := List.mem_map.1 hline
  obtain ⟨piece, hpiece, rfl⟩ := List.mem_map.1 (List.mem_filter.1 htext).1
  rw [String.toList_ofList] at hescape
  exact (hescape.trans (Text.trim_infix piece)).trans (Text.infix_of_mem_splitOn hpiece)

/-- The run of a script on an interpreter that has run others before. -/
def runAfter (earlier : List String) (source : String) : Run :=
  ((Interpreter.fresh.runAll earlier).1.run source).2.1

/-- What is written when a run is drawn on a dump that refuses nothing. -/
def Run.dump (run : Run) : String := (drawAll (⟨.fresh⟩ : Dump) run.calls).1.out.written

/-- Each line of the dump of a run, cut at its first three tabs, gives back a call, in order. -/
def Run.IsDecodable (run : Run) : Prop :=
  Dump.decode run.dump = run.calls.map fun call => some call.parts

/-- The dump of a run is that of its draw calls, on a channel that refuses nothing. -/
theorem Run.dump_eq (run : Run) : run.dump = Dump.dumped run.calls := by
  rw [dump, Dump.drawAll_eq rfl rfl]
  exact String.empty_append

/-- A script without the escape draws no line feed, whatever was run before it. Earlier scripts may
have the escape: they can draw a line feed, but not bind one. -/
theorem lineFeed_not_mem_runAfter (earlier : List String) {source : String}
    (h : EscapesNoLineFeed source) :
    ∀ call ∈ (runAfter earlier source).calls, '\n' ∉ call.text.toList := by
  -- every interpreter has the commands of the language and well-formed variables
  have hreached := Interpreter.runAll_induction
    (motive := fun i => i.commands = Builtin.commands ∧ Bindings.IsWellFormed i.session.vars)
    (i := .fresh) ⟨rfl, Bindings.IsWellFormed.empty⟩ ?_ earlier
  · rw [runAfter]
    generalize (Interpreter.fresh.runAll earlier).1 = i at hreached
    obtain ⟨commands, session⟩ := i
    obtain ⟨rfl, hvars⟩ := hreached
    have hrun := lineFeed_not_mem_replay 0 session (LineStream.linesOf source) hvars
      fun line hline => h.isUnbroken hline
    rw [← runScript_builtin] at hrun
    exact hrun
  · rintro ⟨commands, session⟩ other ⟨rfl, hvars⟩
    have hreplay := isWellFormed_vars_replay 0 session (LineStream.linesOf other) hvars
      fun line hline => (LineStream.isLine_of_mem_linesOf hline).no_lineFeed
    rw [← runScript_builtin] at hreplay
    exact ⟨rfl, hreplay⟩

/-- **The dump of a run can be cut into its draw calls exactly when no drawn text holds a line
feed**, and a script without the escape for one draws none. Runs of such scripts are told apart by
their dumps. Whatever was run before does not matter, as no run leaves a line feed in a variable. -/
theorem isDecodable_runAfter (earlier : List String) (source : String) :
    let run := runAfter earlier source
    (run.IsDecodable ↔ ∀ call ∈ run.calls, '\n' ∉ call.text.toList) ∧
      (EscapesNoLineFeed source → run.IsDecodable ∧
        ∀ earlier' source', EscapesNoLineFeed source' →
          run.dump = (runAfter earlier' source').dump →
            run.calls = (runAfter earlier' source').calls) := by
  intro run
  have hiff : run.IsDecodable ↔ ∀ call ∈ run.calls, '\n' ∉ call.text.toList := by
    rw [Run.IsDecodable, run.dump_eq]
    exact Dump.decode_dumped_iff run.calls
  refine ⟨hiff, fun hescapes => ?_⟩
  have hclear := lineFeed_not_mem_runAfter earlier hescapes
  refine ⟨hiff.2 hclear, fun earlier' source' hescapes' hdump => ?_⟩
  rw [Run.dump_eq, Run.dump_eq] at hdump
  exact Dump.dumped_injective hclear (lineFeed_not_mem_runAfter earlier' hescapes') hdump

/-- A tab in a drawn text, and a variable that an earlier script has bound. -/
theorem isDecodable_runAfter_of_tab :
    let source := "display('a\\tb')\ndisplay(x + 1)"
    EscapesNoLineFeed source ∧ (runAfter ["set x = 2"] source).IsDecodable := by
  intro source
  have hescapes : EscapesNoLineFeed source := by decide +kernel
  exact ⟨hescapes, ((isDecodable_runAfter ["set x = 2"] source).2 hescapes).1⟩

/-- With the escape, one call is written like two. The dumps of two scripts that draw different
calls are then the same, so nothing could be read back from them. -/
theorem not_isDecodable_of_escape :
    let one := runAfter [] "display('a\\n10\\t40\\t#000000\\tb')"
    let two := runAfter [] "display('a')\ndisplay('b')"
    one.dump = two.dump ∧ one.calls.length = 1 ∧ two.calls.length = 2 ∧ ¬ one.IsDecodable := by
  intro one two
  have hdump : one.dump = two.dump := by decide +kernel
  have hone : one.calls.length = 1 := by decide +kernel
  have htwo : two.calls.length = 2 := by decide +kernel
  refine ⟨hdump, hone, htwo, ?_⟩
  unfold Run.IsDecodable
  decide +kernel

end CanvasScript
