/-
What a command changes, and what it leaves alone.

A command answers with all that it does, and its answer may hold anything: texts in front of a
failure, or other bindings. The two commands of the language never answer so. They read the whole
of what they need first, with the bindings as they are, and any of it can fail; only then does one
of them bind its name and the other draw its text. A command that fails without a trace is called
atomic here, and a run with atomic commands answers a failing line with its error line and nothing
else.

Other commands do not matter to a script that does not call them. A run looks a command up only for
the keywords of the lines that it executes, and not for those of lines that a command has taken.

So there are two statements about two commands here, and one about all tables.
`set_and_display_atomic` takes any input that a command can be given, also one in which the line,
the lines, the brace index and the index do not belong together, since nothing keeps a command from
being called so. `run_register` compares two whole runs, and its condition is on the lines that the
first one executes, not on those that are in the script.
-/
import CanvasScript.Proofs.BindingDispatch
import CanvasScript.Proofs.ClosingText
import CanvasScript.Proofs.CommandLines

set_option autoImplicit false

namespace CanvasScript

/-! ## Replies in a session -/

namespace Reply

/-- The draw calls of a reply: its texts, in the next places. -/
def calls (session : Session) (reply : Reply) : List DrawCall :=
  Page.placeAll session.shown reply.drawn

/-- The session after a reply. -/
def after (session : Session) (reply : Reply) : Session :=
  ⟨reply.vars, session.shown + reply.drawn.length⟩

end Reply

/-! ## Commands that fail without a trace -/

/-- A command that draws nothing and leaves the session as it is whenever it fails. -/
def Handler.IsAtomic (handler : Handler) : Prop :=
  ∀ input session fault, (handler input session).outcome = .error fault →
    (handler input session).drawn = [] ∧ (handler input session).vars = session.vars

/-- A table all of whose commands are atomic, under whatever keywords. -/
def CommandTable.IsAtomic (table : CommandTable) : Prop :=
  ∀ keyword handler, table.get? keyword = some handler → Handler.IsAtomic handler

/-- A line without a command fails without a trace too. -/
theorem isAtomic_dispatch {table : CommandTable} (h : table.IsAtomic) :
    Handler.IsAtomic (dispatch table) := by
  intro input session fault hfault
  rw [dispatch] at hfault ⊢
  rcases hfound : (keyword? input.line).bind table.get? with _ | handler
  · exact ⟨rfl, rfl⟩
  · rw [hfound] at hfault
    obtain ⟨keyword, -, hget⟩ := Option.bind_eq_some_iff.1 hfound
    exact h keyword handler hget input session fault hfault

/-- What a line does that fails: it draws one error line in the next place, leaves the bindings
alone, and takes no other lines. -/
structure Step.IsErrorLine (step : Step) (fault : ScriptError) : Prop where
  calls_eq : step.calls = [Page.place step.before.shown (errorLine fault)]
  after_eq : step.before.after step.result = ⟨step.before.vars, step.before.shown + 1⟩
  next_eq : step.next = step.index + 1

/-- A line whose command fails without a trace does nothing but draw its error line in the next
place. A command may draw before it fails; that this one has not is what it is to fail without a
trace. -/
theorem Step.isErrorLine_ofCommand {table : CommandTable} (h : table.IsAtomic)
    (stream : LineStream) (index : Nat) (session : Session) (line : String)
    (hfailed : (Step.ofCommand table stream index session line).result.failed = true) :
    ∃ fault, (Step.ofCommand table stream index session line).IsErrorLine fault := by
  let input : CommandInput := ⟨line, stream.lines, stream.braces, index⟩
  rcases houtcome : (dispatch table input session).outcome with fault | consumed
  · -- nothing stands in front of the error line, and it is drawn with the bindings as they were
    obtain ⟨hdrawn, hvars⟩ := isAtomic_dispatch h input session fault houtcome
    have hresult : executeLine table input session =
        ⟨[errorLine fault], session.vars,
          .dispatched index line :: (dispatch table input session).events ++
            [.lineFailed index fault], 0, true⟩ := by
      rw [executeLine, houtcome, hdrawn, hvars]
      rfl
    refine ⟨fault, ?_⟩
    rw [Step.ofCommand, hresult]
    exact ⟨rfl, rfl, rfl⟩
  · have hresult : (executeLine table input session).failed = false := by
      rw [executeLine, houtcome]
    exact absurd (hfailed.symm.trans hresult) (by decide)

/-- In every run with atomic commands, a line that fails does nothing but draw its error line. -/
theorem isErrorLine_of_failed {table : CommandTable} (h : table.IsAtomic) {stream : LineStream}
    {session : Session} {step : Step} (hstep : step ∈ (execute table stream session).steps)
    (hfailed : step.result.failed = true) : ∃ fault, step.IsErrorLine fault := by
  obtain ⟨-, hcommand⟩ := step_of_mem_executeFrom table stream 0 session hstep
  rw [hcommand] at hfailed ⊢
  exact Step.isErrorLine_ofCommand h stream step.index step.before step.line hfailed

/-! ## The commands of the language -/

namespace Bindings

/-- One name is bound, anew or instead of an earlier value, and the others are as they were. -/
structure Rebinds (before after : Bindings) (name : String) (v : Value) : Prop where
  bound : after.get? name = some v
  others : ∀ other, other ≠ name → after.get? other = before.get? other
  keys_eq : after.keys = if name ∈ before.keys then before.keys else before.keys ++ [name]

/-- To bind a name is to rebind that name and no other. -/
theorem rebinds_insert (vars : Bindings) (name : String) (v : Value) :
    Rebinds vars (vars.insert name v) name v where
  bound := by rw [Keyed.get?_insert, if_pos rfl]
  others other hne := by rw [Keyed.get?_insert, if_neg hne]
  keys_eq := Keyed.keys_insert vars name v

end Bindings

namespace Builtin

/-- What the command for bindings answers: it draws nothing, and it binds one name or none. -/
structure IsBinding (input : CommandInput) (session : Session) (reply : Reply) : Prop where
  calls_eq : reply.calls session = []
  shown_eq : (reply.after session).shown = session.shown
  of_error : ∀ fault, reply.outcome = .error fault → (reply.after session).vars = session.vars
  /-- The name is the one on the line, and its value is read with the bindings before. -/
  of_ok : ∀ consumed, reply.outcome = .ok consumed →
    ∃ word value literal v,
      Pattern.binding? input.line.toList = some (word, value) ∧
      wholeLiteral input value = .ok literal ∧ literal.consumed = consumed ∧
      Literal.readValue session.vars input.line literal.text.toList = .ok v ∧
      session.vars.Rebinds (reply.after session).vars (String.ofList word) v

/-- What the command for drawings answers: it binds nothing, and it draws one text or none. -/
structure IsDrawing (input : CommandInput) (session : Session) (reply : Reply) : Prop where
  vars_eq : (reply.after session).vars = session.vars
  of_error : ∀ fault, reply.outcome = .error fault →
    reply.calls session = [] ∧ (reply.after session).shown = session.shown
  /-- The text is the value of the expression on the line. -/
  of_ok : ∀ consumed, reply.outcome = .ok consumed →
    consumed = 0 ∧ (reply.after session).shown = session.shown + 1 ∧
      ∃ expr v, Pattern.drawing? input.line.toList = some expr ∧
        evaluateText session.vars (String.ofList expr) = .ok v ∧
        reply.calls session = [Page.place session.shown ⟨v.text, Color.text⟩]

/-- The command for bindings draws nothing, whether it fails or not. -/
theorem drawn_set (input : CommandInput) (session : Session) :
    (set input session).drawn = [] := by
  rw [set]
  rcases readBinding input session.vars with fault | ⟨name, v, consumed⟩
  · rfl
  · rfl

/-- If it fails, it has done nothing else. -/
theorem set_of_error {input : CommandInput} {session : Session} {fault : ScriptError}
    (h : (set input session).outcome = .error fault) :
    set input session = .failure session fault := by
  rw [set, set_eq_error_iff.1 h]

/-- What the command for bindings answers is a binding, for any input and session. It draws nothing
in any case, and binds exactly one name if it succeeds. -/
theorem isBinding_set (input : CommandInput) (session : Session) :
    IsBinding input session (set input session) where
  calls_eq := by rw [Reply.calls, drawn_set, Page.placeAll]
  shown_eq := by rw [Reply.after, drawn_set, List.length_nil, Nat.add_zero]
  of_error _ h := by rw [set_of_error h, Reply.after, Reply.failure]
  of_ok consumed h := by
    obtain ⟨name, v, hread, hvars⟩ := set_eq_ok_iff.1 h
    obtain ⟨word, value, literal, hpattern, hliteral, hvalue, rfl, hconsumed⟩ :=
      readBinding_eq_ok_iff.1 hread
    have hrebinds := session.vars.rebinds_insert (String.ofList word) v
    rw [← hvars] at hrebinds
    exact ⟨word, value, literal, v, hpattern, hliteral, hconsumed, hvalue, hrebinds⟩

/-- A drawing is read when its line has the form of one and the expression has a value. -/
theorem readDrawing_eq_ok_iff {line text : String} {vars : Bindings} :
    readDrawing line vars = .ok text ↔
      ∃ expr v, Pattern.drawing? line.toList = some expr ∧
        evaluateText vars (String.ofList expr) = .ok v ∧ v.text = text := by
  rw [readDrawing]
  rcases Pattern.drawing? line.toList with _ | expr
  · simp
  · rcases hvalue : evaluateText vars (String.ofList expr) with reason | v
    · simp [hvalue]
    · simp [hvalue]

/-- If the command for drawings fails, it has done nothing else. -/
theorem display_of_error {input : CommandInput} {session : Session} {fault : ScriptError}
    (h : (display input session).outcome = .error fault) :
    display input session = .failure session fault := by
  rw [display] at h ⊢
  rcases hread : readDrawing input.line session.vars with other | text
  · rw [hread] at h
    obtain rfl : other = fault := Except.error.inj h
    rfl
  · rw [hread] at h
    exact absurd h (by simp [Reply.showing])

/-- What the command for drawings answers is a drawing, for any input and session. -/
theorem isDrawing_display (input : CommandInput) (session : Session) :
    IsDrawing input session (display input session) where
  vars_eq := by
    rw [display]
    rcases readDrawing input.line session.vars with fault | text
    · rfl
    · rfl
  of_error fault h := by
    rw [display_of_error h]
    exact ⟨rfl, rfl⟩
  of_ok consumed h := by
    rw [display] at h ⊢
    -- what is drawn depends on what can be read of the line and its variables, and on nothing else
    rcases hread : readDrawing input.line session.vars with fault | text
    · rw [hread] at h
      exact absurd h (by simp [Reply.failure])
    · rw [hread] at h
      obtain rfl : 0 = consumed := Except.ok.inj h
      obtain ⟨expr, v, hpattern, hvalue, rfl⟩ := readDrawing_eq_ok_iff.1 hread
      exact ⟨rfl, rfl, expr, v, hpattern, hvalue, rfl⟩

/-- A run with the commands of the language is one with atomic commands. Each of them reads all that
it needs before it changes anything. -/
theorem isAtomic_commands : CommandTable.IsAtomic commands := by
  intro keyword handler hget input session fault hfault
  rw [get?_commands] at hget
  split_ifs at hget
  · obtain rfl := Option.some.inj hget
    rw [display_of_error hfault]
    exact ⟨rfl, rfl⟩
  · obtain rfl := Option.some.inj hget
    rw [set_of_error hfault]
    exact ⟨rfl, rfl⟩

/-- **The commands of the language change one thing or nothing**, whatever line, lines, brace index
and index they are given, and in every session. So in a run with these commands, whatever session it
starts in, a line that fails does nothing but draw its error line. -/
theorem set_and_display_atomic (input : CommandInput) (session : Session) :
    IsBinding input session (set input session) ∧
      IsDrawing input session (display input session) ∧
      ∀ stream start step, step ∈ (execute commands stream start).steps →
        step.result.failed = true → ∃ fault, step.IsErrorLine fault :=
  ⟨isBinding_set input session, isDrawing_display input session,
    fun _ _ _ hstep hfailed => isErrorLine_of_failed isAtomic_commands hstep hfailed⟩

/-- A brace index of other lines may place the end of a literal behind the last line. -/
example : set ⟨"set p = \x7b", ["set p = \x7b"], .ofLines ["\x7b", "\x7d"], 0⟩ .fresh =
    .failure .fresh (.malformedObject "set p = \x7b") := set_of_error (by decide)

end Builtin

/-! ## Commands for other keywords -/

/-- Another command leaves a run as it is when no executed line has its keyword. Looking up any
other keyword gives what it gave before. -/
theorem execute_insert {table : CommandTable} {stream : LineStream} {session : Session}
    {keyword : String}
    (h : ∀ step ∈ (execute table stream session).steps, keyword? step.line ≠ some keyword)
    (handler : Handler) :
    execute (table.insert keyword handler) stream session = execute table stream session := by
  refine executeFrom_congr fun step hstep => ?_
  have hother := h step hstep
  rcases hkeyword : keyword? step.line with _ | other
  · rfl
  · -- the look-up is for another keyword, in both tables alike
    have hne : other ≠ keyword := fun heq => hother (hkeyword.trans (congrArg some heq))
    rw [Option.bind_some, Option.bind_some, Keyed.get?_insert, if_neg hne]

namespace Interpreter

/-- **A command that a script does not call makes no difference to it.** With a command registered
for a keyword that no executed line has, whether or not there was one for it, the run has the same
steps, and so the same draw calls and log events, it has the same report, and it leaves the same
bindings and the same count of drawn lines. -/
theorem run_register (i : Interpreter) {keyword source : String}
    (h : ∀ step ∈ (i.run source).2.1.steps, keyword? step.line ≠ some keyword)
    (handler : Handler) :
    (i.register keyword handler).run source =
      ((i.run source).1.register keyword handler, (i.run source).2) := by
  have hsame : execute (i.commands.insert keyword handler) (.ofSource source) i.session =
      execute i.commands (.ofSource source) i.session := execute_insert h handler
  simp only [run, register, hsame]

/-- A line of a literal is taken by the binding before it, so its keyword is looked up nowhere. -/
theorem run_register_in_literal :
    let source := "set p = \x7b\nnote(1): 2\x7d\ndisplay(p)"
    let note : Handler := fun _ session => .showing session "note" Color.text
    (∀ step ∈ (fresh.run source).2.1.steps, keyword? step.line ≠ some "note") ∧
      (fresh.register "note" note).run source =
        ((fresh.run source).1.register "note" note, (fresh.run source).2) := by
  intro source note
  have hunused : ∀ step ∈ (fresh.run source).2.1.steps, keyword? step.line ≠ some "note" := by
    decide +kernel
  exact ⟨hunused, run_register fresh hunused note⟩

end Interpreter

end CanvasScript
