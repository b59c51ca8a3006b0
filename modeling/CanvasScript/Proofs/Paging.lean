/-
Where lines are drawn and what is counted, whatever the commands are.

A command answers with texts and cannot place them. The session counts the lines drawn so far,
and that count alone gives the place of the next line, be it one of a value, of some other
command or of an error. So the draw calls of a run are its texts placed one below the other from
the count on (`calls_executeFrom`), the count goes up by as many, and the same holds of runs one
after the other (`calls_runAll`).

What a run executes does not depend on the commands either. A step executes the line at its
index, and the next one comes later whatever the command says it took, so no line is executed
twice. With the commands of the language every failing line, and no other, draws one line in the
color of errors.
-/
import CanvasScript.Proofs.Replay
import CanvasScript.Proofs.WholeNumbers

set_option autoImplicit false

namespace CanvasScript

/-! ## Places on the page -/

namespace Page

/-- Texts are placed by their number: each stands as many places on as there are texts before it. -/
theorem getElem?_placeAll (before n : Nat) (drawn : List Emission) :
    (placeAll before drawn)[n]? = drawn[n]?.map (place (before + n)) := by
  induction drawn generalizing before n with
  | nil => rfl
  | cons emission rest ih =>
    rcases n with _ | n
    · rfl
    · rw [placeAll, List.getElem?_cons_succ, List.getElem?_cons_succ, ih, Nat.add_assoc,
        Nat.add_comm 1]

/-- The line after `before` others stands at a whole number of pixels, as long as these can be
told apart at all. -/
theorem baseline_eq_ofNat {before : Nat} (h : 20 * (before + 1) ≤ twoTo 53) :
    baseline before = .ofNat (20 * (before + 1)) := by
  have htwenty : 20 < twoTo 53 := by decide
  have hproduct : lineHeight.mul (.ofNat before) = .ofNat (20 * before) :=
    Binary64.ofNat_mul_ofNat htwenty (by omega)
  have hsum : firstBaseline.add (.ofNat (20 * before)) = .ofNat (20 + 20 * before) :=
    Binary64.ofNat_add_ofNat htwenty (by omega)
  rw [baseline, hproduct, hsum, Nat.mul_add, Nat.mul_one, Nat.add_comm]

end Page

/-! ## Steps of runs with any commands -/

/-- The step that executes a line of a stream. -/
def Step.ofCommand (table : CommandTable) (stream : LineStream) (index : Nat)
    (session : Session) (line : String) : Step :=
  ⟨index, line, session, executeLine table ⟨line, stream.lines, stream.braces, index⟩ session⟩

section Runs

variable (table : CommandTable) (stream : LineStream)

/-- What holds of the empty run, and of a run with an executed line before it whenever it holds
of the run without, holds of every run of a stream. -/
theorem executeFrom_induction {motive : Nat → Session → List String → Run → Prop}
    (hnil : ∀ index session, motive index session [] ⟨[], session⟩)
    (hcons : ∀ index session line rest run,
      let step := Step.ofCommand table stream index session line
      motive step.next (session.after step.result) (rest.drop step.result.consumed) run →
      motive index session (line :: rest) (run.cons step))
    (index : Nat) (session : Session) (remaining : List String) :
    motive index session remaining (executeFrom table stream index session remaining) := by
  induction remaining using remaining_induction generalizing index session with
  | nil =>
    rw [executeFrom_nil]
    exact hnil index session
  | cons line rest ih =>
    rw [executeFrom_cons]
    exact hcons index session line rest _ (ih _ _ _)

/-- The texts that a run draws, from line to line. -/
def Run.drawn (run : Run) : List Emission := run.steps.flatMap fun step => step.result.drawn

/-- **The draw calls of a run are its texts placed one below the other**, from the count of drawn
lines on, and the count goes up by their number. A line is placed by the session that it is executed
in, and that session knows only the count. -/
theorem calls_executeFrom (index : Nat) (session : Session) (remaining : List String) :
    let run := executeFrom table stream index session remaining
    run.calls = Page.placeAll session.shown run.drawn ∧
      run.session.shown = session.shown + run.drawn.length := by
  refine executeFrom_induction table stream (motive := fun _ session _ run =>
    run.calls = Page.placeAll session.shown run.drawn ∧
      run.session.shown = session.shown + run.drawn.length) ?_ ?_ index session remaining
  · intro index session
    exact ⟨rfl, rfl⟩
  · intro index session line rest run step ih
    -- the later lines go on from the count that the first one leaves
    obtain ⟨hcalls, hshown⟩ := ih
    have hafter : (session.after step.result).shown =
        session.shown + step.result.drawn.length := rfl
    have hdrawn : (run.cons step).drawn = step.result.drawn ++ run.drawn := List.flatMap_cons
    rw [hafter] at hcalls hshown
    refine ⟨?_, ?_⟩
    · rw [Run.calls_cons, hcalls, hdrawn, Page.placeAll_append]
      rfl
    · rw [Run.session_cons, hshown, hdrawn, List.length_append, Nat.add_assoc]

/-- Executed lines come in the order of the script, none of them twice. A command may say that it
took any number of lines, but never that it took fewer than none. -/
theorem increasing_executeFrom (index : Nat) (session : Session) (remaining : List String) :
    let run := executeFrom table stream index session remaining
    (∀ step ∈ run.steps, index ≤ step.index) ∧
      run.steps.Pairwise fun a b => a.index < b.index := by
  refine executeFrom_induction table stream (motive := fun index _ _ run =>
    (∀ step ∈ run.steps, index ≤ step.index) ∧
      run.steps.Pairwise fun a b => a.index < b.index) ?_ ?_ index session remaining
  · intro index session
    exact ⟨by simp, .nil⟩
  · intro index session line rest run step ih
    -- whatever a command says it took, the next index is larger
    obtain ⟨hlater, hincreasing⟩ := ih
    have hnext : index < step.next :=
      Nat.lt_of_lt_of_le (Nat.lt_succ_self index) (Nat.le_add_right _ _)
    refine ⟨?_, ?_⟩
    · intro other hother
      rcases List.mem_cons.1 hother with rfl | hmore
      · exact Nat.le_refl _
      · exact Nat.le_trans (Nat.le_of_lt hnext) (hlater other hmore)
    · refine List.pairwise_cons.2 ⟨?_, hincreasing⟩
      intro other hother
      exact Nat.lt_of_lt_of_le hnext (hlater other hother)

/-- A run ends after at most as many steps as there are lines. -/
theorem length_steps_executeFrom (index : Nat) (session : Session) (remaining : List String) :
    (executeFrom table stream index session remaining).steps.length ≤ remaining.length := by
  refine executeFrom_induction table stream (motive := fun _ _ remaining run =>
    run.steps.length ≤ remaining.length) ?_ ?_ index session remaining
  · intro index session
    exact Nat.le_refl _
  · intro index session line rest run step ih
    rw [List.length_drop] at ih
    rw [Run.cons, List.length_cons, List.length_cons]
    omega

/-- A step of a run is the execution of the line at its index. The steps are made from the lines
that remain, and these are the end of the stream from the index on, whatever has been taken. -/
theorem step_of_mem_executeFrom (index : Nat) (session : Session) {step : Step}
    (h : step ∈ (executeFrom table stream index session (stream.lines.drop index)).steps) :
    stream.lines[step.index]? = some step.line ∧
      step = .ofCommand table stream step.index step.before step.line := by
  have hall : ∀ remaining, remaining = stream.lines.drop index →
      ∀ step ∈ (executeFrom table stream index session remaining).steps,
        stream.lines[step.index]? = some step.line ∧
          step = .ofCommand table stream step.index step.before step.line := by
    intro remaining
    refine executeFrom_induction table stream (motive := fun index _ remaining run =>
      remaining = stream.lines.drop index → ∀ step ∈ run.steps,
        stream.lines[step.index]? = some step.line ∧
          step = .ofCommand table stream step.index step.before step.line)
      ?_ ?_ index session remaining
    · intro index session _ step hstep
      exact absurd hstep List.not_mem_nil
    · intro index session line rest run first ih hremaining step hstep
      rcases List.mem_cons.1 hstep with rfl | hmore
      · refine ⟨?_, rfl⟩
        change stream.lines[index]? = some line
        rw [← List.head?_drop, ← hremaining, List.head?_cons]
      · refine ih ?_ step hmore
        -- the lines behind those that were taken remain
        have hrest : rest = stream.lines.drop (index + 1) := by
          rw [← List.tail_drop, ← hremaining, List.tail_cons]
        rw [hrest, List.drop_drop]
        rfl
  exact hall _ rfl step h

end Runs

/-! ## What a step draws -/

/-- The reply of the command of a step's line. -/
def Step.reply (table : CommandTable) (lines : List String) (step : Step) : Reply :=
  dispatch table ⟨step.line, lines, .ofLines lines, step.index⟩ step.before

/-- A step executes the line at its index: it draws what the command of the line draws and goes
on behind the lines that the command took; if the command fails, it draws one line more that
says why, and goes on with the next line. -/
structure Step.IsExecution (table : CommandTable) (lines : List String) (step : Step) : Prop where
  line_at : lines[step.index]? = some step.line
  of_ok : ∀ consumed, (step.reply table lines).outcome = .ok consumed →
    step.result.failed = false ∧ step.result.drawn = (step.reply table lines).drawn ∧
      step.next = step.index + 1 + consumed
  of_error : ∀ fault, (step.reply table lines).outcome = .error fault →
    step.result.failed = true ∧
      step.result.drawn =
        (step.reply table lines).drawn ++ [⟨"Erro: " ++ fault.message, Color.error⟩] ∧
      step.next = step.index + 1

/-- A step of a run executes the line at its index. If its command fails, what it drew before is
kept, an error line follows, and the next step is for the next line. -/
theorem Step.isExecution {table : CommandTable} {lines : List String} {step : Step}
    (hline : lines[step.index]? = some step.line)
    (hstep : step = .ofCommand table (.ofLines lines) step.index step.before step.line) :
    step.IsExecution table lines := by
  have hresult : step.result =
      executeLine table ⟨step.line, lines, .ofLines lines, step.index⟩ step.before :=
    congrArg Step.result hstep
  refine ⟨hline, ?_, ?_⟩
  · intro consumed hok
    rw [Step.reply] at hok
    rw [Step.next, hresult, executeLine, hok]
    exact ⟨rfl, rfl, rfl⟩
  · intro fault herror
    rw [Step.reply] at herror
    rw [Step.next, hresult, executeLine, herror]
    exact ⟨rfl, rfl, rfl⟩

/-! ## Lines in the color of errors -/

/-- With the commands of the language a failing line, and no other, draws one line in the color
of errors. -/
theorem countP_error_drawn (es : List (String × LineEffect)) :
    (es.flatMap fun e => e.2.drawn).countP (fun emission => emission.color == Color.error) =
      es.countP fun e => e.2.isFailure := by
  induction es with
  | nil => rfl
  | cons e more ih =>
    obtain ⟨line, effect⟩ := e
    rw [List.flatMap_cons, List.countP_append, List.countP_cons, ih, Nat.add_comm]
    congr 1
    cases effect with
    | fails fault => rfl
    | shows text => rfl
    | binds name v consumed => rfl

/-- With the commands of the language each failing line draws one line in the color of errors, and
no other line has that color. -/
theorem countP_error_calls (session : Session) (source : String) :
    let run := execute Builtin.commands (.ofSource source) session
    run.calls.countP (fun call => call.color == Color.error) = run.errors := by
  have hrun : execute Builtin.commands (.ofSource source) session =
      replay 0 session (effects session.vars (LineStream.linesOf source)) :=
    runScript_builtin session source
  have hcolor : (fun call : DrawCall => call.color == Color.error) =
      (fun emission : Emission => emission.color == Color.error) ∘ DrawCall.emission := rfl
  rw [hrun]
  dsimp only
  rw [errors_replay, hcolor, ← List.countP_map, emissions_replay, countP_error_drawn]

/-! ## Runs one after the other -/

namespace Interpreter

/-- Runs scripts one after the other. What each of them comes to is listed in order. -/
def runAll : Interpreter → List String → Interpreter × List (Run × Report)
  | i, [] => (i, [])
  | i, source :: more =>
    let (next, ran) := i.run source
    let (last, later) := next.runAll more
    (last, ran :: later)

/-- Scripts are run one after the other, in the session that the first one leaves. -/
theorem runAll_cons (i : Interpreter) (source : String) (more : List String) :
    i.runAll (source :: more) =
      (((i.run source).1.runAll more).1,
        (i.run source).2 :: ((i.run source).1.runAll more).2) := rfl

/-- What every single run keeps, runs one after the other keep. -/
theorem runAll_induction {motive : Interpreter → Prop} {i : Interpreter} (hstart : motive i)
    (hrun : ∀ j source, motive j → motive (j.run source).1) (sources : List String) :
    motive (i.runAll sources).1 := by
  induction sources generalizing i with
  | nil => exact hstart
  | cons source more ih =>
    rw [runAll_cons]
    exact ih (hrun i source hstart)

/-- The draw calls of runs one after the other. -/
def callsOf (ran : List (Run × Report)) : List DrawCall := ran.flatMap fun r => r.1.calls

/-- The texts drawn by runs one after the other. -/
def drawnOf (ran : List (Run × Report)) : List Emission := ran.flatMap fun r => r.1.drawn

/-- The draw calls of a run begin in the place that the session has come to, and the session goes on
behind them. -/
theorem calls_run (i : Interpreter) (source : String) :
    (i.run source).2.1.calls = Page.placeAll i.session.shown (i.run source).2.1.drawn ∧
      (i.run source).1.session.shown = i.session.shown + (i.run source).2.1.drawn.length :=
  calls_executeFrom i.commands (.ofSource source) 0 i.session (LineStream.ofSource source).lines

/-- **The draw calls of runs one after the other stand one below the other**, and the count of drawn
lines goes up by their number. The interpreter carries the count from one run to the next. -/
theorem calls_runAll (i : Interpreter) (sources : List String) :
    callsOf (i.runAll sources).2 = Page.placeAll i.session.shown (drawnOf (i.runAll sources).2) ∧
      (i.runAll sources).1.session.shown =
        i.session.shown + (drawnOf (i.runAll sources).2).length := by
  induction sources generalizing i with
  | nil => exact ⟨rfl, rfl⟩
  | cons source more ih =>
    obtain ⟨hfirst, hcount⟩ := calls_run i source
    obtain ⟨hlater, hshown⟩ := ih (i.run source).1
    have hcalls : callsOf (i.runAll (source :: more)).2 =
        (i.run source).2.1.calls ++ callsOf ((i.run source).1.runAll more).2 := rfl
    have hdrawn : drawnOf (i.runAll (source :: more)).2 =
        (i.run source).2.1.drawn ++ drawnOf ((i.run source).1.runAll more).2 := rfl
    -- the first run hands on the count that the later ones begin with
    refine ⟨?_, ?_⟩
    · rw [hcalls, hdrawn, Page.placeAll_append, hfirst, hlater, hcount]
    · rw [hdrawn, List.length_append, ← Nat.add_assoc, ← hcount]
      exact hshown

theorem commands_runAll (i : Interpreter) (sources : List String) :
    (i.runAll sources).1.commands = i.commands :=
  runAll_induction (motive := fun j => j.commands = i.commands) rfl
    (fun _ _ h => h) sources

end Interpreter

/-! ## What the surface sees, and what the report says -/

/-- What a run draws, executes and counts, when its interpreter has made some draw calls before
in other runs. -/
structure Paged (table : CommandTable) (lines : List String) (earlier : List DrawCall)
    (before after : Session) (run : Run) (report : Report) : Prop where
  /-- The draw call with `n` others before it, in this run and the earlier ones, is `n` line
  heights below the first baseline. -/
  placed : ∀ n call, (earlier ++ run.calls)[n]? = some call →
    call.x = Page.left ∧ call.y = Page.firstBaseline.add (Page.lineHeight.mul (.ofNat n))
  /-- That is a whole number of pixels, as long as such numbers are exact. -/
  spaced : ∀ n call, (earlier ++ run.calls)[n]? = some call → 20 * (n + 1) ≤ twoTo 53 →
    call.y = .ofNat (20 * (n + 1))
  /-- The draw calls of the run are those of its steps, with the texts in their order. -/
  texts : run.calls.map DrawCall.emission = run.steps.flatMap fun step => step.result.drawn
  executions : ∀ step ∈ run.steps, step.IsExecution table lines
  /-- No line is executed twice. -/
  increasing : run.steps.Pairwise fun a b => a.index < b.index
  executed_le : run.steps.length ≤ report.lines
  lines_eq : report.lines = lines.length
  rendered_eq : report.rendered = run.calls.length
  rendered_eq_sub : report.rendered = after.shown - before.shown
  errors_eq : report.errors = run.steps.countP fun step => step.result.failed
  /-- The commands of the language draw nothing in the color of errors by themselves. -/
  errors_eq_countP : table = Builtin.commands →
    report.errors = run.calls.countP fun call => call.color == Color.error

/-- The draw calls of a run go on where those of earlier runs have ended. So the number of a call
among all calls ever drawn says where it stands. -/
theorem place_of_getElem? {before : Interpreter} {drawn : List Emission}
    (hshown : before.session.shown = drawn.length) (source : String) {n : Nat} {call : DrawCall}
    (h : (Page.placeAll 0 drawn ++ (before.run source).2.1.calls)[n]? = some call) :
    call.x = Page.left ∧ call.y = Page.baseline n := by
  have hall : Page.placeAll 0 drawn ++ (before.run source).2.1.calls =
      Page.placeAll 0 (drawn ++ (before.run source).2.1.drawn) := by
    rw [(before.calls_run source).1, Page.placeAll_append, hshown, Nat.zero_add]
  rw [hall, Page.getElem?_placeAll, Nat.zero_add, Option.map_eq_some_iff] at h
  obtain ⟨emission, -, rfl⟩ := h
  simp only [Page.place, and_self]

/-- A run is paged when the count of drawn lines is right before it. That is all that a run needs to
know of the earlier ones. -/
theorem paged_run {before : Interpreter} {drawn : List Emission}
    (hshown : before.session.shown = drawn.length) (source : String) :
    Paged before.commands (LineStream.linesOf source) (Page.placeAll 0 drawn) before.session
      (before.run source).1.session (before.run source).2.1 (before.run source).2.2 := by
  obtain ⟨hcalls, hcount⟩ := before.calls_run source
  have hincreasing := (increasing_executeFrom before.commands (.ofSource source) 0 before.session
    (LineStream.ofSource source).lines).2
  have hsteps := length_steps_executeFrom before.commands (.ofSource source) 0 before.session
    (LineStream.ofSource source).lines
  -- all that is asked of a run has been said of its calls, of its steps or of its report
  refine ⟨fun n call => place_of_getElem? hshown source, ?_, ?_, ?_, hincreasing, hsteps, rfl,
    rfl, ?_, rfl, ?_⟩
  · intro n call hcall hbound
    rw [(place_of_getElem? hshown source hcall).2, Page.baseline_eq_ofNat hbound]
  · rw [hcalls, Page.emissions_placeAll, Run.drawn]
  · intro step hstep
    obtain ⟨hline, hcommand⟩ := step_of_mem_executeFrom before.commands (.ofSource source) 0
      before.session hstep
    exact Step.isExecution hline hcommand
  · rw [hcount, Nat.add_sub_cancel_left, ← Page.length_placeAll before.session.shown, ← hcalls]
    rfl
  · intro hbuiltin
    have hcountP := countP_error_calls before.session source
    rw [← hbuiltin] at hcountP
    exact hcountP.symm

/-- **Layout and report agree with what is drawn**, for any commands and after any runs of the
same interpreter. -/
theorem run_paged (table : CommandTable) (scripts : List String) (source : String) :
    let (before, ran) := (Interpreter.mk table .fresh).runAll scripts
    let (after, run, report) := before.run source
    Paged table (LineStream.linesOf source) (Interpreter.callsOf ran) before.session
      after.session run report := by
  have hcommands := Interpreter.commands_runAll ⟨table, .fresh⟩ scripts
  obtain ⟨hearlier, hshown⟩ := Interpreter.calls_runAll ⟨table, .fresh⟩ scripts
  have hnone : Session.fresh.shown = 0 := rfl
  rw [hnone] at hearlier hshown
  rw [Nat.zero_add] at hshown
  have hpaged := paged_run hshown source
  rw [hcommands, ← hearlier] at hpaged
  exact hpaged

end CanvasScript
