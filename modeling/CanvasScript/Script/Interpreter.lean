/-
Running a script.

Lines are executed strictly in order. The command of a line may take lines after it, and
these are skipped. A line that fails is drawn as an error line at the place where its output
would have gone, and the run goes on with the next line, so a failure never takes lines.

Lines are drawn one below the other at fixed positions: the `n`-th line since the session
began stands at the left edge, `n - 1` line heights below the first baseline. What is drawn
by values, by commands of any other kind and by error lines is counted together.

A run is a function from a session to the session after it, the draw calls, the log events
and the count of failures. It does not look at a surface; `interpret` puts the calls of a
fresh run on the surface of a target, or fails without running when there is none.
-/
import CanvasScript.Script.Builtin
import CanvasScript.Surface.DrawCall

set_option autoImplicit false

namespace CanvasScript

/-! ## Layout of drawn lines -/

namespace Page

/-- The left edge of every line. -/
def left : Binary64 := .ofNat 10

/-- The baseline of the first line. -/
def firstBaseline : Binary64 := .ofNat 20

/-- The distance from a line to the next. -/
def lineHeight : Binary64 := .ofNat 20

/-- The baseline of the line that so many lines come before. -/
def baseline (before : Nat) : Binary64 := firstBaseline.add (lineHeight.mul (.ofNat before))

/-- The draw call of a line that so many lines come before. -/
def place (before : Nat) (emission : Emission) : DrawCall :=
  ⟨emission.text, left, baseline before, emission.color⟩

/-- The draw calls of lines of which the first has so many lines before it. -/
def placeAll (before : Nat) : List Emission → List DrawCall
  | [] => []
  | emission :: rest => place before emission :: placeAll (before + 1) rest

/-- Every line gets one draw call. -/
theorem length_placeAll (before : Nat) (emissions : List Emission) :
    (placeAll before emissions).length = emissions.length := by
  induction emissions generalizing before with
  | nil => rfl
  | cons emission rest ih => simp [placeAll, ih]

/-- Lines placed together are lines placed one part after the other. -/
theorem placeAll_append (before : Nat) (first second : List Emission) :
    placeAll before (first ++ second) =
      placeAll before first ++ placeAll (before + first.length) second := by
  induction first generalizing before with
  | nil => simp [placeAll]
  | cons emission rest ih =>
    simp [placeAll, ih, Nat.add_comm 1, Nat.add_assoc]

end Page

/-! ## One line -/

/-- What an error line starts with. -/
def errorLead : String := "Erro: "

def errorLine (fault : ScriptError) : Emission := ⟨errorLead ++ fault.message, Color.error⟩

structure LineResult where
  /-- Texts to draw, the error line included. -/
  drawn : List Emission
  vars : Bindings
  events : List Event
  /-- The number of lines taken after this one. -/
  consumed : Nat
  failed : Bool

/-- The reply of the command that a line is for. -/
def dispatch (table : CommandTable) (input : CommandInput) (session : Session) : Reply :=
  match (keyword? input.line).bind table.get? with
  | some handler => handler input session
  | none => .failure session (.unknownCommand input.line)

def executeLine (table : CommandTable) (input : CommandInput) (session : Session) : LineResult :=
  let reply := dispatch table input session
  let begun := .dispatched input.index input.line :: reply.events
  match reply.outcome with
  | .ok consumed => ⟨reply.drawn, reply.vars, begun, consumed, false⟩
  | .error fault =>
    ⟨reply.drawn ++ [errorLine fault], reply.vars,
      begun ++ [.lineFailed input.index fault], 0, true⟩

def Session.after (session : Session) (result : LineResult) : Session :=
  ⟨result.vars, session.shown + result.drawn.length⟩

/-! ## Whole runs -/

structure Step where
  index : Nat
  line : String
  before : Session
  result : LineResult

namespace Step

def calls (step : Step) : List DrawCall := Page.placeAll step.before.shown step.result.drawn

/-- The index of the line that is executed next. -/
def next (step : Step) : Nat := step.index + 1 + step.result.consumed

end Step

/-- What a run leaves: its executed lines in order, and the session after them. -/
structure Run where
  steps : List Step
  session : Session

namespace Run

def calls (run : Run) : List DrawCall := run.steps.flatMap Step.calls

def events (run : Run) : List Event := run.steps.flatMap fun step => step.result.events

def errors (run : Run) : Nat := run.steps.countP fun step => step.result.failed

/-- The counts of a run of a stream. -/
def report (run : Run) (stream : LineStream) : Report :=
  ⟨stream.size, run.calls.length, run.errors⟩

/-- A run with a line before it. -/
def cons (step : Step) (run : Run) : Run := ⟨step :: run.steps, run.session⟩

@[simp] theorem calls_cons (step : Step) (run : Run) :
    (run.cons step).calls = step.calls ++ run.calls := rfl

@[simp] theorem events_cons (step : Step) (run : Run) :
    (run.cons step).events = step.result.events ++ run.events := rfl

@[simp] theorem session_cons (step : Step) (run : Run) :
    (run.cons step).session = run.session := rfl

end Run

/-- Executes the lines of a stream that remain from an index on. -/
def executeFrom (table : CommandTable) (stream : LineStream) (index : Nat) (session : Session) :
    List String → Run
  | [] => ⟨[], session⟩
  | line :: rest =>
    let result := executeLine table ⟨line, stream.lines, stream.braces, index⟩ session
    (executeFrom table stream (index + 1 + result.consumed) (session.after result)
      (rest.drop result.consumed)).cons ⟨index, line, session, result⟩
termination_by remaining => remaining.length
decreasing_by
  have h : (rest.drop result.consumed).length ≤ rest.length :=
    (List.drop_sublist _ _).length_le
  exact Nat.lt_succ_of_le h

@[simp] theorem executeFrom_nil (table : CommandTable) (stream : LineStream) (index : Nat)
    (session : Session) : executeFrom table stream index session [] = ⟨[], session⟩ := by
  rw [executeFrom]

/-- The first of the remaining lines is the first step, and the lines that it did not take
are executed after it. -/
theorem executeFrom_cons (table : CommandTable) (stream : LineStream) (index : Nat)
    (session : Session) (line : String) (rest : List String) :
    executeFrom table stream index session (line :: rest) =
      let result := executeLine table ⟨line, stream.lines, stream.braces, index⟩ session
      (executeFrom table stream (index + 1 + result.consumed) (session.after result)
        (rest.drop result.consumed)).cons ⟨index, line, session, result⟩ := by
  rw [executeFrom]

def execute (table : CommandTable) (stream : LineStream) (session : Session) : Run :=
  executeFrom table stream 0 session stream.lines

def runScript (table : CommandTable) (session : Session) (source : String) : Run :=
  execute table (.ofSource source) session

/-! ## Interpreters -/

/-- A command table and a session that it works on. -/
structure Interpreter where
  commands : CommandTable
  session : Session

namespace Interpreter

/-- The commands of the language and a fresh session. -/
def fresh : Interpreter := ⟨Builtin.commands, .fresh⟩

/-- Adds a command, replacing one of the same keyword. -/
def register (i : Interpreter) (keyword : String) (handler : Handler) : Interpreter :=
  { i with commands := i.commands.insert keyword handler }

/-- Runs a script. Bindings and the count of drawn lines carry over to the next run. -/
def run (i : Interpreter) (source : String) : Interpreter × Run × Report :=
  let stream := LineStream.ofSource source
  let result := execute i.commands stream i.session
  (⟨i.commands, result.session⟩, result, result.report stream)

end Interpreter

/-! ## Targets -/

/-- Surfaces by the names of their targets. -/
abbrev Targets (σ : Type) := Keyed σ

/-- What interpreting a script for a target comes to. -/
structure Interpretation (σ : Type) where
  targets : Targets σ
  /-- The counts of the run, or why there was none. -/
  outcome : Except ScriptError Report
  events : List Event

/-- Runs a script from a fresh start and draws on the surface of a target. -/
def interpret {σ : Type} [Surface σ] (targets : Targets σ) (target source : String) :
    Interpretation σ :=
  let started := Event.runStarted target source.utf8ByteSize
  match targets.get? target with
  | none => ⟨targets, .error (.surfaceUnavailable target), [started]⟩
  | some surface =>
    let (_, run, report) := Interpreter.fresh.run source
    let (drawn, reported) := drawAll surface run.calls
    ⟨targets.insert target drawn, .ok report,
      started :: run.events ++ reported ++ [.runComplete report]⟩

end CanvasScript
