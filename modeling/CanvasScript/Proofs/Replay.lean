/-
A run of the commands of the language as the list of the effects of its lines.

`effects` goes over the lines that remain and lists what each executed line comes to; it
knows no indices, no draw calls and no events. `replay` makes the steps of a run out of that
list. The two together are the run (`executeFrom_builtin`), so the bindings, the drawn texts
and the counts of a run are read off its effects, each by an induction on a list.

A statement that needs more of a run than its effects is proved by `run_induction`, which goes over
the executed lines and gives each of them the session that it was executed in. No proof goes through
the execution of a line again, so a change to a command is a change to `effectOf` and to what is
said of that.
-/
import CanvasScript.Proofs.LineEffect
import Mathlib.Data.List.TakeDrop

set_option autoImplicit false

namespace CanvasScript

/-! ## Effects of lines, and the run they make -/

/-- The executed lines and their effects, from the first of the remaining lines on. -/
def effects (vars : Bindings) : List String → List (String × LineEffect)
  | [] => []
  | line :: rest =>
    let effect := effectOf vars line rest
    (line, effect) :: effects (effect.varsAfter vars) (rest.drop effect.consumed)
termination_by lines => lines.length
decreasing_by
  have h : (rest.drop effect.consumed).length ≤ rest.length :=
    (List.drop_sublist _ _).length_le
  exact Nat.lt_succ_of_le h

theorem effects_nil (vars : Bindings) : effects vars [] = [] := by rw [effects]

/-- A line comes to its effect, and the lines that the effect takes are passed over. -/
theorem effects_cons (vars : Bindings) (line : String) (rest : List String) :
    effects vars (line :: rest) =
      (line, effectOf vars line rest) ::
        effects ((effectOf vars line rest).varsAfter vars)
          (rest.drop (effectOf vars line rest).consumed) := by
  rw [effects]

/-- What holds of no lines, and of lines whenever it holds of those that are left after the first
one has taken any number of them, holds of all lines. -/
theorem remaining_induction {α : Type} {motive : List α → Prop} (nil : motive [])
    (cons : ∀ first rest, (∀ taken, motive (rest.drop taken)) → motive (first :: rest))
    (remaining : List α) : motive remaining := by
  induction hlength : remaining.length using Nat.strong_induction_on generalizing remaining with
  | _ n ih =>
    rcases remaining with _ | ⟨first, rest⟩
    · exact nil
    · refine cons first rest fun taken => ih _ ?_ _ rfl
      rw [← hlength, List.length_drop, List.length_cons]
      omega

/-- The run whose lines have given effects, the first of them at an index. -/
def replay (index : Nat) (session : Session) : List (String × LineEffect) → Run
  | [] => ⟨[], session⟩
  | (line, effect) :: more =>
    let result := effect.result index line session.vars
    (replay (index + 1 + effect.consumed) (session.after result) more).cons
      ⟨index, line, session, result⟩

/-- **A run is the replay of its effects**, from any line on and in any session. The run looks back
at the whole stream for each literal, and an effect is made from the lines after its own; that the
two agree is what gathering with the index is. -/
theorem executeFrom_builtin (lines : List String) (index : Nat) (session : Session) :
    executeFrom Builtin.commands (.ofLines lines) index session (lines.drop index) =
      replay index session (effects session.vars (lines.drop index)) := by
  induction hremaining : lines.drop index using remaining_induction
    generalizing index session with
  | nil => rw [executeFrom_nil, effects_nil, replay]
  | cons line rest ih =>
    have hrest : lines.drop (index + 1) = rest := by
      rw [← List.tail_drop, hremaining, List.tail_cons]
    -- the lines after this one are those of the stream behind its index
    have hexecute : executeLine Builtin.commands
        ⟨line, (LineStream.ofLines lines).lines, (LineStream.ofLines lines).braces, index⟩
        session = (effectOf session.vars line rest).result index line session.vars := by
      rw [← hrest]
      exact executeLine_builtin line lines index session
    have hdrop : lines.drop (index + 1 + (effectOf session.vars line rest).consumed) =
        rest.drop (effectOf session.vars line rest).consumed := by
      rw [← hrest, List.drop_drop]
    rw [executeFrom_cons, effects_cons, replay]
    dsimp only
    rw [hexecute]
    congr 1
    exact ih _ _ _ hdrop

/-- So a script is replayed from the effects of its lines. -/
theorem runScript_builtin (session : Session) (source : String) :
    runScript Builtin.commands session source =
      replay 0 session (effects session.vars (LineStream.linesOf source)) :=
  executeFrom_builtin (LineStream.linesOf source) 0 session

/-- What holds of the empty run, and of a run with an executed line before it whenever it holds of
the run without, holds of every run from the remaining lines on. Every invariant of a run is proved
by this, so none of them goes through the execution of a line again. -/
theorem run_induction {motive : Nat → Session → List String → Run → Prop}
    (hnil : ∀ index session, motive index session [] ⟨[], session⟩)
    (hcons : ∀ index session line rest run,
      motive (index + 1 + (effectOf session.vars line rest).consumed)
        (session.after ((effectOf session.vars line rest).result index line session.vars))
        (rest.drop (effectOf session.vars line rest).consumed) run →
      motive index session (line :: rest)
        (run.cons ⟨index, line, session,
          (effectOf session.vars line rest).result index line session.vars⟩))
    (index : Nat) (session : Session) (remaining : List String) :
    motive index session remaining (replay index session (effects session.vars remaining)) := by
  induction remaining using remaining_induction generalizing index session with
  | nil =>
    rw [effects_nil]
    exact hnil index session
  | cons line rest ih =>
    rw [effects_cons]
    exact hcons index session line rest _ (ih _ _ _)

/-! ## What a replay leaves, draws and counts -/

/-- The first effect makes the first step, and the others follow at the place and in the session
that it leaves. -/
theorem replay_cons (index : Nat) (session : Session) (line : String) (effect : LineEffect)
    (more : List (String × LineEffect)) :
    replay index session ((line, effect) :: more) =
      (replay (index + 1 + effect.consumed)
        (session.after (effect.result index line session.vars)) more).cons
        ⟨index, line, session, effect.result index line session.vars⟩ := rfl

/-- The bindings after a run come from its bindings, one after the other. -/
theorem vars_replay (index : Nat) (session : Session) (es : List (String × LineEffect)) :
    (replay index session es).session.vars =
      es.foldl (fun vars e => e.2.varsAfter vars) session.vars := by
  induction es generalizing index session with
  | nil => rfl
  | cons e more ih =>
    obtain ⟨line, effect⟩ := e
    rw [replay_cons, Run.session_cons, ih, List.foldl_cons]
    rfl

/-- The errors of a run are the failures among its effects. So they can be counted without the
sessions that the lines were executed in. -/
theorem errors_replay (index : Nat) (session : Session) (es : List (String × LineEffect)) :
    (replay index session es).errors = es.countP fun e => e.2.isFailure := by
  induction es generalizing index session with
  | nil => rfl
  | cons e more ih =>
    obtain ⟨line, effect⟩ := e
    have hmore := ih (index + 1 + effect.consumed)
      (session.after (effect.result index line session.vars))
    rw [replay_cons, List.countP_cons, ← hmore]
    exact List.countP_cons

/-- The text and the color of a draw call. -/
def DrawCall.emission (call : DrawCall) : Emission := ⟨call.text, call.color⟩

/-- Placing texts does not change them. -/
theorem Page.emissions_placeAll (before : Nat) (drawn : List Emission) :
    (placeAll before drawn).map DrawCall.emission = drawn := by
  induction drawn generalizing before with
  | nil => rfl
  | cons emission rest ih => rw [placeAll, List.map_cons, ih]; rfl

/-- The texts that a run draws are those of its effects, in their order. -/
theorem emissions_replay (index : Nat) (session : Session) (es : List (String × LineEffect)) :
    (replay index session es).calls.map DrawCall.emission = es.flatMap fun e => e.2.drawn := by
  induction es generalizing index session with
  | nil => rfl
  | cons e more ih =>
    obtain ⟨line, effect⟩ := e
    rw [replay_cons, Run.calls_cons, List.map_append, ih, List.flatMap_cons]
    congr 1
    exact Page.emissions_placeAll _ _

end CanvasScript
