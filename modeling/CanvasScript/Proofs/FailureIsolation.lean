/-
Failing lines have no effect beyond their own error line.

When the lines of a script that were executed and failed are deleted, and what is left is run
as a script of its own, the second run has no errors, ends with the same bindings and shows
the texts that the first run showed, in the same order.

Deleting lines changes the brace index of all lines before them. It makes no difference to
the lines that stay: of the lines after it, a binding that succeeds needs only those that it
takes, these are never executed and so never deleted, and they stay right behind it. Lines
that failed left the bindings alone. So the effects of the remaining lines are the effects of
the first run without the failures, and everything else is read off the effects.
-/
import CanvasScript.Proofs.Replay
import CanvasScript.Proofs.ScriptLines

set_option autoImplicit false

namespace CanvasScript

namespace Run

/-! ## Lines that did not fail -/

/-- Whether the line at an index was executed and failed. -/
def failedAt (run : Run) (i : Nat) : Bool :=
  run.steps.any fun step => step.index == i && step.result.failed

/-- The lines that were not executed with a failure, when the first line has an index. -/
def survivorsFrom (run : Run) (index : Nat) (lines : List String) : List String :=
  ((lines.zipIdx index).filter fun entry => !run.failedAt entry.2).map Prod.fst

/-- The lines of a script that were not executed with a failure. -/
def survivors (run : Run) (lines : List String) : List String := run.survivorsFrom 0 lines

theorem failedAt_cons (run : Run) (step : Step) (i : Nat) :
    (run.cons step).failedAt i = ((step.index == i && step.result.failed) || run.failedAt i) :=
  rfl

/-- Before the first line of a run nothing has failed in it. -/
theorem failedAt_of_lt {run : Run} {i : Nat} (h : ∀ step ∈ run.steps, i < step.index) :
    run.failedAt i = false := by
  rw [failedAt, List.any_eq_false]
  intro step hstep
  have hlt := h step hstep
  have hne : (step.index == i) = false := by
    rw [beq_eq_false_iff_ne]
    omega
  rw [hne]
  simp

/-- A step keeps the lines that it takes, and its own unless it failed. Lines are kept by their
numbers, so it has to be seen which numbers belong to which step: its own, those that it takes, and
those after them. -/
theorem survivorsFrom_cons {run : Run} (step : Step) (line : String) {rest : List String}
    {taken : Nat} (hlater : ∀ later ∈ run.steps, step.index + 1 + taken ≤ later.index)
    (htaken : taken ≤ rest.length) :
    (run.cons step).survivorsFrom step.index (line :: rest) =
      (if step.result.failed then [] else [line]) ++ rest.take taken ++
        run.survivorsFrom (step.index + 1 + taken) (rest.drop taken) := by
  have hown : (run.cons step).failedAt step.index = step.result.failed := by
    rw [failedAt_cons, failedAt_of_lt (fun later h => by have := hlater later h; omega)]
    simp
  -- lines that are taken lie between this step and the next one, so no step executes them
  have htakenKept : ∀ entry ∈ (rest.take taken).zipIdx (step.index + 1),
      (!(run.cons step).failedAt entry.2) = true := by
    intro entry hentry
    have hge := List.le_snd_of_mem_zipIdx hentry
    have hlt := List.snd_lt_add_of_mem_zipIdx hentry
    rw [List.length_take] at hlt
    have hne : (step.index == entry.2) = false := by
      rw [beq_eq_false_iff_ne]
      omega
    rw [failedAt_cons, hne, failedAt_of_lt (fun later h => by have := hlater later h; omega)]
    rfl
  -- for the lines after them this step makes no difference
  have hrest : ∀ entry ∈ (rest.drop taken).zipIdx (step.index + 1 + taken),
      (!(run.cons step).failedAt entry.2) = !run.failedAt entry.2 := by
    intro entry hentry
    have hge := List.le_snd_of_mem_zipIdx hentry
    have hne : (step.index == entry.2) = false := by
      rw [beq_eq_false_iff_ne]
      omega
    rw [failedAt_cons, hne]
    rfl
  have hsplit : rest.zipIdx (step.index + 1) =
      (rest.take taken).zipIdx (step.index + 1) ++
        (rest.drop taken).zipIdx (step.index + 1 + taken) := by
    conv_lhs => rw [← List.take_append_drop taken rest]
    rw [List.zipIdx_append, List.length_take, Nat.min_eq_left htaken]
  rw [survivorsFrom, survivorsFrom, List.zipIdx_cons, hsplit, List.filter_cons,
    List.filter_append, List.filter_eq_self.2 htakenKept, List.filter_congr hrest, hown]
  rcases step.result.failed with _ | _
  · simp [List.zipIdx_map_fst]
  · simp [List.zipIdx_map_fst]

end Run

/-! ## The effects of the lines that did not fail -/

/-- Without the lines that failed, the effects are the same without the failures. A line that fails
binds nothing and takes nothing, and a line that does not fail needs of the lines after it only
those that it takes, which stay right behind it. -/
theorem effects_survivors (index : Nat) (session : Session) (remaining : List String) :
    let run := replay index session (effects session.vars remaining)
    (∀ step ∈ run.steps, index ≤ step.index) ∧
      effects session.vars (run.survivorsFrom index remaining) =
        (effects session.vars remaining).filter fun e => !e.2.isFailure := by
  refine run_induction (motive := fun index session remaining run =>
    (∀ step ∈ run.steps, index ≤ step.index) ∧
      effects session.vars (run.survivorsFrom index remaining) =
        (effects session.vars remaining).filter fun e => !e.2.isFailure)
    ?_ ?_ index session remaining
  · intro index session
    refine ⟨by simp, ?_⟩
    rw [effects_nil]
    exact effects_nil session.vars
  · intro index session line rest run ih
    obtain ⟨hlater, heffects⟩ := ih
    have hle := consumed_effectOf_le session.vars line rest
    have hcons := Run.survivorsFrom_cons ⟨index, line, session,
      (effectOf session.vars line rest).result index line session.vars⟩ line hlater hle
    refine ⟨?_, ?_⟩
    · intro step hstep
      rcases List.mem_cons.1 hstep with rfl | hmem
      · exact Nat.le_refl _
      · have := hlater step hmem
        omega
    · have hvars : (session.after ((effectOf session.vars line rest).result index line
          session.vars)).vars = (effectOf session.vars line rest).varsAfter session.vars := rfl
      have hfailed : ((effectOf session.vars line rest).result index line session.vars).failed =
          (effectOf session.vars line rest).isFailure := rfl
      dsimp only at hcons
      rw [hvars] at heffects
      rw [hcons, hfailed, effects_cons, List.filter_cons]
      -- the line is kept unless it fails, and its effect decides that
      rcases hfailure : (effectOf session.vars line rest).isFailure with _ | _
      · -- the line stays, with the lines that it takes right behind it; of all lines after it
        -- it needs only these, so its effect is the same
        have hlength : (rest.take (effectOf session.vars line rest).consumed).length =
            (effectOf session.vars line rest).consumed := by
          rw [List.length_take]
          omega
        simp only [Bool.false_eq_true, if_false, Bool.not_false, if_true, List.nil_append,
          List.cons_append]
        rw [effects_cons, effectOf_take_append hfailure, List.drop_left' hlength, heffects]
      · -- the line goes; it took no lines and left the bindings alone
        obtain ⟨hsame, hnone⟩ := LineEffect.of_isFailure hfailure session.vars
        rw [hsame, hnone, List.drop_zero] at heffects ⊢
        simpa using heffects

/-! ## What is read off the effects -/

/-- Lines that failed have bound nothing, so the bindings are the same without them. This needs
nothing of the lines but what their effects are. -/
theorem vars_of_filter (vars : Bindings) (es : List (String × LineEffect)) :
    (es.filter fun e => !e.2.isFailure).foldl (fun vars e => e.2.varsAfter vars) vars =
      es.foldl (fun vars e => e.2.varsAfter vars) vars := by
  induction es generalizing vars with
  | nil => rfl
  | cons e more ih =>
    rw [List.filter_cons, List.foldl_cons]
    rcases hfailure : e.2.isFailure with _ | _
    · rw [Bool.not_false, if_pos rfl, List.foldl_cons, ih]
    · rw [Bool.not_true, if_neg Bool.false_ne_true, ih, (LineEffect.of_isFailure hfailure vars).1]

/-- The texts in the color of texts are those of the lines that did not fail. A line that fails
draws in the color of errors and in no other. -/
theorem shown_of_filter (es : List (String × LineEffect)) :
    (es.filter fun e => !e.2.isFailure).flatMap (fun e => e.2.drawn) =
      (es.flatMap fun e => e.2.drawn).filter fun emission => emission.color == Color.text := by
  induction es with
  | nil => rfl
  | cons e more ih =>
    obtain ⟨line, effect⟩ := e
    rw [List.filter_cons, List.flatMap_cons, List.filter_append, ← ih]
    rcases effect with fault | text | ⟨name, v, consumed⟩
    · -- error lines have a color of their own
      have herror : (Color.error == Color.text) = false := by decide
      simp [LineEffect.isFailure, LineEffect.drawn, errorLine, herror]
    · simp [LineEffect.isFailure, LineEffect.drawn]
    · simp [LineEffect.isFailure, LineEffect.drawn]

/-- Without the failures there are none. -/
theorem errors_of_filter (es : List (String × LineEffect)) :
    ((es.filter fun e => !e.2.isFailure).countP fun e => e.2.isFailure) = 0 := by
  rw [List.countP_eq_zero]
  intro e he
  have hok := (List.mem_filter.1 he).2
  simpa using hok

/-- The lines that stay were there before. -/
theorem mem_of_mem_survivors {run : Run} {lines : List String} {line : String}
    (h : line ∈ run.survivors lines) : line ∈ lines := by
  rw [Run.survivors, Run.survivorsFrom, List.mem_map] at h
  obtain ⟨entry, hentry, rfl⟩ := h
  exact List.fst_mem_of_mem_zipIdx (List.mem_filter.1 hentry).1

/-- The texts in the color of texts, before and after the failing lines are deleted. Error lines
have another color, so that filter does to the calls what the deletion does to the lines. -/
theorem texts_of_filter {run rerun : Run} {es : List (String × LineEffect)}
    (hrun : run.calls.map DrawCall.emission = es.flatMap fun e => e.2.drawn)
    (hrerun : rerun.calls.map DrawCall.emission =
      (es.filter fun e => !e.2.isFailure).flatMap fun e => e.2.drawn) :
    rerun.calls.map DrawCall.text =
      (run.calls.filter fun call => call.color == Color.text).map DrawCall.text := by
  have htext : ∀ calls : List DrawCall,
      calls.map DrawCall.text = (calls.map DrawCall.emission).map Emission.text := by
    intro calls
    rw [List.map_map]
    rfl
  have hfilter : (run.calls.filter fun call => call.color == Color.text).map DrawCall.emission =
      (run.calls.map DrawCall.emission).filter fun emission => emission.color == Color.text := by
    rw [List.filter_map]
    rfl
  rw [htext, htext, hfilter, hrun, hrerun, shown_of_filter]

/-- The effects of what is left of a script without the lines that failed. What is left has been
lines before, so putting it together to a script and cutting that gives these lines again. -/
theorem effects_rerun (source : String) :
    let es := effects .empty (LineStream.linesOf source)
    effects .empty (LineStream.linesOf ("\n".intercalate
      ((replay 0 .fresh es).survivors (LineStream.linesOf source)))) =
      es.filter fun e => !e.2.isFailure := by
  intro es
  have hlines : ∀ line ∈ (replay 0 .fresh es).survivors (LineStream.linesOf source),
      LineStream.IsLine line :=
    fun line hline => LineStream.isLine_of_mem_linesOf (mem_of_mem_survivors hline)
  rw [LineStream.linesOf_intercalate hlines]
  exact (effects_survivors 0 .fresh (LineStream.linesOf source)).2

/-- **Failing lines have no effect beyond their own error line.** For every script: what is
left of it without the lines that failed has no errors, leaves the same bindings, and shows
what the script showed in the color of texts. -/
theorem rerun_without_failures (source : String) :
    let (after, run, _) := Interpreter.fresh.run source
    let (afterRerun, rerun, report) := Interpreter.fresh.run
      ("\n".intercalate (run.survivors (LineStream.linesOf source)))
    report.errors = 0 ∧
      afterRerun.session.vars = after.session.vars ∧
      rerun.calls.map DrawCall.text =
        (run.calls.filter fun call => call.color == Color.text).map DrawCall.text := by
  have hexecute : ∀ source : String,
      execute Builtin.commands (LineStream.ofSource source) .fresh =
        replay 0 .fresh (effects .empty (LineStream.linesOf source)) :=
    fun source => runScript_builtin .fresh source
  have hrerun := effects_rerun source
  dsimp only [Interpreter.run, Interpreter.fresh, Run.report] at hrerun ⊢
  rw [hexecute source, hexecute, hrerun]
  refine ⟨?_, ?_, ?_⟩
  -- each of the three is read off the effects of the second run
  · rw [errors_replay, errors_of_filter]
  · rw [vars_replay, vars_replay, vars_of_filter]
  · exact texts_of_filter (emissions_replay 0 .fresh _) (emissions_replay 0 .fresh _)

end CanvasScript
