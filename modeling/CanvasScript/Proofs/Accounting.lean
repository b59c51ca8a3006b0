/-
Every line of a script is accounted for exactly once.

A run of the commands of the language goes over its lines from the first to the last. A line
is either executed, once, or taken by one binding that was executed before it, and never
both; no line is passed over and none is executed a second time. The counts that a run
reports follow from this.

What carries the proof is that a binding never takes more lines than there are after it
(`consumed_effectOf_le`). The rest is one induction over the run for each fact about its
steps. The number of lines that a step covers is its own and those that it takes, and the
steps of a run cover the lines from its first to the last, end to end.
-/
import CanvasScript.Proofs.Replay
import Mathlib.Algebra.GroupWithZero.Nat
import Mathlib.Data.List.Chain

set_option autoImplicit false

namespace CanvasScript

/-! ## Kinds of steps -/

namespace Step

/-- A drawing that succeeded. -/
def isDrawing (step : Step) : Bool :=
  !step.result.failed && keyword? step.line == some "display"

/-- A binding that succeeded. -/
def isBinding (step : Step) : Bool :=
  !step.result.failed && keyword? step.line == some "set"

/-- Whether a line is one that the step takes after its own. -/
def takes (step : Step) (i : Nat) : Bool := decide (step.index < i) && decide (i < step.next)

/-- The step of a line with the lines after it. -/
def ofLine (index : Nat) (session : Session) (line : String) (rest : List String) : Step :=
  ⟨index, line, session, (effectOf session.vars line rest).result index line session.vars⟩

theorem next_ofLine (index : Nat) (session : Session) (line : String) (rest : List String) :
    (ofLine index session line rest).next =
      index + 1 + (effectOf session.vars line rest).consumed := rfl

/-- What the three kinds of steps are, by the effects of their lines. -/
theorem kind_ofLine (index : Nat) (session : Session) (line : String) (rest : List String) :
    let step := ofLine index session line rest
    match effectOf session.vars line rest with
    | .fails _ => step.result.failed = true ∧ step.isDrawing = false ∧ step.isBinding = false
    | .shows _ => step.result.failed = false ∧ step.isDrawing = true ∧ step.isBinding = false
    | .binds _ _ _ =>
      step.result.failed = false ∧ step.isDrawing = false ∧ step.isBinding = true := by
  dsimp only [isDrawing, isBinding, ofLine, LineEffect.result]
  rcases heffect : effectOf session.vars line rest with fault | text | ⟨name, v, consumed⟩
  · simp [LineEffect.isFailure]
  · -- a line that shows or binds is one that does so by its keyword, so the other kind is out
    have hkeyword := (effectOf_eq_shows_iff.1 heffect).1
    simp [LineEffect.isFailure, hkeyword]
  · have hkeyword := (effectOf_eq_binds_iff.1 heffect).1
    simp [LineEffect.isFailure, hkeyword]

theorem takes_of_next_eq {step : Step} (h : step.next = step.index + 1) (i : Nat) :
    step.takes i = false := by
  rw [takes, h, ← Bool.decide_and, decide_eq_false_iff_not]
  omega

/-- Only bindings take lines after their own. -/
theorem isBinding_and_takes_ofLine (index : Nat) (session : Session) (line : String)
    (rest : List String) (i : Nat) :
    let step := ofLine index session line rest
    (step.isBinding && step.takes i) = step.takes i := by
  have hkind := kind_ofLine index session line rest
  have hnext := next_ofLine index session line rest
  dsimp only at hkind ⊢
  rcases heffect : effectOf session.vars line rest with fault | text | ⟨name, v, consumed⟩
  · rw [heffect] at hnext
    rw [takes_of_next_eq hnext, Bool.and_false]
  · rw [heffect] at hnext
    rw [takes_of_next_eq hnext, Bool.and_false]
  · rw [heffect] at hkind
    rw [hkind.2.2, Bool.true_and]

end Step

/-! ## The steps of a run -/

/-- Every step of a run is the step of the line at its index, with the lines after it. So what is
said of a step can be read off its line, without the run before it. -/
theorem step_of_mem_replay (index : Nat) (session : Session) (remaining : List String) :
    ∀ step ∈ (replay index session (effects session.vars remaining)).steps,
      index ≤ step.index ∧ ∃ rest, remaining.drop (step.index - index) = step.line :: rest ∧
        step = .ofLine step.index step.before step.line rest := by
  refine run_induction (motive := fun index _ remaining run => ∀ step ∈ run.steps,
    index ≤ step.index ∧ ∃ rest, remaining.drop (step.index - index) = step.line :: rest ∧
      step = .ofLine step.index step.before step.line rest) ?_ ?_ index session remaining
  · intro index session step hstep
    simp at hstep
  · intro index session line rest run ih step hstep
    rcases List.mem_cons.1 hstep with rfl | hlater
    · -- the step of the first of the remaining lines
      refine ⟨Nat.le_refl _, rest, ?_, rfl⟩
      rw [Nat.sub_self, List.drop_zero]
    · obtain ⟨hle, after, hdrop, hstep⟩ := ih step hlater
      -- a later step counts from the line after those that the first one covers
      refine ⟨by omega, after, ?_, hstep⟩
      rw [← hdrop, List.drop_drop]
      have hindex : step.index - index = (effectOf session.vars line rest).consumed +
          (step.index - (index + 1 + (effectOf session.vars line rest).consumed)) + 1 := by
        omega
      rw [hindex, List.drop_succ_cons]

/-- Steps follow one another without a gap, from the first line on. A step ends behind the lines
that it takes, and the next one begins there. -/
theorem consecutive_replay (index : Nat) (session : Session) (remaining : List String) :
    let run := replay index session (effects session.vars remaining)
    (∀ step ∈ run.steps.head?, step.index = index) ∧
      run.steps.IsChain fun a b => b.index = a.next := by
  refine run_induction (motive := fun index _ _ run =>
    (∀ step ∈ run.steps.head?, step.index = index) ∧
      run.steps.IsChain fun a b => b.index = a.next) ?_ ?_ index session remaining
  · intro index session
    exact ⟨by simp, List.isChain_nil⟩
  · intro index session line rest run ih
    obtain ⟨hhead, hchain⟩ := ih
    refine ⟨by simp [Run.cons], ?_⟩
    -- the next step begins where the first one ends, which is what `next` of it says
    rw [Run.cons, List.isChain_cons]
    exact ⟨fun step hstep => hhead step hstep, hchain⟩

theorem increasing_of_consecutive {steps : List Step}
    (h : steps.IsChain fun a b => b.index = a.next) :
    steps.Pairwise fun a b => a.index < b.index := by
  have hlt : steps.IsChain fun a b => a.index < b.index := by
    refine h.imp ?_
    intro a b hab
    rw [hab, Step.next]
    omega
  have htrans : IsTrans Step fun a b => a.index < b.index :=
    ⟨fun a b c hab hbc => Nat.lt_trans hab hbc⟩
  exact List.isChain_iff_pairwise.1 hlt

/-! ## Lines covered and lines counted -/

/-- How often a line is executed. -/
def Run.executions (run : Run) (i : Nat) : Nat := run.steps.countP fun step => step.index == i

/-- How many bindings that succeeded take a line after their own. -/
def Run.takings (run : Run) (i : Nat) : Nat :=
  run.steps.countP fun step => step.isBinding && step.takes i

/-- The steps of a run cover each of the lines that remain once, and no others. This is the
partition: a line is counted as the line of a step or as one that a step takes, and the count is
one. The induction is over what a run comes to next, since a step that takes lines skips them. -/
theorem covered_replay (index : Nat) (session : Session) (remaining : List String) (i : Nat) :
    let run := replay index session (effects session.vars remaining)
    run.executions i + run.takings i =
      if index ≤ i ∧ i < index + remaining.length then 1 else 0 := by
  refine run_induction (motive := fun index _ remaining run =>
    run.executions i + run.takings i =
      if index ≤ i ∧ i < index + remaining.length then 1 else 0) ?_ ?_ index session remaining
  · intro index session
    rw [if_neg (by rw [List.length_nil]; omega)]
    rfl
  · intro index session line rest run ih
    have hle := consumed_effectOf_le session.vars line rest
    change (run.cons (.ofLine index session line rest)).executions i +
      (run.cons (.ofLine index session line rest)).takings i = _
    rw [List.length_drop] at ih
    rw [Run.executions, Run.takings] at ih ⊢
    rw [Run.cons, List.countP_cons, List.countP_cons, List.length_cons]
    -- the first step covers its own line and those that it takes
    have hown : ((Step.ofLine index session line rest).index == i) = decide (index = i) := rfl
    have htakes : (Step.ofLine index session line rest).takes i =
        decide (index < i ∧ i < index + 1 + (effectOf session.vars line rest).consumed) := by
      rw [Bool.decide_and, ← Step.next_ofLine index session line rest]
      rfl
    rw [hown, Step.isBinding_and_takes_ofLine, htakes]
    simp only [decide_eq_true_eq]
    -- the first step covers an interval that ends where the later ones begin
    split_ifs at ih ⊢ <;> omega

/-- The lines that remain are the executed ones and those that they take. It is the same partition
seen in sums, which is how the report counts. -/
theorem length_add_consumed_replay (index : Nat) (session : Session) (remaining : List String) :
    let run := replay index session (effects session.vars remaining)
    run.steps.length + (run.steps.map fun step => step.result.consumed).sum =
      remaining.length := by
  refine run_induction (motive := fun _ _ remaining run =>
    run.steps.length + (run.steps.map fun step => step.result.consumed).sum =
      remaining.length) ?_ ?_ index session remaining
  · intro index session
    rfl
  · intro index session line rest run ih
    have hle := consumed_effectOf_le session.vars line rest
    rw [List.length_drop] at ih
    rw [Run.cons, List.map_cons, List.sum_cons, List.length_cons, List.length_cons]
    change run.steps.length + 1 + ((effectOf session.vars line rest).consumed +
      (run.steps.map fun step => step.result.consumed).sum) = rest.length + 1
    omega

/-- Failures and drawings are drawn once each, and bindings not at all. So the lines drawn are
counted by the steps that drew them. -/
theorem length_calls_replay (index : Nat) (session : Session) (remaining : List String) :
    let run := replay index session (effects session.vars remaining)
    run.calls.length = run.errors + run.steps.countP Step.isDrawing := by
  refine run_induction (motive := fun _ _ _ run =>
    run.calls.length = run.errors + run.steps.countP Step.isDrawing) ?_ ?_ index session remaining
  · intro index session
    rfl
  · intro index session line rest run ih
    have hkind := Step.kind_ofLine index session line rest
    have hcalls : (Step.ofLine index session line rest).calls.length =
        (effectOf session.vars line rest).drawn.length := Page.length_placeAll _ _
    change (run.cons (.ofLine index session line rest)).calls.length =
      (run.cons (.ofLine index session line rest)).errors +
        (run.cons (.ofLine index session line rest)).steps.countP Step.isDrawing
    rw [Run.errors] at ih ⊢
    rw [Run.calls_cons, Run.cons, List.length_append, List.countP_cons, List.countP_cons, hcalls,
      ih]
    -- of each effect it is known how much is drawn: one text for a failure and for a drawing, and
    -- none for a binding
    rcases heffect : effectOf session.vars line rest with fault | text | ⟨name, v, consumed⟩
    · rw [heffect] at hkind
      simp only [hkind, LineEffect.drawn, List.length_singleton]
      simp
      omega
    · rw [heffect] at hkind
      simp only [hkind, LineEffect.drawn, List.length_singleton]
      simp
      omega
    · rw [heffect] at hkind
      simp only [hkind, LineEffect.drawn, List.length_nil]
      simp

/-! ## Accounting for a script -/

/-- The lines that a step covers. A failing line and a drawing cover their own line; a binding
covers also the lines that its command took, and they are lines of the script. -/
inductive Covers (lines : List String) (step : Step) : Prop where
  | failure : step.result.failed = true → step.next = step.index + 1 → Covers lines step
  | drawing : step.isDrawing = true → step.next = step.index + 1 → Covers lines step
  | binding (consumed : Nat) : step.isBinding = true →
      (Builtin.set ⟨step.line, lines, .ofLines lines, step.index⟩ step.before).outcome =
        .ok consumed →
      step.result.consumed = consumed → step.next = step.index + 1 + consumed →
      step.next ≤ lines.length → Covers lines step

/-- The lines of a script are accounted for by the steps of a run and by its report. -/
structure AccountsFor (run : Run) (report : Report) (lines : List String) : Prop where
  /-- Executed lines come in the order of the script, none of them twice. -/
  increasing : run.steps.Pairwise fun a b => a.index < b.index
  /-- What is executed after a step is the line after those that it covers. -/
  consecutive : run.steps.IsChain fun a b => b.index = a.next
  /-- A step executes the line at its index. -/
  line_at : ∀ step ∈ run.steps, lines[step.index]? = some step.line
  covers : ∀ step ∈ run.steps, Covers lines step
  /-- Every line is executed once or taken by one binding, and not both. -/
  once : ∀ i, i < lines.length → run.executions i + run.takings i = 1
  lines_eq : report.lines =
    run.steps.length + (run.steps.map fun step => step.result.consumed).sum
  errors_eq : report.errors = run.steps.countP fun step => step.result.failed
  rendered_eq : report.rendered = report.errors + run.steps.countP Step.isDrawing

theorem covers_of_step {lines rest : List String} {step : Step}
    (hdrop : lines.drop step.index = step.line :: rest)
    (hstep : step = .ofLine step.index step.before step.line rest) : Covers lines step := by
  have hkind := Step.kind_ofLine step.index step.before step.line rest
  have hnext := Step.next_ofLine step.index step.before step.line rest
  have hle := consumed_effectOf_le step.before.vars step.line rest
  have hrest : lines.drop (step.index + 1) = rest := by
    rw [← List.tail_drop, hdrop, List.tail_cons]
  have hlength : lines.length = step.index + 1 + rest.length := by
    have h := congrArg List.length hdrop
    rw [List.length_drop, List.length_cons] at h
    omega
  rw [← hstep] at hkind hnext
  -- the effect of the line decides which of the three cases of `Covers` the step is in
  rcases heffect : effectOf step.before.vars step.line rest with
    fault | text | ⟨name, v, consumed⟩
  · rw [heffect] at hkind hnext
    exact .failure hkind.1 hnext
  · rw [heffect] at hkind hnext
    exact .drawing hkind.2.1 hnext
  · have hconsumed : step.result.consumed = consumed := by
      rw [hstep]
      simp only [Step.ofLine, LineEffect.result, heffect]
      rfl
    have hread := (effectOf_eq_binds_iff.1 heffect).2
    rw [heffect] at hkind hnext hle
    refine .binding consumed hkind.2.2 ?_ hconsumed hnext ?_
    · rw [Builtin.set, readBinding_eq_front, hrest, hread]
    · -- the lines that are taken are among those after the line itself
      rw [hnext, hlength]
      exact Nat.add_le_add_left hle _

/-- **Every line of a script is accounted for exactly once**, in any session: it is executed, or it
is taken by the one binding before it whose literal it belongs to. The report counts what the steps
have done, and nothing is drawn that is not a failure or a drawing. -/
theorem run_accountsFor (session : Session) (source : String) :
    let (_, run, report) := (Interpreter.mk Builtin.commands session).run source
    AccountsFor run report (LineStream.linesOf source) := by
  dsimp only [Interpreter.run]
  have hrun : execute Builtin.commands (LineStream.ofSource source) session =
      replay 0 session (effects session.vars (LineStream.linesOf source)) :=
    runScript_builtin session source
  rw [hrun]
  obtain ⟨-, hconsecutive⟩ := consecutive_replay 0 session (LineStream.linesOf source)
  have hcalls := length_calls_replay 0 session (LineStream.linesOf source)
  have hlength := length_add_consumed_replay 0 session (LineStream.linesOf source)
  have hmem := step_of_mem_replay 0 session (LineStream.linesOf source)
  have hcovered := covered_replay 0 session (LineStream.linesOf source)
  -- from here on it is of no use what the run is: all that is needed has been said of it
  generalize replay 0 session (effects session.vars (LineStream.linesOf source)) = run at *
  generalize hlines : LineStream.linesOf source = lines at *
  have hat : ∀ step ∈ run.steps, ∃ rest, lines.drop step.index = step.line :: rest ∧
      step = .ofLine step.index step.before step.line rest := by
    intro step hstep
    exact (hmem step hstep).2
  refine ⟨increasing_of_consecutive hconsecutive, hconsecutive, ?_, ?_, ?_, ?_, rfl, hcalls⟩
  · intro step hstep
    obtain ⟨rest, hdrop, -⟩ := hat step hstep
    rw [← List.head?_drop, hdrop, List.head?_cons]
  · intro step hstep
    obtain ⟨rest, hdrop, hofLine⟩ := hat step hstep
    exact covers_of_step hdrop hofLine
  · intro i hi
    rw [hcovered i, if_pos ⟨Nat.zero_le i, by omega⟩]
  · rw [hlength, Run.report, LineStream.size, LineStream.ofSource, LineStream.ofLines, hlines]

end CanvasScript
