/-
Two scripts run one after the other are one script, unless the second closes what the first
left open.

The brace index of the two scripts together is made from all their lines, so it can differ from
the two indices that are made apart. It differs in one way only. A literal that closes within
the first script closes there in both cases, and a literal of the second script looks at lines
of the second script in both cases. What is left are the literals that the first script leaves
open: at its last line their depth is positive, and in the second script the depth goes on from
there. If no beginning of the second script closes more braces than it opens, that depth stays
positive, and such a literal fails in both cases.

So the effects of the lines together are the effects of the first script and then those of the
second one with the bindings that the first one left (`effects_append`), and a run is the replay
of its effects.
-/
import CanvasScript.Proofs.Replay
import CanvasScript.Proofs.ScriptLines
import Mathlib.Data.List.Infix

set_option autoImplicit false

namespace CanvasScript

/-! ## Lines that close nothing before them -/

/-- No beginning of the lines has more closing braces than opening ones. -/
def ClosesOnlyItsOwn (lines : List String) : Prop :=
  ∀ front ∈ lines.inits,
    (front.flatMap String.toList).count '\x7d' ≤ (front.flatMap String.toList).count '\x7b'

instance (lines : List String) : Decidable (ClosesOnlyItsOwn lines) :=
  inferInstanceAs (Decidable (∀ front ∈ lines.inits, _))

theorem sum_braceBalance (lines : List String) :
    (lines.map braceBalance).sum =
      ((lines.flatMap String.toList).count '\x7b' : Int) -
        ((lines.flatMap String.toList).count '\x7d' : Int) := by
  induction lines with
  | nil => rfl
  | cons line rest ih =>
    rw [List.map_cons, List.sum_cons, ih, braceBalance_eq_braceExcess, braceExcess,
      List.flatMap_cons, List.count_append, List.count_append]
    omega

/-- Lines never close a literal when the depth stays positive behind each of their beginnings. A
scan tests its depth behind every line, and these are the depths that it sees. -/
theorem closingFrom?_eq_none {depth : Int} {lines : List String}
    (h : ∀ front, front <+: lines → 0 < depth + (front.map braceBalance).sum) (start : Nat) :
    closingFrom? depth start lines = none := by
  induction lines generalizing depth start with
  | nil => rfl
  | cons line rest ih =>
    have hline : 0 < depth + braceBalance line := by
      have hone := h [line] (by simp)
      simpa using hone
    rw [closingFrom?, if_neg (by omega)]
    apply ih
    intro front hfront
    have hmore := h (line :: front) (List.cons_prefix_cons.2 ⟨rfl, hfront⟩)
    rw [List.map_cons, List.sum_cons] at hmore
    omega

/-- Lines that close only what they open do not matter to a literal opened before them. It stays
open through all of them, whatever its depth, as that is at least one when they begin. -/
theorem closingFrom?_append {depth : Int} (hdepth : 0 < depth) (lines : List String)
    {more : List String} (hmore : ClosesOnlyItsOwn more) (start : Nat) :
    closingFrom? depth start (lines ++ more) = closingFrom? depth start lines := by
  induction lines generalizing depth start with
  | nil =>
    rw [List.nil_append]
    apply closingFrom?_eq_none
    intro front hfront
    have hcount := hmore front ((List.mem_inits front more).2 hfront)
    rw [sum_braceBalance]
    omega
  | cons line rest ih =>
    rw [List.cons_append, closingFrom?, closingFrom?]
    by_cases hclosed : depth + braceBalance line ≤ 0
    · rw [if_pos hclosed, if_pos hclosed]
    · rw [if_neg hclosed, if_neg hclosed]
      exact ih (by omega) (start + 1)

/-! ## Effects of lines with such lines behind them -/

theorem Gathered.fromRest_append (value line : String) (rest : List String)
    {more : List String} (hmore : ClosesOnlyItsOwn more) :
    fromRest value line (rest ++ more) = fromRest value line rest := by
  rw [fromRest, fromRest, closingFrom?_append Int.one_pos rest hmore]
  rcases hscan : closingFrom? 1 1 rest with _ | c
  · rfl
  · -- what is taken ends within the lines before
    have hinside : c.line ≤ rest.length := by
      have hbounds := closingFrom?_bounds hscan
      omega
    dsimp only
    rw [List.take_append_of_le_length hinside]

theorem effectOf_append (vars : Bindings) (line : String) (rest : List String)
    {more : List String} (hmore : ClosesOnlyItsOwn more) :
    effectOf vars line (rest ++ more) = effectOf vars line rest := by
  have hliteral : ∀ value, Builtin.wholeLiteral (.front line (rest ++ more)) value =
      Builtin.wholeLiteral (.front line rest) value := by
    intro value
    rw [CommandInput.front, CommandInput.front, Builtin.wholeLiteral_eq_fromRest,
      Builtin.wholeLiteral_eq_fromRest]
    have hrest : ∀ lines : List String, (line :: lines).drop (0 + 1) = lines := fun _ => rfl
    rw [hrest, hrest, Gathered.fromRest_append _ _ _ hmore]
  have hread : Builtin.readBinding (.front line (rest ++ more)) vars =
      Builtin.readBinding (.front line rest) vars := by
    simp only [Builtin.readBinding, hliteral]
    rfl
  rw [effectOf, effectOf, hread]

/-- The bindings that the effects of lines leave. -/
def varsAfterAll (vars : Bindings) (es : List (String × LineEffect)) : Bindings :=
  es.foldl (fun vars e => e.2.varsAfter vars) vars

/-- **The effects of lines, and then those of more lines**, which close only what they open. The
induction is over what a line leaves to come: none of the first lines takes one of the others, so
each of them has the effect that it has alone. -/
theorem effects_append (vars : Bindings) (lines : List String) {more : List String}
    (hmore : ClosesOnlyItsOwn more) :
    effects vars (lines ++ more) =
      effects vars lines ++ effects (varsAfterAll vars (effects vars lines)) more := by
  induction lines using remaining_induction generalizing vars with
  | nil =>
    rw [effects_nil]
    rfl
  | cons line rest ih =>
    have htaken := consumed_effectOf_le vars line rest
    -- a line takes none but those of the first script, so the others remain behind what is left of
    -- it
    have hdrop : (rest ++ more).drop (effectOf vars line rest).consumed =
        rest.drop (effectOf vars line rest).consumed ++ more :=
      List.drop_append_of_le_length htaken
    rw [List.cons_append, effects_cons, effects_cons vars line rest,
      effectOf_append vars line rest hmore, hdrop, ih]
    rfl

/-! ## Replays of effects after one another -/

/-- The session after effects depends neither on the index of the first line nor on which
texts were drawn where. -/
theorem replay_index (index other : Nat) (session : Session) (es : List (String × LineEffect)) :
    (replay index session es).session = (replay other session es).session ∧
      (replay index session es).calls = (replay other session es).calls := by
  induction es generalizing index other session with
  | nil => exact ⟨rfl, rfl⟩
  | cons e more ih =>
    obtain ⟨line, effect⟩ := e
    have hafter : session.after (effect.result index line session.vars) =
        session.after (effect.result other line session.vars) := rfl
    obtain ⟨hsession, hcalls⟩ := ih (index + 1 + effect.consumed) (other + 1 + effect.consumed)
      (session.after (effect.result index line session.vars))
    rw [replay_cons, replay_cons, Run.session_cons, Run.session_cons, Run.calls_cons,
      Run.calls_cons, hsession, hcalls, hafter]
    exact ⟨rfl, rfl⟩

/-- A replay of effects and more effects is a replay of the first and then, in the session that it
leaves, one of the others. The second may count its lines from any index, since calls and sessions
hold no line numbers. -/
theorem replay_append (index other : Nat) (session : Session)
    (es more : List (String × LineEffect)) :
    let first := replay index session es
    let second := replay other first.session more
    (replay index session (es ++ more)).session = second.session ∧
      (replay index session (es ++ more)).calls = first.calls ++ second.calls := by
  induction es generalizing index session with
  | nil => exact replay_index index other session more
  | cons e es ih =>
    obtain ⟨line, effect⟩ := e
    obtain ⟨hsession, hcalls⟩ := ih (index + 1 + effect.consumed)
      (session.after (effect.result index line session.vars))
    dsimp only at hsession hcalls ⊢
    rw [List.cons_append, replay_cons, replay_cons, Run.session_cons, Run.session_cons,
      Run.calls_cons, Run.calls_cons, hsession, hcalls, List.append_assoc]
    exact ⟨rfl, rfl⟩

/-! ## Two scripts -/

/-- **Two scripts run one after the other are one script**, in any session, when no beginning of the
lines of the second closes more braces than it opens: the same draw calls in the same order, the
same session afterwards, and reports that add up. The condition is on the second script alone,
because a literal that the first leaves open is the only thing that could reach over the border. -/
theorem run_concatenation (session : Session) (first second : String)
    (hsecond : ClosesOnlyItsOwn (LineStream.linesOf second)) :
    let start : Interpreter := ⟨Builtin.commands, session⟩
    let (between, firstRun, firstReport) := start.run first
    let (after, secondRun, secondReport) := between.run second
    let (afterBoth, bothRun, report) := start.run (first ++ "\n" ++ second)
    bothRun.calls = firstRun.calls ++ secondRun.calls ∧
      afterBoth.session = after.session ∧
      report = ⟨firstReport.lines + secondReport.lines,
        firstReport.rendered + secondReport.rendered,
        firstReport.errors + secondReport.errors⟩ := by
  have hexecute : ∀ (session : Session) (source : String),
      execute Builtin.commands (LineStream.ofSource source) session =
        replay 0 session (effects session.vars (LineStream.linesOf source)) :=
    runScript_builtin
  have hsize : ∀ source : String,
      (LineStream.ofSource source).size = (LineStream.linesOf source).length := fun _ => rfl
  dsimp only [Interpreter.run, Run.report]
  rw [hexecute, hexecute, hexecute, hsize, hsize, hsize, LineStream.linesOf_append,
    effects_append session.vars _ hsecond, vars_replay]
  obtain ⟨hsession, hcalls⟩ := replay_append 0 0 session
    (effects session.vars (LineStream.linesOf first))
    (effects (varsAfterAll session.vars (effects session.vars (LineStream.linesOf first)))
      (LineStream.linesOf second))
  -- lines, calls and failures are counted, and counts of two lists add up
  refine ⟨hcalls, hsession, ?_⟩
  simp only [Report.mk.injEq]
  refine ⟨List.length_append, ?_, ?_⟩
  · rw [hcalls, List.length_append]
    rfl
  · rw [errors_replay, errors_replay, errors_replay, List.countP_append]
    rfl

/-- The first script leaves a literal open, and the second has a literal of its own. -/
theorem run_concatenation_of_open_literal :
    let first := "display(1)\nset p = \x7b\na: 1,"
    let second := "set q = \x7b\nb: 2\n\x7d\ndisplay(q.b)"
    ClosesOnlyItsOwn (LineStream.linesOf second) ∧
      let start : Interpreter := ⟨Builtin.commands, ⟨.empty, 3⟩⟩
      let (between, firstRun, firstReport) := start.run first
      let (after, secondRun, secondReport) := between.run second
      let (afterBoth, bothRun, report) := start.run (first ++ "\n" ++ second)
      bothRun.calls = firstRun.calls ++ secondRun.calls ∧
        afterBoth.session = after.session ∧
        report = ⟨firstReport.lines + secondReport.lines,
          firstReport.rendered + secondReport.rendered,
          firstReport.errors + secondReport.errors⟩ := by
  intro first second
  have hsecond : ClosesOnlyItsOwn (LineStream.linesOf second) := by decide
  exact ⟨hsecond, run_concatenation ⟨.empty, 3⟩ first second hsecond⟩

end CanvasScript
