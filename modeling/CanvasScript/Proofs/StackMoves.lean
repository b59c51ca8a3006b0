/-
The pass over the brace totals, one move of the stack at a time.

`Sweep.pass` takes all hidden lines off the stack at once. Here the same pass makes one move after
the other: the line that is being passed pops the top of the stack as long as that line is hidden,
then gets its answer and is pushed. A run of such moves can be counted. Each line is pushed once, at
the end of its own turn, and what was pushed is either still on the stack or was popped, once. So a
run makes at most twice as many moves as there are lines, however the braces are arranged.

That these moves are those of the pass is said twice. From the start a run leads to every state
that `Sweep.ofTotals` has on its way, and a run that has passed all lines cannot have ended anywhere
else.
-/
import CanvasScript.Proofs.ClosingStack

set_option autoImplicit false

namespace CanvasScript

/-! ## Moves -/

/-- What the pass does to its stack. -/
inductive StackMove where
  | pop (line : Total)
  | push (line : Total)

namespace StackMove

def popped? : StackMove → Option Total
  | .pop line => some line
  | .push _ => none

def pushed? : StackMove → Option Total
  | .pop _ => none
  | .push line => some line

/-- The lines that moves take off the stack, in the order of the moves. -/
def popped (moves : List StackMove) : List Total := moves.filterMap popped?

/-- The lines that moves put onto the stack, in the order of the moves. -/
def pushed (moves : List StackMove) : List Total := moves.filterMap pushed?

/-- A move pops a line or pushes one. -/
theorem length_popped_add_length_pushed (moves : List StackMove) :
    (popped moves).length + (pushed moves).length = moves.length := by
  induction moves with
  | nil => rfl
  | cons move rest ih =>
    cases move with
    | pop line =>
      show ((popped rest).length + 1) + (pushed rest).length = rest.length + 1
      omega
    | push line =>
      show (popped rest).length + ((pushed rest).length + 1) = rest.length + 1
      omega

end StackMove

/-- The pass in the middle of its work. -/
structure PassState where
  /-- The lines that have not been passed, the last of them first. -/
  waiting : List Total
  /-- What has been made of the lines after those. -/
  sweep : Sweep

namespace PassState

open StackMove

/-- One move. The line whose turn it is pops the top of the stack while that is hidden, and is
pushed when it is not. -/
inductive Step : PassState → StackMove → PassState → Prop
  | pop {here top : Total} {waiting below : List Total} {closings : List (Option Closing)}
      (hhidden : here.total ≤ top.total) :
      Step ⟨here :: waiting, top :: below, closings⟩ (.pop top) ⟨here :: waiting, below, closings⟩
  | push {here : Total} {waiting stack : List Total} {closings : List (Option Closing)}
      (hvisible : ∀ top ∈ stack.head?, top.total < here.total) :
      Step ⟨here :: waiting, stack, closings⟩ (.push here)
        ⟨waiting, here :: stack, stack.head?.map (Sweep.closing here) :: closings⟩

/-- Moves made one after the other. -/
inductive Runs : PassState → List StackMove → PassState → Prop
  | refl (s : PassState) : Runs s [] s
  | more {s next final : PassState} {move : StackMove} {moves : List StackMove}
      (hstep : Step s move next) (hrest : Runs next moves final) : Runs s (move :: moves) final

/-- Runs can be put one behind the other, if the second begins where the first has ended. -/
theorem Runs.append {s middle final : PassState} {moves more : List StackMove}
    (h : Runs s moves middle) (h' : Runs middle more final) : Runs s (moves ++ more) final := by
  induction h with
  | refl s => exact h'
  | more hstep hrest ih => exact .more hstep (ih h')

/-! ## The moves of one line -/

/-- The moves of one line come to what the pass makes of it. It pops the lines that it hides one by
one, and then pushes itself. -/
theorem runs_pass (here : Total) (waiting : List Total) (sweep : Sweep) :
    ∃ moves, Runs ⟨here :: waiting, sweep⟩ moves ⟨waiting, Sweep.pass here sweep⟩ := by
  obtain ⟨stack, closings⟩ := sweep
  induction stack with
  | nil => exact ⟨_, .more (.push (by simp)) (.refl _)⟩
  | cons top below ih =>
    by_cases hhidden : here.total ≤ top.total
    · obtain ⟨moves, hmoves⟩ := ih
      refine ⟨.pop top :: moves, .more (.pop hhidden) ?_⟩
      rwa [Sweep.pass, Sweep.visible_cons_of_le hhidden]
    · have hvisible : top.total < here.total := Int.not_le.1 hhidden
      refine ⟨[.push here], .more (.push (by simpa using hvisible)) ?_⟩
      rw [Sweep.pass, Sweep.visible_cons_of_lt hvisible]
      exact .refl _

/-- The state before any line is passed. -/
def start (lines : List String) : PassState := ⟨(totals lines).reverse, Sweep.start⟩

/-- The state after line `i` and all later ones are passed. -/
def afterLine (lines : List String) (i : Nat) : PassState :=
  ⟨((totals lines).take i).reverse, Sweep.ofTotals ((totals lines).drop i)⟩

/-- Before any line is passed, the pass is at its start. -/
theorem afterLine_length (lines : List String) : afterLine lines lines.length = start lines := by
  rw [afterLine, start, ← length_totals, List.take_length, List.drop_length]
  rfl

/-- The pass gets to every line. -/
theorem runs_afterLine {lines : List String} {i : Nat} (hi : i ≤ lines.length) :
    ∃ moves, Runs (start lines) moves (afterLine lines i) := by
  induction hi using Nat.decreasingInduction with
  | self =>
    rw [afterLine_length]
    exact ⟨[], .refl _⟩
  | of_succ i hi ih =>
    obtain ⟨moves, hmoves⟩ := ih
    have htotal : i < (totals lines).length := by rwa [length_totals]
    have hwaiting : ((totals lines).take (i + 1)).reverse =
        totalAt lines i :: ((totals lines).take i).reverse := by
      rw [List.take_succ_eq_append_getElem htotal, List.reverse_append, getElem_totals]
      rfl
    -- the moves for this line come after those for the lines behind it
    obtain ⟨more, hmore⟩ := runs_pass (totalAt lines i) ((totals lines).take i).reverse
      (Sweep.ofTotals ((totals lines).drop (i + 1)))
    refine ⟨moves ++ more, hmoves.append ?_⟩
    rwa [afterLine, afterLine, hwaiting, drop_totals hi]

/-! ## What moves leave as it is -/

/-- What the pass makes of the lines that wait, in the end. -/
def finish (s : PassState) : Sweep :=
  s.waiting.foldl (fun sweep here => Sweep.pass here sweep) s.sweep

/-- A move does not change what the pass will come to. A pop only does now what passing the line
would have done in one go. -/
theorem Step.finish_eq {s next : PassState} {move : StackMove} (h : Step s move next) :
    next.finish = s.finish := by
  cases h with
  | @pop here top waiting below closings hhidden =>
    -- the line that is passed would have taken the top off anyway
    have hpass : Sweep.pass here ⟨below, closings⟩ = Sweep.pass here ⟨top :: below, closings⟩ := by
      rw [Sweep.pass, Sweep.pass, Sweep.visible_cons_of_le hhidden]
    rw [finish, finish, List.foldl_cons, List.foldl_cons, hpass]
  | @push here waiting stack closings hvisible =>
    have hstack : Sweep.visible here stack = stack := by
      cases stack with
      | nil => rfl
      | cons top below => exact Sweep.visible_cons_of_lt (hvisible top rfl) below
    rw [finish, finish, List.foldl_cons, Sweep.pass, hstack]

/-- So no run does. -/
theorem Runs.finish_eq {s final : PassState} {moves : List StackMove} (h : Runs s moves final) :
    final.finish = s.finish := by
  induction h with
  | refl s => rfl
  | more hstep hrest ih => exact ih.trans hstep.finish_eq

/-- From the start the pass comes to what `Sweep.ofTotals` gives. -/
theorem finish_start (lines : List String) :
    (start lines).finish = Sweep.ofTotals (totals lines) := by
  rw [finish, start, List.foldl_reverse, Sweep.ofTotals]

/-- Lines are pushed in the order in which they wait. -/
theorem Runs.waiting_eq {s final : PassState} {moves : List StackMove} (h : Runs s moves final) :
    s.waiting = pushed moves ++ final.waiting := by
  induction h with
  | refl s => rfl
  | more hstep hrest ih =>
    cases hstep with
    | pop hhidden => exact ih
    | push hvisible => exact congrArg _ ih

/-- **Nothing is lost on the stack.** What was there and what was pushed is there still or was
popped. -/
theorem Runs.perm {s final : PassState} {moves : List StackMove} (h : Runs s moves final) :
    (popped moves ++ final.sweep.stack).Perm (pushed moves ++ s.sweep.stack) := by
  induction h with
  | refl s => exact List.Perm.refl _
  | more hstep hrest ih =>
    cases hstep with
    | pop hhidden => exact (ih.cons _).trans List.perm_middle.symm
    | push hvisible => exact ih.trans List.perm_middle

/-! ## Runs from the start -/

/-- Lines that were pushed and lines that wait are together all lines, the last one first. -/
theorem Runs.map_line_pushed_append {lines : List String} {moves : List StackMove} {s : PassState}
    (h : Runs (start lines) moves s) :
    (pushed moves).map Total.line ++ s.waiting.map Total.line =
      (List.range lines.length).reverse := by
  rw [← List.map_append, ← h.waiting_eq, start, List.map_reverse, map_line_totals]

/-- No line is pushed twice, as lines are pushed from the last to the first. -/
theorem Runs.nodup_pushed {lines : List String} {moves : List StackMove} {s : PassState}
    (h : Runs (start lines) moves s) : ((pushed moves).map Total.line).Nodup := by
  have hnodup : (List.range lines.length).reverse.Nodup :=
    List.nodup_reverse.2 List.nodup_range
  rw [← h.map_line_pushed_append] at hnodup
  exact (List.nodup_append.1 hnodup).1

/-- So there are no more pushes than lines. -/
theorem Runs.length_pushed_le {lines : List String} {moves : List StackMove} {s : PassState}
    (h : Runs (start lines) moves s) : (pushed moves).length ≤ lines.length := by
  have hlength := congrArg List.length h.map_line_pushed_append
  rw [List.length_append, List.length_map, List.length_reverse, List.length_range] at hlength
  omega

/-- What was pushed was popped, or is on the stack. -/
theorem Runs.popped_append_stack_perm {lines : List String} {moves : List StackMove}
    {s : PassState} (h : Runs (start lines) moves s) :
    (popped moves ++ s.sweep.stack).Perm (pushed moves) := by
  have hperm := h.perm
  rwa [start, Sweep.start, List.append_nil] at hperm

/-- No line is popped twice, since a line that is popped was pushed and is not on the stack any
more. -/
theorem Runs.nodup_popped {lines : List String} {moves : List StackMove} {s : PassState}
    (h : Runs (start lines) moves s) : ((popped moves).map Total.line).Nodup := by
  have hnodup := (h.popped_append_stack_perm.map Total.line).nodup_iff.2 h.nodup_pushed
  rw [List.map_append] at hnodup
  exact (List.nodup_append.1 hnodup).1

end PassState

/-! ## The pass as a whole -/

open PassState StackMove

/-- **The stack of the pass.** The pass gets to every line `i`, and its stack is then the chain of
nearest smaller balances that starts there, with growing line numbers and shrinking balances, and
every line that was passed has its nearest smaller balance. On the way no line is pushed or popped
twice; a pass that is done has pushed each line once and has made the answers of the index. Literals
therefore nest: a line inside a literal closes no later than the literal does. -/
theorem closing_stack_invariant (lines : List String) :
    (∀ i, i ≤ lines.length →
      (∃ moves, Runs (start lines) moves (afterLine lines i)) ∧
      PassedFrom lines i (afterLine lines i).sweep ∧
      (afterLine lines i).sweep.stack.Pairwise fun upper lower =>
        upper.line < lower.line ∧ lower.total < upper.total) ∧
    (∀ moves s, Runs (start lines) moves s →
      ((pushed moves).map Total.line).Nodup ∧ ((popped moves).map Total.line).Nodup ∧
      (popped moves).length ≤ lines.length ∧ moves.length ≤ 2 * lines.length ∧
      (s.waiting = [] →
        (pushed moves).map Total.line = (List.range lines.length).reverse ∧
          s.sweep.closings.toArray = (BraceIndex.ofLines lines).closings)) ∧
    ∀ i closing, (BraceIndex.ofLines lines).closing? i = some closing →
      ∀ j, i < j → j < closing.line →
        ∃ inner, (BraceIndex.ofLines lines).closing? j = some inner ∧
          inner.line ≤ closing.line := by
  refine ⟨fun i hi => ?_, fun moves s h => ?_, fun i closing h j hij hj => ?_⟩
  · have hpassed := passedFrom_ofTotals hi
    exact ⟨runs_afterLine hi, hpassed, hpassed.pairwise hi⟩
  · -- what was pushed has been popped or is on the stack, so there are no more pops than pushes
    have hpushed := h.length_pushed_le
    have hbalance := h.popped_append_stack_perm.length_eq
    rw [List.length_append] at hbalance
    refine ⟨h.nodup_pushed, h.nodup_popped, by omega, ?_, fun hdone => ⟨?_, ?_⟩⟩
    · have hmoves := length_popped_add_length_pushed moves
      omega
    · rw [← h.map_line_pushed_append, hdone, List.map_nil, List.append_nil]
    · -- nothing waits, so what the pass has made is what it was to make in the end
      have hfinal : s.finish = s.sweep := by rw [finish, hdone]; rfl
      rw [← hfinal, h.finish_eq, finish_start]
      rfl
  · obtain ⟨hnearest, -⟩ := BraceIndex.isNearestSmaller_of_closing? h
    have hinside : closing.line < lines.length := hnearest.1.2.1
    -- the closing line lies below the balance at line `i`, hence below the one at line `j`
    have hsmaller : runningBalance lines closing.line < runningBalance lines j := by
      have hle := hnearest.le_of_lt hij hj
      have hlt := hnearest.1.2.2
      omega
    obtain ⟨k, hk, hclosing⟩ := exists_isNearestSmaller hj hinside hsmaller
    have hanswer := BraceIndex.isClosingOf_closing? (Nat.lt_trans hj hinside)
    rcases hinner : (BraceIndex.ofLines lines).closing? j with _ | inner
    · rw [hinner] at hanswer
      exact absurd hclosing (hanswer k)
    · rw [hinner] at hanswer
      exact ⟨inner, rfl, Nat.le_trans (hanswer.1.2 hclosing.1) hk⟩

end CanvasScript
