/-
What gathering an object literal comes to.

`byPlainScan` is the rule for literals that span lines, with nothing precomputed: append the
lines after the opening one until the depth is no longer positive, and fail when it is
negative there or when the lines run out first. `Gathered.ofLines` with the brace index of
the same lines follows that rule for every index.

The second half says what gathering looks at. The lines up to the opening one play no part,
so gathering is a function `fromRest` of the lines after it, and of those only the lines that
are taken matter. This is what lets two runs over different line streams be compared.
-/
import CanvasScript.Literal.Aggregate
import CanvasScript.Proofs.ClosingLine

set_option autoImplicit false

namespace CanvasScript

namespace Gathered

/-! ## The rule without an index -/

/-- Gathers a literal by scanning the lines after its opening line for the first one where
the depth is not positive. -/
def byPlainScan (value line : String) (lines : List String) (index : Nat) :
    Except ScriptError Gathered :=
  if value.toList.getLast? = some '\x7d' then .ok ⟨value, 0⟩
  else
    match firstClosed? lines index with
    | none => .error (.malformedObject line)
    | some k =>
      if depthAfter lines index k = 0 then
        .ok ⟨((lines.take (k + 1)).drop (index + 1)).foldl (fun text next => text ++ " " ++ next)
          value, k - index⟩
      else .error (.malformedObject line)

/-- Joining lines is putting them behind the value one after the other, as the plain scan does. -/
theorem join_eq_foldl (value : String) (lines : List String) :
    join value lines = lines.foldl (fun text next => text ++ " " ++ next) value := by
  induction lines generalizing value with
  | nil => simp [join]
  | cons next rest ih =>
    rw [List.foldl_cons, ← ih, join, join, List.map_cons, String.join_cons]
    simp only [String.append_assoc]

theorem isClosed_eq_true_iff (value : String) :
    isClosed value = true ↔ value.toList.getLast? = some '\x7d' := by
  rw [isClosed, beq_iff_eq]

/-- **Gathering with the precomputed index is the plain scan**, for every value, every list of lines
and every index. The index answers from one pass over the lines made in advance, and the scan goes
forward from the line each time. -/
theorem ofLines_eq_byPlainScan (value line : String) (lines : List String) (index : Nat) :
    ofLines value line lines (.ofLines lines) index = byPlainScan value line lines index := by
  rw [ofLines, byPlainScan]
  by_cases hclosed : value.toList.getLast? = some '\x7d'
  · rw [if_pos ((isClosed_eq_true_iff value).2 hclosed), if_pos hclosed]
  · rw [if_neg (mt (isClosed_eq_true_iff value).1 hclosed), if_neg hclosed,
      BraceIndex.closing?_ofLines, closingAfter?_eq_firstClosed?]
    cases hfirst : firstClosed? lines index with
    | none => rfl
    | some k =>
      -- the closing line is one of the lines, so the check for that always passes
      obtain ⟨hafter, hinside⟩ := firstClosed?_bounds hfirst
      dsimp only [Option.map_some]
      by_cases hdepth : depthAfter lines index k = 0
      · have htaken : (lines.drop (index + 1)).take (k - index) =
            (lines.take (k + 1)).drop (index + 1) := by
          rw [List.take_drop, show index + 1 + (k - index) = k + 1 by omega]
        rw [if_pos ⟨hdepth, hinside⟩, if_pos hdepth, htaken, join_eq_foldl]
      · rw [if_neg (fun h => hdepth h.1), if_neg hdepth]

end Gathered

/-! ## The scan is local -/

/-- The scan does not know where in the script it begins, but for the number that it gives. So the
lines after a binding can be looked at as if they were all there is. -/
theorem closingFrom?_shift (depth : Int) (start offset : Nat) (lines : List String) :
    closingFrom? depth (offset + start) lines =
      (closingFrom? depth start lines).map fun c => ⟨offset + c.line, c.depth⟩ := by
  induction lines generalizing depth start with
  | nil => rfl
  | cons line rest ih =>
    rw [closingFrom?, closingFrom?]
    by_cases hclosed : depth + braceBalance line ≤ 0
    · rw [if_pos hclosed, if_pos hclosed, Option.map_some]
    · rw [if_neg hclosed, if_neg hclosed, Nat.add_assoc]
      exact ih _ (start + 1)

/-- The closing line is one of those that are scanned. -/
theorem closingFrom?_bounds {depth : Int} {start : Nat} {lines : List String} {c : Closing}
    (h : closingFrom? depth start lines = some c) :
    start ≤ c.line ∧ c.line < start + lines.length := by
  induction lines generalizing depth start with
  | nil => rw [closingFrom?] at h; simp at h
  | cons line rest ih =>
    rw [closingFrom?] at h
    rw [List.length_cons]
    -- the scan ends at this line, or the line is one of the rest
    by_cases hclosed : depth + braceBalance line ≤ 0
    · rw [if_pos hclosed, Option.some.injEq] at h
      rw [← h]
      dsimp only
      omega
    · rw [if_neg hclosed] at h
      have hrest := ih h
      omega

/-- Lines after the closing one make no difference. A scan stops at the line where the depth is used
up, so it never sees them. -/
theorem closingFrom?_take_append {depth : Int} {start : Nat} {lines : List String} {c : Closing}
    (h : closingFrom? depth start lines = some c) (more : List String) :
    closingFrom? depth start (lines.take (c.line + 1 - start) ++ more) = some c := by
  induction lines generalizing depth start with
  | nil => rw [closingFrom?] at h; simp at h
  | cons line rest ih =>
    rw [closingFrom?] at h
    by_cases hclosed : depth + braceBalance line ≤ 0
    · -- the scan ends here, so this line is the only one that it needs
      rw [if_pos hclosed, Option.some.injEq] at h
      have hone : c.line + 1 - start = 0 + 1 := by rw [← h]; dsimp only; omega
      rw [hone, List.take_succ_cons, List.cons_append, closingFrom?, if_pos hclosed, h]
    · rw [if_neg hclosed] at h
      have hbounds := closingFrom?_bounds h
      have hmore : c.line + 1 - start = (c.line + 1 - (start + 1)) + 1 := by omega
      rw [hmore, List.take_succ_cons, List.cons_append, closingFrom?, if_neg hclosed]
      exact ih h

namespace Gathered

/-! ## Gathering from the lines after the opening one -/

/-- Gathers a literal from the lines after its opening line. -/
def fromRest (value line : String) (rest : List String) : Except ScriptError Gathered :=
  if isClosed value then .ok ⟨value, 0⟩
  else
    -- numbered from one, a closing line is the number of lines that are taken
    match closingFrom? 1 1 rest with
    | none => .error (.malformedObject line)
    | some closing =>
      if closing.depth = 0 then .ok ⟨join value (rest.take closing.line), closing.line⟩
      else .error (.malformedObject line)

/-- The lines before the opening one play no part. The index is made from all lines, but what it
says of a line is what a scan from the next line on would find. -/
theorem ofLines_eq_fromRest (value line : String) (lines : List String) (index : Nat) :
    ofLines value line lines (.ofLines lines) index =
      fromRest value line (lines.drop (index + 1)) := by
  rw [ofLines, fromRest, BraceIndex.closing?_ofLines, closingAfter?, closingFrom?_shift]
  by_cases hclosed : isClosed value = true
  · rw [if_pos hclosed, if_pos hclosed]
  · rw [if_neg hclosed, if_neg hclosed]
    rcases hscan : closingFrom? 1 1 (lines.drop (index + 1)) with _ | c
    · rfl
    · -- the closing line is found among the lines after the opening one
      have hinside : index + c.line < lines.length := by
        have hbounds := closingFrom?_bounds hscan
        rw [List.length_drop] at hbounds
        omega
      dsimp only [Option.map_some]
      by_cases hdepth : c.depth = 0
      · rw [if_pos ⟨hdepth, hinside⟩, if_pos hdepth, Nat.add_sub_cancel_left]
      · rw [if_neg (fun h => hdepth h.1), if_neg hdepth]

/-- A value that is closed on its own line takes no others. -/
theorem fromRest_of_isClosed {value : String} (h : isClosed value = true) (line : String)
    (rest : List String) : fromRest value line rest = .ok ⟨value, 0⟩ := by
  rw [fromRest, if_pos h]

/-- A literal that is left open is gathered exactly when it closes at depth zero. A scan that ends
below zero has met a brace too many, and one that does not end has met too few. -/
theorem fromRest_eq_ok_iff {value line : String} {rest : List String} {g : Gathered}
    (hopen : isClosed value = false) :
    fromRest value line rest = .ok g ↔
      closingFrom? 1 1 rest = some ⟨g.consumed, 0⟩ ∧
        g.text = join value (rest.take g.consumed) := by
  rw [fromRest, if_neg (by simp [hopen])]
  rcases closingFrom? 1 1 rest with _ | ⟨last, depth⟩
  · simp
  · dsimp only
    -- the scan has found a closing line, and its depth decides
    by_cases hdepth : depth = 0
    · obtain ⟨text, consumed⟩ := g
      rw [if_pos hdepth]
      constructor
      · intro h
        simp only [Except.ok.injEq, Gathered.mk.injEq] at h
        obtain ⟨rfl, rfl⟩ := h
        exact ⟨by rw [hdepth], rfl⟩
      · rintro ⟨hscan, htext⟩
        simp only [Option.some.injEq, Closing.mk.injEq] at hscan
        obtain ⟨rfl, -⟩ := hscan
        dsimp only at htext
        rw [htext]
    · rw [if_neg hdepth]
      simp [hdepth]

/-- A literal takes lines that are there. -/
theorem consumed_le_of_fromRest {value line : String} {rest : List String} {g : Gathered}
    (h : fromRest value line rest = .ok g) : g.consumed ≤ rest.length := by
  rcases hclosed : isClosed value with _ | _
  · have hscan := ((fromRest_eq_ok_iff hclosed).1 h).1
    have hbounds := closingFrom?_bounds hscan
    dsimp only at hbounds
    omega
  · rw [fromRest_of_isClosed hclosed, Except.ok.injEq] at h
    rw [← h]
    exact Nat.zero_le _

/-- What follows the lines that a literal takes makes no difference to it. It closes within them,
and looks no further. -/
theorem fromRest_take_append {value line : String} {rest : List String} {g : Gathered}
    (h : fromRest value line rest = .ok g) (more : List String) :
    fromRest value line (rest.take g.consumed ++ more) = .ok g := by
  rcases hclosed : isClosed value with _ | _
  · have hle := consumed_le_of_fromRest h
    obtain ⟨hscan, htext⟩ := (fromRest_eq_ok_iff hclosed).1 h
    have hsame : (rest.take g.consumed ++ more).take g.consumed = rest.take g.consumed := by
      rw [List.take_left' (by rw [List.length_take]; omega)]
    rw [fromRest_eq_ok_iff hclosed, hsame]
    exact ⟨closingFrom?_take_append hscan more, htext⟩
  · rw [fromRest_of_isClosed hclosed] at h ⊢
    exact h

end Gathered

end CanvasScript
