/-
The lines of a script, written again as a script.

The lines that a line stream is made of are not empty, hold no line feed, and have no blank
at either end. Lines of this kind, joined with line feeds, are a script with exactly these
lines, so any selection of the lines of a script can be run as a script of its own.

Such a selection comes from a run: the lines that did not fail, or the lines of a literal. To say
what its own run does, it has to be known that cutting the joined text gives the selection back, and
`linesOf_intercalate` says so.
-/
import CanvasScript.Proofs.TextPieces
import CanvasScript.Script.LineStream

set_option autoImplicit false

namespace CanvasScript

/-! ## Lines of a script -/

namespace LineStream

/-- What a line of a line stream is like. -/
structure IsLine (line : String) : Prop where
  ne_empty : line.toList ≠ []
  no_lineFeed : '\n' ∉ line.toList
  trimmed : Text.trim line.toList = line.toList

theorem isLine_of_mem_linesOf {source line : String} (h : line ∈ linesOf source) :
    IsLine line := by
  rw [linesOf, List.mem_map] at h
  obtain ⟨text, htext, rfl⟩ := h
  rw [List.mem_filter, List.mem_map] at htext
  obtain ⟨⟨piece, hpiece, rfl⟩, hne⟩ := htext
  refine ⟨?_, ?_, ?_⟩
  · rw [String.toList_ofList]
    simpa using hne
  · rw [String.toList_ofList]
    intro hmem
    exact Text.not_mem_of_mem_splitOn hpiece ((Text.trim_sublist piece).subset hmem)
  · rw [String.toList_ofList, Text.trim_trim]

/-- **Lines joined with line feeds are a script with exactly these lines.** Being a line means to
have no line feed, no blanks at the ends and at least one character, so cutting, trimming and
dropping leave it as it is. -/
theorem linesOf_intercalate {lines : List String} (h : ∀ line ∈ lines, IsLine line) :
    linesOf ("\n".intercalate lines) = lines := by
  rcases lines with _ | ⟨first, others⟩
  · decide
  · have hsplit : ("\n".intercalate (first :: others)).toList.splitOn '\n' =
        (first :: others).map String.toList := by
      rw [String.toList_intercalate]
      apply List.splitOn_intercalate
      · intro text htext
        obtain ⟨line, hline, rfl⟩ := List.mem_map.1 htext
        exact (h line hline).no_lineFeed
      · simp
    -- trimming and dropping blank lines leaves such lines as they are
    have htrim : ∀ line ∈ first :: others, (Text.trim ∘ String.toList) line = line.toList :=
      fun line hline => (h line hline).trimmed
    have hfilter : ∀ text ∈ (first :: others).map String.toList, (!text.isEmpty) = true := by
      intro text htext
      obtain ⟨line, hline, rfl⟩ := List.mem_map.1 htext
      simpa using (h line hline).ne_empty
    rw [linesOf, hsplit, List.map_map, List.map_congr_left htrim, List.filter_eq_self.2 hfilter,
      List.map_map]
    simp

/-- The lines of two scripts with a line feed between them are the lines of one and then those
of the other. -/
theorem linesOf_append (first second : String) :
    linesOf (first ++ "\n" ++ second) = linesOf first ++ linesOf second := by
  have hsplit : (first ++ "\n" ++ second).toList.splitOn '\n' =
      first.toList.splitOn '\n' ++ second.toList.splitOn '\n' := by
    have hchars : (first ++ "\n" ++ second).toList = first.toList ++ '\n' :: second.toList := by
      rw [String.toList_append, String.toList_append, List.append_assoc]
      rfl
    rw [hchars, List.splitOn_append_cons_self]
  rw [linesOf, linesOf, linesOf, hsplit, List.map_append, List.filter_append, List.map_append]

end LineStream

end CanvasScript
