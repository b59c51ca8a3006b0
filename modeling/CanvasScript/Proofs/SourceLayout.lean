/-
The layout of a script, which makes no difference to it.

A script may be indented, have blank lines between its lines, blanks behind them, and either of the
two line endings, and none of it reaches the commands: not inside an object literal on several lines
either, since blank lines are gone before literals are put together. Here this is said of the text
itself. `LayoutEdit` lists the single edits, at the places in a text where a line starts or ends,
and the texts that such edits lead to in either direction are exactly those with the same lines
(`eqvGen_layoutEdit_iff`). The second half of that says that the list leaves nothing out: whatever
else two texts with the same lines differ in, these edits can undo.

A line of a text is what a line feed ends, with or without a carriage return in front of it. A
carriage return anywhere else is a blank like any other, which is why the lines of a stream can be
taken at line feeds alone (`linesOf_eq_endedLines`).
-/
import CanvasScript.Proofs.ClosingText
import CanvasScript.Proofs.JoinedLines
import CanvasScript.Proofs.LineBreaks
import CanvasScript.Proofs.ScriptLines
import CanvasScript.Script.Interpreter
import Mathlib.Logic.Relation

set_option autoImplicit false

namespace CanvasScript

namespace Text

/-! ## Where lines start and end -/

/-- Whether a line starts behind a text: there is nothing, or a line ends there. -/
def StartsLine (before : List Char) : Prop := before = [] ∨ ∃ front, before = front ++ ['\n']

/-- Whether a line ends in front of a text: there is nothing, or one of the two line endings. -/
def EndsLine (after : List Char) : Prop :=
  after = [] ∨ ∃ rest, after = '\n' :: rest ∨ after = '\r' :: '\n' :: rest

/-- Blanks that can stand on one line. -/
structure AreOnLine (blanks : List Char) : Prop where
  blank : ∀ c ∈ blanks, isBlank c = true
  no_lineFeed : '\n' ∉ blanks

theorem AreOnLine.nil : AreOnLine [] := ⟨no_blanks, List.not_mem_nil⟩

theorem areOnLine_singleton {c : Char} (hblank : isBlank c = true) (hfeed : c ≠ '\n') :
    AreOnLine [c] :=
  ⟨List.forall_mem_singleton.2 hblank, by simpa using hfeed.symm⟩

theorem areOnLine_carriageReturn : AreOnLine ['\r'] := areOnLine_singleton rfl (by decide)

/-- Blanks on one line can be put behind each other. -/
theorem AreOnLine.append {first second : List Char} (hfirst : AreOnLine first)
    (hsecond : AreOnLine second) : AreOnLine (first ++ second) :=
  ⟨List.forall_mem_append.2 ⟨hfirst.blank, hsecond.blank⟩, by
    simp [hfirst.no_lineFeed, hsecond.no_lineFeed]⟩

/-- Behind a text at whose end a line starts, the lines of another come on their own. -/
theorem lineTexts_append_of_startsLine {before : List Char} (h : StartsLine before)
    (text : List Char) : lineTexts (before ++ text) = lineTexts before ++ lineTexts text := by
  rcases h with rfl | ⟨front, rfl⟩
  · rfl
  · have hfront : lineTexts (front ++ ['\n']) = lineTexts front ++ lineTexts [] :=
      lineTexts_append_lineFeed front []
    rw [hfront, List.append_assoc, List.singleton_append, lineTexts_append_lineFeed,
      List.append_assoc]
    rfl

/-- A text is some lines and a last one, which may be empty. -/
theorem exists_lastLine (text : List Char) :
    ∃ front last, text = front ++ last ∧ StartsLine front ∧ '\n' ∉ last := by
  by_cases h : '\n' ∈ text
  · obtain ⟨front, last, rfl, hlast⟩ := exists_last h
    exact ⟨front ++ ['\n'], last, by simp, .inr ⟨front, rfl⟩, hlast⟩
  · exact ⟨[], text, rfl, .inl rfl, h⟩

/-- Blanks at the end of a text make no difference to its lines. -/
theorem lineTexts_append_blanks {blanks : List Char} (h : AreOnLine blanks) (text : List Char) :
    lineTexts (text ++ blanks) = lineTexts text := by
  obtain ⟨front, last, rfl, hfront, hlast⟩ := exists_lastLine text
  have hclear : '\n' ∉ last ++ blanks := by
    rw [List.mem_append, not_or]
    exact ⟨hlast, h.no_lineFeed⟩
  have htrim : trim (last ++ blanks) = trim last := trim_between_blanks no_blanks h.blank last
  rw [List.append_assoc, lineTexts_append_of_startsLine hfront,
    lineTexts_append_of_startsLine hfront, lineTexts_of_no_lineFeed hclear, htrim,
    lineTexts_of_no_lineFeed hlast]

/-- Nor do blanks at the end of any line. -/
theorem lineTexts_of_endsLine {after : List Char} (hend : EndsLine after) {blanks : List Char}
    (h : AreOnLine blanks) (before : List Char) :
    lineTexts (before ++ (blanks ++ after)) = lineTexts (before ++ after) := by
  -- the line ends with the text, with a line feed, or with a carriage return and a line feed
  rcases hend with rfl | ⟨rest, rfl | rfl⟩
  · rw [List.append_nil, List.append_nil]
    exact lineTexts_append_blanks h before
  · rw [← List.append_assoc, lineTexts_append_lineFeed, lineTexts_append_lineFeed,
      lineTexts_append_blanks h]
  · -- the carriage return of the ending is one blank more
    have hwith : before ++ (blanks ++ '\r' :: '\n' :: rest) =
        (before ++ (blanks ++ ['\r'])) ++ '\n' :: rest := by simp
    have hwithout : before ++ '\r' :: '\n' :: rest = (before ++ ['\r']) ++ '\n' :: rest := by simp
    rw [hwith, hwithout, lineTexts_append_lineFeed, lineTexts_append_lineFeed,
      lineTexts_append_blanks (h.append areOnLine_carriageReturn),
      lineTexts_append_blanks areOnLine_carriageReturn]

/-! ## Edits of the layout -/

/-- One edit that lays a text out differently. -/
inductive LayoutEdit : List Char → List Char → Prop where
  /-- Blanks at the start of a line. -/
  | indent {before blanks : List Char} (hstart : StartsLine before) (h : AreOnLine blanks)
      (after : List Char) : LayoutEdit (before ++ after) (before ++ (blanks ++ after))
  /-- Blanks at the end of a line, in front of its ending. -/
  | trail (before : List Char) {blanks after : List Char} (hend : EndsLine after)
      (h : AreOnLine blanks) : LayoutEdit (before ++ after) (before ++ (blanks ++ after))
  /-- A blank line in front of another line. -/
  | blankLine {before blanks : List Char} (hstart : StartsLine before) (h : AreOnLine blanks)
      (after : List Char) : LayoutEdit (before ++ after) (before ++ (blanks ++ '\n' :: after))
  /-- A blank line behind the last line. -/
  | lastBlankLine (text : List Char) {blanks : List Char} (h : AreOnLine blanks) :
      LayoutEdit text (text ++ '\n' :: blanks)
  /-- The other line ending. -/
  | lineEnding (before after : List Char) :
      LayoutEdit (before ++ '\n' :: after) (before ++ '\r' :: '\n' :: after)

/-- An edit of the layout leaves the lines as they are, at whichever of its places it is made. Each
of the five edits adds blanks that trimming takes away, or a line that is dropped because nothing is
left of it. -/
theorem lineTexts_eq_of_edit {text other : List Char} (h : LayoutEdit text other) :
    lineTexts other = lineTexts text := by
  cases h with
  | @indent before blanks hstart h after =>
    rw [lineTexts_append_of_startsLine hstart, lineTexts_append_of_blanks h.blank,
      lineTexts_append_of_startsLine hstart]
  | @trail before blanks after hend h => exact lineTexts_of_endsLine hend h before
  | @blankLine before blanks hstart h after =>
    -- the blank line ends where a line started before
    have hnone : lineTexts (before ++ blanks) = lineTexts before := lineTexts_append_blanks h before
    rw [← List.append_assoc, lineTexts_append_lineFeed, hnone,
      lineTexts_append_of_startsLine hstart]
  | @lastBlankLine _ blanks h =>
    have hnone : lineTexts ([] ++ blanks) = lineTexts [] := lineTexts_append_blanks h []
    rw [List.nil_append] at hnone
    rw [lineTexts_append_lineFeed, hnone]
    exact List.append_nil _
  | lineEnding before after =>
    exact lineTexts_of_endsLine (.inr ⟨after, .inl rfl⟩) areOnLine_carriageReturn before

/-! ## Texts with the same lines -/

open Relation

/-- The blanks around a line can be taken away. A line may end with the text, or with either of the
line endings. -/
theorem eqvGen_trim {before : List Char} (hstart : StartsLine before) {line : List Char}
    (hline : '\n' ∉ line) {after : List Char} (hend : EndsLine after) :
    EqvGen LayoutEdit (before ++ (line ++ after)) (before ++ (trim line ++ after)) := by
  obtain ⟨leading, trailing, hparts, hleading, htrailing⟩ := exists_trim line
  have hclear : '\n' ∉ leading ++ (trim line ++ trailing) := hparts ▸ hline
  simp only [List.mem_append, not_or] at hclear
  -- the edits put blanks in, so taking them away is going back along them
  have hindent : LayoutEdit (before ++ (trim line ++ (trailing ++ after)))
      (before ++ (leading ++ (trim line ++ (trailing ++ after)))) :=
    .indent hstart ⟨hleading, hclear.1⟩ _
  have htrail : LayoutEdit (before ++ trim line ++ after)
      (before ++ trim line ++ (trailing ++ after)) :=
    .trail _ hend ⟨htrailing, hclear.2.2⟩
  have hwhole : before ++ (line ++ after) =
      before ++ (leading ++ (trim line ++ (trailing ++ after))) := by
    conv_lhs => rw [hparts]
    simp only [List.append_assoc]
  rw [List.append_assoc, List.append_assoc] at htrail
  rw [hwhole]
  exact .trans _ _ _ (.symm _ _ (.rel _ _ hindent)) (.symm _ _ (.rel _ _ htrail))

/-- Lines, whatever they are laid out like, become those of them that are not blank, trimmed. The
induction keeps what has been laid out already in front of the lines that remain. This is why the
edits are enough: two texts with the same lines become the same text. -/
theorem eqvGen_lines {lines : List (List Char)} (hlines : ∀ line ∈ lines, '\n' ∉ line)
    {before : List Char} (hstart : StartsLine before) :
    EqvGen LayoutEdit (before ++ ['\n'].intercalate lines)
      (before ++ ['\n'].intercalate ((lines.map trim).filter fun line => !line.isEmpty)) := by
  induction lines generalizing before with
  | nil => exact .refl _
  | cons line more ih =>
    have hline := hlines line List.mem_cons_self
    have hmore := fun other hmem => hlines other (List.mem_cons_of_mem _ hmem)
    rcases more with _ | ⟨second, more⟩
    · -- the last line ends with the text
      have htrim := eqvGen_trim hstart hline (.inl rfl)
      rw [List.append_nil, List.append_nil] at htrim
      rw [List.intercalate_singleton, List.map_singleton]
      by_cases hblank : trim line = []
      · rw [hblank] at htrim ⊢
        exact htrim
      · rw [List.filter_cons_of_pos (by simpa using hblank), List.filter_nil,
          List.intercalate_singleton]
        exact htrim
    · -- any other line ends with a line feed, behind which the next one starts
      have hsplit : before ++ ['\n'].intercalate (line :: second :: more) =
          before ++ (line ++ '\n' :: ['\n'].intercalate (second :: more)) := by
        rw [List.intercalate_cons_cons, List.append_assoc, List.singleton_append]
      have htrim := eqvGen_trim hstart hline
        (.inr ⟨['\n'].intercalate (second :: more), .inl rfl⟩)
      rw [hsplit, List.map_cons]
      refine .trans _ _ _ htrim ?_
      by_cases hblank : trim line = []
      · rw [hblank, List.filter_cons_of_neg (by simp)]
        have hgone := LayoutEdit.blankLine hstart .nil (['\n'].intercalate (second :: more))
        exact .trans _ _ _ (.symm _ _ (.rel _ _ hgone)) (ih hmore hstart)
      · rw [List.filter_cons_of_pos (by simpa using hblank)]
        have hnext : StartsLine (before ++ trim line ++ ['\n']) := .inr ⟨_, rfl⟩
        have hrest := ih hmore hnext
        generalize ((second :: more).map trim).filter (fun line => !line.isEmpty) = kept
          at hrest ⊢
        simp only [List.append_assoc, List.singleton_append] at hrest
        refine .trans _ _ _ hrest ?_
        by_cases hnone : kept = []
        · -- only blank lines were left, and with them the last line ending goes
          have hlast := LayoutEdit.lastBlankLine (before ++ trim line) .nil
          rw [List.append_assoc] at hlast
          rw [hnone, List.intercalate_nil, List.intercalate_singleton]
          exact .symm _ _ (.rel _ _ hlast)
        · rw [List.intercalate_cons_of_ne_nil hnone, List.append_assoc, List.singleton_append]
          exact .refl _

/-- A text can be laid out as its lines with single line feeds between them. -/
theorem eqvGen_lineTexts (text : List Char) :
    EqvGen LayoutEdit text (['\n'].intercalate (lineTexts text)) := by
  have hlines : ∀ line ∈ text.splitOn '\n', '\n' ∉ line := fun _ => not_mem_of_mem_splitOn
  have hlaid := eqvGen_lines hlines (.inl rfl)
  rw [List.nil_append, List.nil_append, List.intercalate_splitOn] at hlaid
  exact hlaid

/-- **Two texts are laid out differently, and nothing else, exactly when they have the same
lines.** -/
theorem eqvGen_layoutEdit_iff {text other : List Char} :
    EqvGen LayoutEdit text other ↔ lineTexts text = lineTexts other := by
  constructor
  · intro h
    have hsame : Equivalence fun a b => lineTexts a = lineTexts b :=
      ⟨fun _ => rfl, Eq.symm, Eq.trans⟩
    exact hsame.eqvGen_iff.1 (h.mono fun _ _ hedit => (lineTexts_eq_of_edit hedit).symm)
  · intro h
    have htext := eqvGen_lineTexts text
    rw [h] at htext
    exact .trans _ _ _ htext (.symm _ _ (eqvGen_lineTexts other))

/-! ## Line endings -/

/-- A line without the carriage return that belongs to its ending. -/
def withoutReturn (line : List Char) : List Char := (beforeFinal? '\r' line).getD line

/-- The lines of a text without their endings, a line feed or a carriage return and a line feed.
Behind the last ending there is a line if there is anything. -/
def endedLines (text : List Char) : List (List Char) :=
  let pieces := text.splitOn '\n'
  pieces.dropLast.map withoutReturn ++ pieces.getLast?.toList.filter fun line => !line.isEmpty

/-- The carriage return of a line ending is trimmed, if it is not taken off before. -/
theorem trim_withoutReturn (line : List Char) : trim (withoutReturn line) = trim line := by
  rw [withoutReturn]
  rcases hfinal : beforeFinal? '\r' line with _ | before
  · rfl
  · have htrim := trim_between_blanks no_blanks areOnLine_carriageReturn.blank before
    rw [beforeFinal?_eq_some_iff.1 hfinal]
    exact htrim.symm

/-- So it is the same whether lines are cut at either line ending or at line feeds alone. -/
theorem lineTexts_eq_endedLines (text : List Char) :
    lineTexts text = ((endedLines text).map trim).filter fun line => !line.isEmpty := by
  have hne : text.splitOn '\n' ≠ [] := List.splitOn_ne_nil _ _
  obtain ⟨front, last, hpieces⟩ := (List.eq_nil_or_concat _).resolve_left hne
  rw [List.concat_eq_append] at hpieces
  -- the last piece ends with the text and has no line ending to lose
  have hlast : (([last].filter fun line => !line.isEmpty).map trim).filter
      (fun line => !line.isEmpty) = [trim last].filter fun line => !line.isEmpty := by
    rcases last with _ | ⟨c, rest⟩
    · rfl
    · rfl
  have hfront : (front.map withoutReturn).map trim = front.map trim := by
    rw [List.map_map]
    exact List.map_congr_left fun line _ => trim_withoutReturn line
  rw [lineTexts, endedLines, hpieces, List.dropLast_concat, List.getLast?_concat,
    Option.toList_some, List.map_append, List.filter_append, List.map_append, List.filter_append,
    hfront, hlast, List.map_singleton]

end Text

/-! ## Scripts -/

/-- The lines of a script are the lines of its text without blanks at their ends, less those of
which nothing is left. -/
theorem LineStream.linesOf_eq_lineTexts (source : String) :
    linesOf source = (Text.lineTexts source.toList).map String.ofList := rfl

/-- **The lines of a script are those of its text, with either ending**, trimmed and without the
blank ones. -/
theorem LineStream.linesOf_eq_endedLines (source : String) :
    linesOf source = (((Text.endedLines source.toList).map Text.trim).filter
      fun line => !line.isEmpty).map String.ofList := by
  rw [linesOf_eq_lineTexts, Text.lineTexts_eq_endedLines]

/-- **Scripts have the same line stream exactly when only their layout differs.** One direction says
that the edits change nothing, and the other that there are no further ones to be named. -/
theorem LineStream.ofSource_eq_iff {source other : String} :
    ofSource other = ofSource source ↔
      Relation.EqvGen Text.LayoutEdit source.toList other.toList := by
  have hinjective : Function.Injective (List.map String.ofList) :=
    List.map_injective_iff.2 fun _ _ => String.ofList_injective
  rw [Text.eqvGen_layoutEdit_iff, ofSource, ofSource, linesOf_eq_lineTexts, linesOf_eq_lineTexts]
  constructor
  · intro h
    exact (hinjective (congrArg LineStream.lines h)).symm
  · intro h
    rw [h]

/-- The lines of a script, joined with line feeds, are the script again. -/
theorem LineStream.ofSource_lines (source : String) :
    ofSource ("\n".intercalate (ofSource source).lines) = ofSource source :=
  congrArg ofLines (linesOf_intercalate fun _ => isLine_of_mem_linesOf)

/-- **The layout of a script makes no difference.** Edits of it leave the line stream and its brace
index as they are, and so every run of the script, whatever the commands are and from whatever
session it starts; and the lines joined with line feeds are one such layout. -/
theorem run_of_layout {source other : String}
    (h : Relation.EqvGen Text.LayoutEdit source.toList other.toList) :
    LineStream.ofSource other = LineStream.ofSource source ∧
      (∀ i : Interpreter, i.run other = i.run source) ∧
      LineStream.ofSource ("\n".intercalate (LineStream.ofSource source).lines) =
        LineStream.ofSource source := by
  have hstream := LineStream.ofSource_eq_iff.2 h
  refine ⟨hstream, fun i => ?_, LineStream.ofSource_lines source⟩
  rw [Interpreter.run, Interpreter.run, hstream]

/-- The other line ending, a blank line inside an object literal, and a tab before the line behind
it. -/
theorem run_of_layout_in_literal :
    Relation.EqvGen Text.LayoutEdit "set p = \x7b\na: 1\x7d".toList
        "set p = \x7b\r\n\u2003\n\ta: 1\x7d".toList ∧
      LineStream.ofSource "set p = \x7b\r\n\u2003\n\ta: 1\x7d" =
        LineStream.ofSource "set p = \x7b\na: 1\x7d" ∧
      ∀ i : Interpreter,
        i.run "set p = \x7b\r\n\u2003\n\ta: 1\x7d" = i.run "set p = \x7b\na: 1\x7d" := by
  have hsecond : Text.StartsLine "set p = \x7b\r\n".toList :=
    .inr ⟨"set p = \x7b\r".toList, by decide⟩
  have hthird : Text.StartsLine "set p = \x7b\r\n\u2003\n".toList :=
    .inr ⟨"set p = \x7b\r\n\u2003".toList, by decide⟩
  have hspace : Text.AreOnLine ['\u2003'] := Text.areOnLine_singleton rfl (by decide)
  have htab : Text.AreOnLine ['\t'] := Text.areOnLine_singleton rfl (by decide)
  have hending : Text.LayoutEdit "set p = \x7b\na: 1\x7d".toList
      "set p = \x7b\r\na: 1\x7d".toList :=
    .lineEnding "set p = \x7b".toList "a: 1\x7d".toList
  have hblank : Text.LayoutEdit "set p = \x7b\r\na: 1\x7d".toList
      "set p = \x7b\r\n\u2003\na: 1\x7d".toList :=
    .blankLine hsecond hspace "a: 1\x7d".toList
  have hindent : Text.LayoutEdit "set p = \x7b\r\n\u2003\na: 1\x7d".toList
      "set p = \x7b\r\n\u2003\n\ta: 1\x7d".toList :=
    .indent hthird htab "a: 1\x7d".toList
  have hlayout : Relation.EqvGen Text.LayoutEdit "set p = \x7b\na: 1\x7d".toList
      "set p = \x7b\r\n\u2003\n\ta: 1\x7d".toList :=
    .trans _ _ _ (.rel _ _ hending) (.trans _ _ _ (.rel _ _ hblank) (.rel _ _ hindent))
  obtain ⟨hstream, hrun, -⟩ := run_of_layout hlayout
  exact ⟨hlayout, hstream, hrun⟩

end CanvasScript
