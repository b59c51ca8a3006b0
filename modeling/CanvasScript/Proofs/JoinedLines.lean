/-
The lines of a text, joined again with single spaces.

Line breaks and the blanks around them are gone when the lines of a text are joined, and single
spaces stand in their place. So text that ends in no blank stays as it is in front of whatever
comes next, and of the blanks between the two only that they are blanks can be said. Of a text
that is cut into parts at commas, where no part has a line break within it, joining the lines
keeps every part apart from the blanks around it.

An object literal is such a text, with its entries for parts. It may be broken over lines at any
blank, and `joinedLines_parts` says that the parts are the same once the lines are joined, up to
blanks that are trimmed off when the parts are read.
-/
import CanvasScript.Proofs.TextPieces
import CanvasScript.Script.LineStream

set_option autoImplicit false

namespace CanvasScript

/-! ## The lines of a text, joined with spaces -/

namespace Text

/-- The lines of a text: trimmed, without the blank ones. -/
def lineTexts (text : List Char) : List (List Char) :=
  ((text.splitOn '\n').map trim).filter fun line => !line.isEmpty

/-- The lines of a text with single spaces between them. -/
def joinedLines (text : List Char) : List Char := [' '].intercalate (lineTexts text)

/-- Lines on either side of a line feed are cut apart from each other. -/
theorem lineTexts_append_lineFeed (text more : List Char) :
    lineTexts (text ++ '\n' :: more) = lineTexts text ++ lineTexts more := by
  unfold lineTexts
  rw [List.splitOn_append_cons_self, List.map_append, List.filter_append]

/-- A text without line feeds is one line, or none if it is blank. -/
theorem lineTexts_of_no_lineFeed {text : List Char} (h : '\n' ∉ text) :
    lineTexts text = [trim text].filter fun line => !line.isEmpty := by
  unfold lineTexts
  rw [List.splitOn_eq_singleton h, List.map_singleton]

/-- What is on the first line of a text. -/
def firstLine (text : List Char) : List Char := text.takeWhile (· != '\n')

/-- The first line of a text holds no line feed. -/
theorem lineFeed_not_mem_firstLine (text : List Char) : '\n' ∉ firstLine text := by
  intro hmem
  have h := List.mem_takeWhile_imp hmem
  simp at h

/-- Text on the line on which another text starts goes to the first line of that. The other lines
are untouched, so all that can be said of them is said of the text alone. -/
theorem lineTexts_append {front : List Char} (hfront : '\n' ∉ front) (text : List Char) :
    lineTexts (front ++ text) =
      ([trim (front ++ firstLine text)].filter fun line => !line.isEmpty) ++
        lineTexts (text.dropWhile (· != '\n')) := by
  have hclear : '\n' ∉ front ++ firstLine text := by
    rw [List.mem_append, not_or]
    exact ⟨hfront, lineFeed_not_mem_firstLine text⟩
  rw [← lineTexts_of_no_lineFeed hclear]
  have hsplit : front ++ text = front ++ firstLine text ++ text.dropWhile (· != '\n') := by
    rw [List.append_assoc, firstLine, List.takeWhile_append_dropWhile]
  rw [hsplit]
  rcases hrest : text.dropWhile (· != '\n') with _ | ⟨c, more⟩
  · rw [List.append_nil]
    exact (List.append_nil _).symm
  · have hlineFeed : c = '\n' := by
      have h := List.head?_dropWhile_not (· != '\n') text
      rw [hrest] at h
      simpa using h
    rw [hlineFeed, lineTexts_append_lineFeed, ← List.nil_append ('\n' :: more),
      lineTexts_append_lineFeed]
    rfl

/-- On one line there is nothing to join. -/
theorem joinedLines_of_no_lineFeed {text : List Char} (h : IsBounded text) (hclear : '\n' ∉ text) :
    joinedLines text = text := by
  obtain ⟨hne, htrim⟩ := isBounded_iff.1 h
  unfold joinedLines
  rw [lineTexts_of_no_lineFeed hclear, htrim, List.filter_cons_of_pos (by simpa using hne),
    List.filter_nil, List.intercalate_singleton]

/-- Blanks at the start of a text make no difference to its lines. Line feeds among them make blank
lines, which are dropped, and the others are trimmed off. -/
theorem lineTexts_append_of_blanks {blanks : List Char} (h : ∀ c ∈ blanks, isBlank c = true)
    (text : List Char) : lineTexts (blanks ++ text) = lineTexts text := by
  induction blanks with
  | nil => rfl
  | cons c blanks ih =>
    rw [← ih fun d hd => h d (List.mem_cons_of_mem _ hd)]
    have hc : isBlank c = true := h c List.mem_cons_self
    -- a line feed begins another line, and another blank is trimmed off the first
    by_cases hlineFeed : c = '\n'
    · rw [hlineFeed]
      exact lineTexts_append_lineFeed [] _
    · -- on the first line the blank is trimmed off
      have hfront : '\n' ∉ [c] := by
        rw [List.mem_singleton]
        exact Ne.symm hlineFeed
      have hwith := lineTexts_append hfront (blanks ++ text)
      have hnone : '\n' ∉ ([] : List Char) := List.not_mem_nil
      have hwithout := lineTexts_append hnone (blanks ++ text)
      rw [List.singleton_append, List.singleton_append, trim, trimStart_cons_of_blank _ hc,
        ← trim] at hwith
      rw [List.nil_append, List.nil_append] at hwithout
      rw [List.cons_append, hwith, hwithout]

theorem mem_firstLine_cons {c : Char} (hc : isBlank c = false) (text : List Char) :
    c ∈ firstLine (c :: text) := by
  have hne : (c != '\n') = true := by
    rw [bne_iff_ne]
    rintro rfl
    exact absurd hc (by decide)
  unfold firstLine
  rw [List.takeWhile_cons, if_pos hne]
  exact List.mem_cons_self

/-- A text that does not start with a blank has a first line, and text in front of it goes there. -/
theorem lineTexts_append_cons {front : List Char} (hfront : '\n' ∉ front) {c : Char}
    (hc : isBlank c = false) (text : List Char) :
    lineTexts (front ++ c :: text) = trim (front ++ firstLine (c :: text)) ::
      lineTexts ((c :: text).dropWhile (· != '\n')) := by
  have hne : trim (front ++ firstLine (c :: text)) ≠ [] :=
    trim_ne_nil hc (List.mem_append_right _ (mem_firstLine_cons hc text))
  rw [lineTexts_append hfront, List.filter_cons_of_pos (by simpa using hne)]
  rfl

/-- What stands before the first of several parts stands before them all when they are joined. -/
theorem intercalate_append_cons (separator front first : List Char) (more : List (List Char)) :
    separator.intercalate ((front ++ first) :: more) =
      front ++ separator.intercalate (first :: more) := by
  rcases more with _ | ⟨second, more⟩
  · rw [List.intercalate_singleton, List.intercalate_singleton]
  · rw [List.intercalate_cons_cons, List.intercalate_cons_cons]
    simp only [List.append_assoc]

/-- **Between two texts, all that joining the lines can change is which blanks stand there.** If
there is a line feed among the blanks, they become one space, and otherwise they stay as they are.
-/
theorem joinedLines_append {front blanks : List Char} (hfront : IsBounded front)
    (hclear : '\n' ∉ front) (hblanks : ∀ c ∈ blanks, isBlank c = true) {c : Char}
    (hc : isBlank c = false) (text : List Char) :
    ∃ between, (∀ d ∈ between, isBlank d = true) ∧
      joinedLines (front ++ (blanks ++ c :: text)) =
        front ++ (between ++ joinedLines (c :: text)) := by
  have hnone : '\n' ∉ ([] : List Char) := List.not_mem_nil
  have hfirst := lineTexts_append_cons hnone hc text
  rw [List.nil_append, List.nil_append] at hfirst
  by_cases hlineFeed : '\n' ∈ blanks
  · -- the front is a line of its own, and a space is put behind it
    obtain ⟨before, after, rfl, hbefore⟩ := List.eq_append_cons_of_mem hlineFeed
    have hafter : ∀ d ∈ after, isBlank d = true := fun d hd => hblanks d (by simp [hd])
    have hline : lineTexts (front ++ before) = [front] := by
      have hall : '\n' ∉ front ++ before := by
        rw [List.mem_append, not_or]
        exact ⟨hclear, hbefore⟩
      have htrim : trim (front ++ before) = front :=
        trim_append_append no_blanks hfront fun d hd => hblanks d (by simp [hd])
      rw [lineTexts_of_no_lineFeed hall, htrim]
      exact List.filter_cons_of_pos (by simpa using (isBounded_iff.1 hfront).1)
    have hspace : ∀ d ∈ [' '], isBlank d = true := List.forall_mem_singleton.2 (by decide)
    refine ⟨[' '], hspace, ?_⟩
    unfold joinedLines
    have hsplit : front ++ ((before ++ '\n' :: after) ++ c :: text) =
        (front ++ before) ++ '\n' :: (after ++ c :: text) := by
      simp only [List.append_assoc, List.cons_append]
    rw [hsplit, lineTexts_append_lineFeed, hline, lineTexts_append_of_blanks hafter, hfirst,
      List.singleton_append, List.intercalate_cons_cons, List.append_assoc]
  · -- the front goes to the first line of the text
    have hboth : '\n' ∉ front ++ blanks := by
      rw [List.mem_append, not_or]
      exact ⟨hclear, hlineFeed⟩
    have hmem : c ∈ blanks ++ firstLine (c :: text) :=
      List.mem_append_right _ (mem_firstLine_cons hc text)
    obtain ⟨between, hbetween, htrim⟩ := trim_append hfront hmem hc
    have hsame : trim (blanks ++ firstLine (c :: text)) = trim (firstLine (c :: text)) := by
      rw [trim, trimStart_append_of_blanks hblanks, ← trim]
    refine ⟨between, hbetween, ?_⟩
    unfold joinedLines
    rw [← List.append_assoc, lineTexts_append_cons hboth hc, hfirst, List.append_assoc, htrim,
      hsame, ← List.append_assoc, intercalate_append_cons, List.append_assoc]

/-- Line breaks around a part of a text are replaced, and the part itself is kept. It has none
within it, and so it comes to stand on one line. -/
theorem joinedLines_part {front : List Char} (hfront : IsBounded front) (hclear : '\n' ∉ front)
    {part : List Char} (hpart : '\n' ∉ trim part) {c : Char} (hc : isBlank c = false)
    (text : List Char) :
    ∃ spaced, trim spaced = trim part ∧
      joinedLines (front ++ (part ++ c :: text)) =
        front ++ (spaced ++ joinedLines (c :: text)) := by
  by_cases hnone : trim part = []
  · obtain ⟨between, hbetween, hjoined⟩ :=
      joinedLines_append hfront hclear (blank_of_trim_eq_nil hnone) hc text
    exact ⟨between, by rw [hnone, trim_blanks hbetween], hjoined⟩
  · -- the blanks before and behind the part are replaced one after the other
    obtain ⟨before, after, hall, hbefore, hafter⟩ := exists_trim part
    have hbounded : IsBounded (trim part) := isBounded_trim hnone
    obtain ⟨first, -, hhead, -, hfirst, -⟩ := id hbounded
    obtain ⟨rest, hrest⟩ := List.head?_eq_some_iff.1 hhead
    obtain ⟨before', hbefore', hjoined⟩ :=
      joinedLines_append hfront hclear hbefore hfirst (rest ++ (after ++ c :: text))
    obtain ⟨after', hafter', hjoined'⟩ := joinedLines_append hbounded hpart hafter hc text
    refine ⟨before' ++ (trim part ++ after'), ?_, ?_⟩
    · rw [← List.append_assoc]
      exact trim_append_append hbefore' hbounded hafter'
    · have hparts : part ++ c :: text = before ++ first :: (rest ++ (after ++ c :: text)) := by
        conv_lhs => rw [hall, hrest]
        simp only [List.append_assoc, List.cons_append]
      rw [← List.cons_append, ← hrest] at hjoined
      rw [hparts, ← List.cons_append, ← hrest, hjoined, hjoined']
      simp only [List.append_assoc]

/-- **Of parts between commas, joining the lines changes the blanks around each and no more**,
provided that no part has a line break within it. The induction goes along the parts: the text
before a part ends with the brace or with a comma, and neither is blank. -/
theorem joinedLines_parts (first : List Char) (more : List (List Char))
    (hparts : ∀ part ∈ first :: more, '\n' ∉ trim part) {front : List Char}
    (hfront : IsBounded front) (hclear : '\n' ∉ front) {last : Char}
    (hlast : isBlank last = false) :
    ∃ spaced, spaced ≠ [] ∧ spaced.map trim = (first :: more).map trim ∧
      joinedLines (front ++ ([','].intercalate (first :: more) ++ [last])) =
        front ++ ([','].intercalate spaced ++ [last]) := by
  have hpart : '\n' ∉ trim first := hparts first List.mem_cons_self
  induction more generalizing first front with
  | nil =>
    obtain ⟨part, htrim, hjoined⟩ := joinedLines_part hfront hclear hpart hlast []
    have hend : joinedLines [last] = [last] :=
      joinedLines_of_no_lineFeed ⟨last, last, rfl, rfl, hlast, hlast⟩ (by
        rw [List.mem_singleton]
        rintro rfl
        exact absurd hlast (by decide))
    refine ⟨[part], by simp, by simp [htrim], ?_⟩
    rw [List.intercalate_singleton, List.intercalate_singleton, hjoined, hend]
  | cons second more ih =>
    have hcomma : isBlank ',' = false := by decide
    have hbounded : IsBounded [','] := ⟨',', ',', rfl, rfl, hcomma, hcomma⟩
    have hmore : ∀ part ∈ second :: more, '\n' ∉ trim part := fun part hmem =>
      hparts part (List.mem_cons_of_mem _ hmem)
    obtain ⟨later, hne, hlater, htail⟩ :=
      ih second hmore hbounded (by decide) (hmore second List.mem_cons_self)
    obtain ⟨part, htrim, hjoined⟩ := joinedLines_part hfront hclear hpart hcomma
      ([','].intercalate (second :: more) ++ [last])
    refine ⟨part :: later, by simp, by rw [List.map_cons, List.map_cons, htrim, hlater], ?_⟩
    rw [List.intercalate_cons_cons, List.intercalate_cons_of_ne_nil hne]
    simp only [List.append_assoc, List.cons_append, List.nil_append] at htail ⊢
    rw [hjoined, htail]

/-! ## The first line and those after it -/

theorem intercalate_eq_flatMap (first : List Char) (more : List (List Char)) :
    [' '].intercalate (first :: more) = first ++ more.flatMap fun line => ' ' :: line := by
  induction more generalizing first with
  | nil => rw [List.intercalate_singleton, List.flatMap_nil, List.append_nil]
  | cons second more ih =>
    rw [List.intercalate_cons_cons, ih, List.flatMap_cons, List.append_assoc]
    rfl

/-- Text that ends in no blank starts the first line, and the lines after it are not empty. So what
the first line keeps of the rest can be told apart from the lines to be joined to it. -/
theorem exists_lines {front : List Char} (hfront : IsBounded front) (hclear : '\n' ∉ front)
    (text : List Char) :
    ∃ kept more, lineTexts (front ++ text) = (front ++ kept) :: more ∧
      joinedLines (front ++ text) = front ++ (kept ++ more.flatMap fun line => ' ' :: line) ∧
      ∀ line ∈ more, line ≠ [] := by
  obtain ⟨kept, hkept⟩ : ∃ kept, trim (front ++ firstLine text) = front ++ kept := by
    -- of the rest of the first line, trimming leaves all up to its last character that is not blank
    by_cases hblank : ∀ c ∈ firstLine text, isBlank c = true
    · refine ⟨[], ?_⟩
      rw [List.append_nil]
      exact trim_append_append no_blanks hfront hblank
    · push Not at hblank
      obtain ⟨c, hmem, hc⟩ := hblank
      obtain ⟨between, -, htrim⟩ := trim_append hfront hmem (by simpa using hc)
      exact ⟨_, htrim⟩
  have hne : front ++ kept ≠ [] :=
    List.append_ne_nil_of_left_ne_nil (isBounded_iff.1 hfront).1 kept
  have hlines := lineTexts_append hclear text
  rw [hkept, List.filter_cons_of_pos (by simpa using hne), List.filter_nil,
    List.singleton_append] at hlines
  refine ⟨kept, _, hlines, ?_, ?_⟩
  · unfold joinedLines
    rw [hlines, intercalate_eq_flatMap, List.append_assoc]
  · intro line hline
    simpa using (List.mem_filter.1 hline).2

end Text

/-- The lines of a script are those of its characters. -/
theorem LineStream.linesOf_ofList (text : List Char) :
    linesOf (String.ofList text) = (Text.lineTexts text).map String.ofList := by
  rw [linesOf, String.toList_ofList, Text.lineTexts]

end CanvasScript
