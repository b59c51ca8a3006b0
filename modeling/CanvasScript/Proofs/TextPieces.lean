/-
Text without the blanks around it, and text cut at every separator.

Trimming leaves a text alone exactly when it has no blank at either end, and whatever blanks are
put around such a text, trimming takes them off again. Of any other text it takes off blanks at the
ends and nothing else. The pieces between separators hold no separator and nothing that is not in
the text.

These are the lemmas on texts that need nothing else of the library. Reading of settings, of scripts
and of object literals trims each of its parts and cuts at one character, and every one of them uses
the same few facts: what trimming keeps (`isBounded_iff`), what it undoes (`trim_append_append`),
and what a piece can hold (`infix_of_mem_splitOn`).
-/
import CanvasScript.Text.Blank
import Mathlib.Data.List.DropRight
import Mathlib.Data.List.TakeWhile

set_option autoImplicit false

namespace CanvasScript.Text

/-! ## Letters, digits and blanks -/

/-- Digits by their code points, in which classes of characters can be compared. -/
theorem isDigit_iff {c : Char} : c.isDigit = true ↔ 48 ≤ c.toNat ∧ c.toNat ≤ 57 := by
  simp only [Char.isDigit, Bool.and_eq_true, decide_eq_true_eq, UInt32.le_iff_toNat_le, ge_iff_le]
  rfl

/-- Letters by their code points. Only those of ASCII count. -/
theorem isAlpha_iff {c : Char} :
    c.isAlpha = true ↔ (65 ≤ c.toNat ∧ c.toNat ≤ 90) ∨ (97 ≤ c.toNat ∧ c.toNat ≤ 122) := by
  change (decide (65 ≤ c.val ∧ c.val ≤ 90) ||
    (decide (97 ≤ c.val) && decide (c.val ≤ 122))) = true ↔ _
  simp only [Bool.or_eq_true, Bool.and_eq_true, decide_eq_true_eq, UInt32.le_iff_toNat_le]
  rfl

/-- A blank is a control character, the space, or beyond ASCII. -/
theorem toNat_of_isBlank {c : Char} (h : isBlank c = true) : c.toNat ≤ 0x20 ∨ 0x80 ≤ c.toNat := by
  simp only [isBlank, blankRanges, List.any_cons, List.any_nil, Bool.or_eq_true,
    Bool.and_eq_true, decide_eq_true_eq, Bool.or_false] at h
  omega

/-- Letters and digits are no blanks. -/
theorem isBlank_eq_false_of_isAlphanum {c : Char} (h : c.isAlphanum = true) :
    isBlank c = false := by
  by_contra hblank
  have hrange := toNat_of_isBlank (eq_true_of_ne_false hblank)
  rw [Char.isAlphanum, Bool.or_eq_true, isAlpha_iff, isDigit_iff] at h
  omega

theorem isAlphanum_eq_false_of_isBlank {c : Char} (h : isBlank c = true) :
    c.isAlphanum = false := by
  by_contra hword
  rw [isBlank_eq_false_of_isAlphanum (eq_true_of_ne_false hword)] at h
  exact absurd h (by decide)

/-! ## Trimming twice -/

theorem trimEnd_trimEnd (text : List Char) : trimEnd (trimEnd text) = trimEnd text :=
  List.rdropWhile_idempotent isBlank text

/-- Text without blanks at its start keeps that when the blanks at its end go. -/
theorem trimStart_trimEnd_trimStart (text : List Char) :
    trimStart (trimEnd (trimStart text)) = trimEnd (trimStart text) := by
  rcases hend : trimEnd (trimStart text) with _ | ⟨c, rest⟩
  · rfl
  · -- the first character that is left is the first one of the text without its leading blanks
    have hprefix : trimEnd (trimStart text) <+: trimStart text :=
      List.rdropWhile_prefix isBlank _
    obtain ⟨after, hafter⟩ := hprefix
    rw [hend, List.cons_append] at hafter
    have hblank : isBlank c = false := by
      have hhead := List.head?_dropWhile_not isBlank text
      rw [← trimStart, ← hafter] at hhead
      simpa using hhead
    exact trimStart_cons_of_not_blank rest hblank

/-- Trimming is done once for all, as trimming at the end brings no blank to the start. -/
theorem trim_trim (text : List Char) : trim (trim text) = trim text := by
  rw [trim, trim, trimStart_trimEnd_trimStart, trimEnd_trimEnd]

theorem trimStart_sublist (text : List Char) : (trimStart text).Sublist text :=
  List.dropWhile_sublist isBlank

theorem trimEnd_sublist (text : List Char) : (trimEnd text).Sublist text :=
  (List.rdropWhile_prefix isBlank _).sublist

theorem trim_sublist (text : List Char) : (trim text).Sublist text :=
  (trimEnd_sublist _).trans (trimStart_sublist _)

/-! ## Blanks put around text -/

/-- Text that starts and ends with characters other than blanks. -/
def IsBounded (text : List Char) : Prop :=
  ∃ first last, text.head? = some first ∧ text.getLast? = some last ∧
    isBlank first = false ∧ isBlank last = false

/-- Text is its own trimming exactly when it has no blank at either end. Both are used: the one
where texts are taken apart, and the other where they are made. -/
theorem isBounded_iff {text : List Char} : IsBounded text ↔ text ≠ [] ∧ trim text = text := by
  constructor
  · rintro ⟨first, last, hfirst, hlast, hstart, hend⟩
    obtain ⟨rest, rfl⟩ := List.head?_eq_some_iff.1 hfirst
    obtain ⟨front, hfront⟩ := List.getLast?_eq_some_iff.1 hlast
    refine ⟨List.cons_ne_nil _ _, ?_⟩
    rw [trim, trimStart_cons_of_not_blank rest hstart, hfront,
      trimEnd_concat_of_not_blank front hend]
  · rintro ⟨hne, htrim⟩
    -- trimming takes nothing off at the start, and so nothing at the end
    have hstart : trimStart text = text := by
      have hlength := (trimEnd_sublist (trimStart text)).length_le
      rw [← trim, htrim] at hlength
      exact (trimStart_sublist text).eq_of_length_le hlength
    have hend : trimEnd text = text := by rwa [trim, hstart] at htrim
    obtain ⟨first, rest, rfl⟩ := List.exists_cons_of_ne_nil hne
    refine ⟨first, _, rfl, List.getLast?_eq_some_getLast hne, ?_, ?_⟩
    · by_contra hblank
      have hlength := (trimStart_sublist rest).length_le
      rw [← trimStart_cons_of_blank rest (eq_true_of_ne_false hblank), hstart] at hlength
      exact absurd hlength (Nat.not_succ_le_self _)
    · by_contra hblank
      have hsplit := List.dropLast_append_getLast hne
      have hlength := (trimEnd_sublist (first :: rest).dropLast).length_le
      rw [← trimEnd_concat_of_blank _ (eq_true_of_ne_false hblank), hsplit, hend,
        List.length_dropLast] at hlength
      exact absurd hlength (Nat.not_succ_le_self _)

/-- A text that has characters and no blanks is bounded by two that are no blanks. -/
theorem isBounded_of_not_blank {text : List Char} (hne : text ≠ [])
    (h : ∀ c ∈ text, isBlank c = false) : IsBounded text :=
  ⟨text.head hne, text.getLast hne, List.head?_eq_some_head hne,
    List.getLast?_eq_some_getLast hne, h _ (List.head_mem hne), h _ (List.getLast_mem hne)⟩

/-- What stands between two texts without blanks at their ends can be anything. Only the first
character and the last are looked at. -/
theorem IsBounded.append {first last : List Char} (hfirst : IsBounded first)
    (middle : List Char) (hlast : IsBounded last) : IsBounded (first ++ middle ++ last) := by
  obtain ⟨c, -, hc, -, hstart, -⟩ := hfirst
  obtain ⟨-, d, -, hd, -, hend⟩ := hlast
  refine ⟨c, d, ?_, ?_, hstart, hend⟩
  · rw [List.head?_append, List.head?_append, hc]
    rfl
  · rw [List.getLast?_append, hd]
    rfl

/-- Blanks in front are trimmed, and what is behind them is trimmed as if they had not been there.
-/
theorem trimStart_append_of_blanks {blanks : List Char} (h : ∀ c ∈ blanks, isBlank c = true)
    (text : List Char) : trimStart (blanks ++ text) = trimStart text :=
  List.dropWhile_append_of_pos h

/-- So are blanks at the end. -/
theorem trimEnd_append_of_blanks {blanks : List Char} (h : ∀ c ∈ blanks, isBlank c = true)
    (text : List Char) : trimEnd (text ++ blanks) = trimEnd text := by
  rw [trimEnd, List.reverse_append,
    List.dropWhile_append_of_pos fun c hc => h c (List.mem_reverse.1 hc), trimEnd]

/-- Of a text of blanks nothing is left. -/
theorem trim_blanks {blanks : List Char} (h : ∀ c ∈ blanks, isBlank c = true) :
    trim blanks = [] := by
  have hstart : trimStart blanks = [] := List.dropWhile_eq_nil_iff.2 h
  rw [trim, hstart, trimEnd_nil]

/-- Blanks put around text that has none at its ends are all that trimming takes off. -/
theorem trim_append_append {before text after : List Char}
    (hbefore : ∀ c ∈ before, isBlank c = true) (htext : IsBounded text)
    (hafter : ∀ c ∈ after, isBlank c = true) : trim (before ++ text ++ after) = text := by
  obtain ⟨first, last, hfirst, hlast, hstart, hend⟩ := htext
  obtain ⟨rest, hrest⟩ := List.head?_eq_some_iff.1 hfirst
  obtain ⟨front, hfront⟩ := List.getLast?_eq_some_iff.1 hlast
  have htrimStart : trimStart (before ++ text ++ after) = text ++ after := by
    rw [List.append_assoc, trimStart_append_of_blanks hbefore, hrest, List.cons_append,
      trimStart_cons_of_not_blank _ hstart]
  rw [trim, htrimStart, trimEnd_append_of_blanks hafter, hfront,
    trimEnd_concat_of_not_blank front hend]

/-- Trimming takes off blanks at both ends, and nothing else. The text is put together again from
what was taken off and what was left. -/
theorem exists_trim (text : List Char) :
    ∃ before after, text = before ++ (trim text ++ after) ∧
      (∀ c ∈ before, isBlank c = true) ∧ ∀ c ∈ after, isBlank c = true := by
  refine ⟨text.takeWhile isBlank, (trimStart text).rtakeWhile isBlank, ?_, ?_, ?_⟩
  · have hend : trim text ++ (trimStart text).rtakeWhile isBlank = trimStart text :=
      List.rdropWhile_append_rtakeWhile
    rw [hend]
    exact List.takeWhile_append_dropWhile.symm
  · exact fun c hc => List.mem_takeWhile_imp hc
  · exact fun c hc => List.mem_rtakeWhile_imp hc

/-- A character of a text that trimming leaves out is blank. -/
theorem not_mem_of_not_mem_trim {c : Char} {text : List Char} (hc : isBlank c = false)
    (h : c ∉ trim text) : c ∉ text := by
  obtain ⟨before, after, htext, hbefore, hafter⟩ := exists_trim text
  rw [htext, List.mem_append, List.mem_append]
  rintro (hmem | hmem | hmem)
  · exact absurd (hbefore c hmem) (by simp [hc])
  · exact h hmem
  · exact absurd (hafter c hmem) (by simp [hc])

/-- A text with one character that is no blank keeps at least that. -/
theorem trim_ne_nil {c : Char} {text : List Char} (hc : isBlank c = false) (h : c ∈ text) :
    trim text ≠ [] := by
  intro hnil
  exact not_mem_of_not_mem_trim hc (by rw [hnil]; exact List.not_mem_nil) h

/-- If nothing is left, there were only blanks. -/
theorem blank_of_trim_eq_nil {text : List Char} (h : trim text = []) :
    ∀ c ∈ text, isBlank c = true := by
  intro c hc
  by_contra hblank
  exact trim_ne_nil (by simpa using hblank) hc h

theorem no_blanks : ∀ c ∈ ([] : List Char), isBlank c = true :=
  fun _ h => absurd h List.not_mem_nil

/-- What trimming leaves has no blanks at its ends, unless it leaves nothing. -/
theorem isBounded_trim {text : List Char} (h : trim text ≠ []) : IsBounded (trim text) :=
  isBounded_iff.2 ⟨h, trim_trim text⟩

/-- Behind a text that begins with no blank, trimming at the start finds nothing to do. -/
theorem trimStart_append {front : List Char} (h : IsBounded front) (text : List Char) :
    trimStart (front ++ text) = front ++ text := by
  obtain ⟨first, -, hhead, -, hfirst, -⟩ := h
  obtain ⟨rest, rfl⟩ := List.head?_eq_some_iff.1 hhead
  exact trimStart_cons_of_not_blank _ hfirst

/-- Text that ends in no blank is not touched when it is trimmed together with what follows. The
blanks between the two stay, as they are at no end. -/
theorem trim_append {front text : List Char} (hfront : IsBounded front) {c : Char}
    (hmem : c ∈ text) (hc : isBlank c = false) :
    ∃ between, (∀ d ∈ between, isBlank d = true) ∧
      trim (front ++ text) = front ++ (between ++ trim text) := by
  obtain ⟨before, after, htext, hbefore, hafter⟩ := exists_trim text
  have hbounded : IsBounded (front ++ before ++ trim text) :=
    hfront.append before (isBounded_trim (trim_ne_nil hc hmem))
  refine ⟨before, hbefore, ?_⟩
  have hall : front ++ text = [] ++ (front ++ before ++ trim text) ++ after := by
    conv_lhs => rw [htext]
    simp only [List.nil_append, List.append_assoc]
  rw [hall, trim_append_append no_blanks hbounded hafter, List.append_assoc]

/-! ## Pieces between separators -/

/-- No piece holds the separator. The induction is on the text, with the first piece growing
character by character. -/
theorem not_mem_of_mem_splitOn {separator : Char} {text piece : List Char}
    (h : piece ∈ text.splitOn separator) : separator ∉ piece := by
  induction text generalizing piece with
  | nil =>
    rw [List.splitOn_nil, List.mem_singleton] at h
    rw [h]
    exact List.not_mem_nil
  | cons c rest ih =>
    rw [List.splitOn_cons_eq_if_modifyHead] at h
    by_cases hc : (c == separator) = true
    · -- at a separator an empty piece starts
      rw [if_pos hc] at h
      rcases List.mem_cons.1 h with rfl | hrest
      · exact List.not_mem_nil
      · exact ih hrest
    · rw [if_neg hc] at h
      -- any other character goes to the first piece of the rest
      rcases hpieces : rest.splitOn separator with _ | ⟨first, others⟩
      · exact absurd hpieces (List.splitOn_ne_nil _ _)
      · rw [hpieces, List.modifyHead_cons] at h
        have hfirst : separator ∉ first := ih (by rw [hpieces]; exact List.mem_cons_self)
        rcases List.mem_cons.1 h with rfl | hother
        · have hne : c ≠ separator := by simpa using hc
          rw [List.mem_cons]
          rintro (heq | hmem)
          · exact hne heq.symm
          · exact hfirst hmem
        · exact ih (by rw [hpieces]; exact List.mem_cons_of_mem _ hother)

/-- Each of several pieces stands in the text that they are joined to. -/
theorem infix_intercalate {separator piece : List Char} {pieces : List (List Char)}
    (h : piece ∈ pieces) : piece <:+: separator.intercalate pieces := by
  induction pieces with
  | nil => exact absurd h List.not_mem_nil
  | cons first rest ih =>
    rcases rest with _ | ⟨second, more⟩
    · obtain rfl := List.mem_singleton.1 h
      exact ⟨[], [], by simp⟩
    · rw [List.intercalate_cons_cons]
      rcases List.mem_cons.1 h with rfl | hrest
      · exact ⟨[], separator ++ separator.intercalate (second :: more), by simp⟩
      · exact (ih hrest).trans (List.suffix_append _ _).isInfix

/-- A character that is neither in the separator nor in any part is not in what they are joined to.
-/
theorem not_mem_intercalate {c : Char} {separator : List Char} {parts : List (List Char)}
    (hseparator : c ∉ separator) (hparts : ∀ part ∈ parts, c ∉ part) :
    c ∉ separator.intercalate parts := by
  induction parts with
  | nil => exact List.not_mem_nil
  | cons first more ih =>
    have hfirst := hparts first List.mem_cons_self
    have hmore := ih fun part hpart => hparts part (List.mem_cons_of_mem _ hpart)
    by_cases hnone : more = []
    · rw [hnone, List.intercalate_singleton]
      exact hfirst
    · rw [List.intercalate_cons_of_ne_nil hnone]
      simp only [List.mem_append, not_or]
      exact ⟨⟨hfirst, hseparator⟩, hmore⟩

/-- A piece stands in the text as it is. -/
theorem infix_of_mem_splitOn {separator : Char} {text piece : List Char}
    (h : piece ∈ text.splitOn separator) : piece <:+: text := by
  have hinfix : piece <:+: [separator].intercalate (text.splitOn separator) := infix_intercalate h
  rwa [List.intercalate_splitOn] at hinfix

theorem subset_of_mem_splitOn {separator : Char} {text piece : List Char}
    (h : piece ∈ text.splitOn separator) : piece ⊆ text :=
  (infix_of_mem_splitOn h).subset

end CanvasScript.Text
