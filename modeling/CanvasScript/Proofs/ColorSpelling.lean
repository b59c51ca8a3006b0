/-
Which texts are colors, and how a color is written again.

A text is a color when three or six hexadecimal digits are all that it has besides blanks around
them and a mark in front. The digits are told from the rest by what they are: none is blank, and
none is the mark. Reading looks at a digit's number only, which is the same for both cases of a
letter, and writing chooses the upper one. So what is written for a color that was read is the text
again in its one canonical form: the mark, and six digits in upper case. A text that is no color is
reported with all that is in it, the blanks included.

The statement names both directions. That every text with digits is read would hold of a reader that
takes the first three digits it finds, and that every color is written in six digits would hold of
one that reads nothing. `read_exact` says which texts are colors and which color each of them is,
the latter by its canonical form.
-/
import CanvasScript.Proofs.DumpText
import CanvasScript.Proofs.TextPieces

set_option autoImplicit false

namespace CanvasScript

/-! ## Upper case -/

namespace Text

/-- What holds of the hundred and twenty-eight ASCII characters. -/
theorem of_ascii {p : Char → Prop} (h : ∀ n < 128, p (Char.ofNat n)) {c : Char}
    (hc : c.toNat < 128) : p c := by
  rw [← Char.ofNat_toNat c]
  exact h c.toNat hc

/-- Only letters of ASCII have another upper case. -/
theorem toUpper_eq_self_or (c : Char) : c.toUpper = c ∨ c.toNat < 128 := by
  by_cases hlower : 'a'.val ≤ c.val ∧ c.val ≤ 'z'.val
  · have hlast : c.val.toNat ≤ 122 := UInt32.le_iff_toNat_le.1 hlower.2
    exact .inr (Nat.lt_of_le_of_lt hlast (by decide))
  · exact .inl (dif_neg hlower)

/-- Whether a character is blank does not depend on its case, as no blank is a letter. -/
theorem isBlank_toUpper (c : Char) : isBlank c.toUpper = isBlank c := by
  rcases toUpper_eq_self_or c with hsame | hascii
  · rw [hsame]
  · exact of_ascii (p := fun c => isBlank c.toUpper = isBlank c) (by decide) hascii

/-- Blanks have no case. -/
theorem trim_map_toUpper (text : List Char) :
    trim (text.map Char.toUpper) = (trim text).map Char.toUpper := by
  have hblank : isBlank ∘ Char.toUpper = isBlank := funext isBlank_toUpper
  rw [trim, trim, trimStart, trimEnd, List.dropWhile_map, hblank, ← List.map_reverse,
    List.dropWhile_map, hblank, ← List.map_reverse]
  rfl

end Text

namespace Color

/-! ## Digits -/

/-- A digit has the same number in either case. -/
theorem hexValue?_toUpper (c : Char) : hexValue? c.toUpper = hexValue? c := by
  rcases Text.toUpper_eq_self_or c with hsame | hascii
  · rw [hsame]
  · exact Text.of_ascii (p := fun c => hexValue? c.toUpper = hexValue? c) (by decide) hascii

/-- The digits are in ASCII. So what holds of all of them can be checked on all of ASCII. -/
theorem toNat_of_isHexDigit {c : Char} (h : c.isHexDigit = true) : c.toNat < 128 := by
  simp only [Char.isHexDigit, Char.isDigit, Bool.or_eq_true, Bool.and_eq_true,
    decide_eq_true_eq] at h
  have hbelow (last : Char) (hle : c.val ≤ last.val) (hlast : last.toNat < 128) : c.toNat < 128 :=
    Nat.lt_of_le_of_lt (UInt32.le_iff_toNat_le.1 hle) hlast
  rcases h with (⟨-, hle⟩ | ⟨-, hle⟩) | ⟨-, hle⟩
  · exact hbelow '9' hle (by decide)
  · exact hbelow 'f' hle (by decide)
  · exact hbelow 'F' hle (by decide)

/-- A digit has a number below sixteen, which is written with the digit in upper case. -/
theorem exists_hexValue? {c : Char} (h : c.isHexDigit = true) :
    ∃ n < 16, hexValue? c = some n ∧ hexDigit n = c.toUpper :=
  Text.of_ascii (p := fun c => c.isHexDigit = true → ∃ n < 16,
    hexValue? c = some n ∧ hexDigit n = c.toUpper) (by decide) (toNat_of_isHexDigit h) h

/-- Only digits have a number. -/
theorem isHexDigit_of_hexValue? {c : Char} {n : Nat} (h : hexValue? c = some n) :
    c.isHexDigit = true := by
  have hrange {low high : Char} (h : low ≤ c ∧ c ≤ high) : low.val ≤ c.val ∧ c.val ≤ high.val := h
  rw [hexValue?] at h
  simp only [Char.isHexDigit, Char.isDigit, Bool.or_eq_true, Bool.and_eq_true, decide_eq_true_eq]
  split_ifs at h with hdigit hupper hlower
  · exact .inl (.inl (hrange hdigit))
  · exact .inr (hrange hupper)
  · exact .inl (.inr (hrange hlower))

/-- No digit is blank. -/
theorem isBlank_of_isHexDigit {c : Char} (h : c.isHexDigit = true) : Text.isBlank c = false := by
  obtain ⟨n, hn, -, hupper⟩ := exists_hexValue? h
  rw [← Text.isBlank_toUpper, ← hupper]
  exact hexDigit_ne_blank hn

/-- Reading digits and writing their numbers puts them into upper case. That is the reason why a
color is written in upper case, however it was written before. -/
theorem mapM_hexValue? {digits : List Char} (h : ∀ c ∈ digits, c.isHexDigit = true) :
    ∃ values : List Nat, digits.mapM hexValue? = some values ∧
      values.map hexDigit = digits.map Char.toUpper ∧ ∀ n ∈ values, n < 16 := by
  induction digits with
  | nil => exact ⟨[], rfl, rfl, by simp⟩
  | cons c rest ih =>
    obtain ⟨hc, hrest⟩ := List.forall_mem_cons.1 h
    obtain ⟨n, hn, hvalue, hdigit⟩ := exists_hexValue? hc
    obtain ⟨values, hvalues, hdigits, hall⟩ := ih hrest
    refine ⟨n :: values, ?_, ?_, List.forall_mem_cons.2 ⟨hn, hall⟩⟩
    · rw [List.mapM_cons, hvalue, hvalues]
      rfl
    · rw [List.map_cons, List.map_cons, hdigit, hdigits]

/-- Only digits have a value, so a text that can be read is made of digits, one for each value. -/
theorem isHexDigit_of_mapM {digits : List Char} {values : List Nat}
    (h : digits.mapM hexValue? = some values) :
    digits.length = values.length ∧ ∀ c ∈ digits, c.isHexDigit = true := by
  induction digits generalizing values with
  | nil =>
    obtain rfl : [] = values := Option.some.inj h
    exact ⟨rfl, by simp⟩
  | cons c rest ih =>
    rw [List.mapM_cons] at h
    obtain ⟨n, hn, hmore⟩ := Option.bind_eq_some_iff.1 h
    obtain ⟨others, hothers, hvalues⟩ := Option.bind_eq_some_iff.1 hmore
    obtain rfl : n :: others = values := Option.some.inj hvalues
    obtain ⟨hlength, hrest⟩ := ih hothers
    refine ⟨by rw [List.length_cons, List.length_cons, hlength], ?_⟩
    exact List.forall_mem_cons.2 ⟨isHexDigit_of_hexValue? hn, hrest⟩

/-- Digits are read alike in either case. -/
theorem mapM_map_toUpper (digits : List Char) :
    (digits.map Char.toUpper).mapM hexValue? = digits.mapM hexValue? := by
  have hvalue : hexValue? ∘ Char.toUpper = hexValue? := funext hexValue?_toUpper
  rw [List.mapM_map, hvalue]

/-! ## Parts -/

/-- A part of a color is written with the two digits that it was made of. -/
theorem hexPair_part {high low : Nat} (hhigh : high < 16) (hlow : low < 16) :
    hexPair (part high low) = [hexDigit high, hexDigit low] := by
  have hpart : (part high low).toNat = 16 * high + low := by
    rw [part, UInt8.toNat_ofNat', Nat.mod_eq_of_lt (by omega)]
  have hdiv : (16 * high + low) / 16 = high := by omega
  have hmod : (16 * high + low) % 16 = low := by omega
  rw [hexPair, hpart, hdiv, hmod]

/-- The six digits that three or six digits stand for. -/
def sixDigits : List Char → List Char
  | [r, g, b] => [r, r, g, g, b, b]
  | digits => digits

/-- Six digits stand for themselves. -/
theorem sixDigits_of_length {digits : List Char} (h : digits.length = 6) :
    sixDigits digits = digits := by
  rw [sixDigits]
  rintro r g b rfl
  exact absurd h (by simp)

/-- A color is written with the six digits that it was made of, behind the mark. -/
theorem spelling_parts {r r' g g' b b' : Nat} (h : ∀ n ∈ [r, r', g, g', b, b'], n < 16) :
    spelling ⟨part r r', part g g', part b b'⟩ = '#' :: [r, r', g, g', b, b'].map hexDigit := by
  simp only [List.forall_mem_cons] at h
  obtain ⟨hr, hr', hg, hg', hb, hb', -⟩ := h
  rw [spelling, hexPair_part hr hr', hexPair_part hg hg', hexPair_part hb hb']
  rfl

/-- Three or six digits are read as a color, and the six that they stand for are written. In the
short form each digit makes both of a part, so the two forms end in one list of six values. -/
theorem exists_color {digits : List Char} (hdigits : ∀ c ∈ digits, c.isHexDigit = true)
    (hcount : digits.length = 6 ∨ digits.length = 3) :
    ∃ color, (digits.mapM hexValue?).bind ofHexValues? = some color ∧
      color.spelling = '#' :: (sixDigits digits).map Char.toUpper := by
  obtain ⟨values, hvalues, hupper, hall⟩ := mapM_hexValue? hdigits
  have hlength : values.length = digits.length := by
    rw [← List.length_map hexDigit, hupper, List.length_map]
  rw [hvalues, Option.bind_some]
  -- a part is made of two values that are below sixteen, which is all that its spelling needs
  rcases hcount with hsix | hthree
  · rw [sixDigits_of_length hsix, ← hupper]
    rw [hsix] at hlength
    match values, hlength with
    | [r, r', g, g', b, b'], _ => exact ⟨_, rfl, spelling_parts hall⟩
  · obtain ⟨c, d, e, rfl⟩ := List.length_eq_three.1 hthree
    obtain ⟨r, g, b, rfl⟩ := List.length_eq_three.1 (hlength.trans hthree)
    have htwice : ∀ n ∈ [r, r, g, g, b, b], n < 16 := by
      simp only [List.forall_mem_cons] at hall ⊢
      exact ⟨hall.1, hall.1, hall.2.1, hall.2.1, hall.2.2.1, hall.2.2⟩
    simp only [List.map_cons, List.map_nil, List.cons.injEq] at hupper
    obtain ⟨hr, hg, hb, -⟩ := hupper
    refine ⟨_, rfl, (spelling_parts htwice).trans ?_⟩
    simp only [sixDigits, List.map_cons, List.map_nil, hr, hg, hb]

/-! ## Texts -/

/-- What a text is like that is a color with given digits. -/
structure HasDigits (text digits : List Char) : Prop where
  /-- Besides the digits there are blanks around them, and one mark in front or none. -/
  around : ∃ before mark after, text = before ++ (mark ++ digits) ++ after ∧
    (∀ c ∈ before, Text.isBlank c = true) ∧ (mark = [] ∨ mark = ['#']) ∧
      ∀ c ∈ after, Text.isBlank c = true
  hex : ∀ c ∈ digits, c.isHexDigit = true
  count : digits.length = 6 ∨ digits.length = 3

/-- Where the first character is not the mark, there is none to take off. -/
theorem withoutMark_cons_of_ne {c : Char} (h : c ≠ '#') (rest : List Char) :
    withoutMark (c :: rest) = c :: rest := by
  rw [withoutMark]
  intro digits heq
  exact h (List.cons.inj heq).1

/-- At most one mark is taken off, and nothing else. -/
theorem exists_mark (text : List Char) :
    ∃ mark, text = mark ++ withoutMark text ∧ (mark = [] ∨ mark = ['#']) := by
  rcases text with _ | ⟨c, rest⟩
  · exact ⟨[], rfl, .inl rfl⟩
  · by_cases hc : c = '#'
    · subst hc
      exact ⟨['#'], rfl, .inr rfl⟩
    · exact ⟨[], (withoutMark_cons_of_ne hc rest).symm, .inl rfl⟩

/-- The mark has no case. -/
theorem withoutMark_map_toUpper (text : List Char) :
    withoutMark (text.map Char.toUpper) = (withoutMark text).map Char.toUpper := by
  rcases text with _ | ⟨c, rest⟩
  · rfl
  · by_cases hc : c = '#'
    · subst hc
      rfl
    · have hupper : c.toUpper ≠ '#' := by
        rcases Text.toUpper_eq_self_or c with hsame | hascii
        · rwa [hsame]
        · exact Text.of_ascii (p := fun c => c ≠ '#' → c.toUpper ≠ '#') (by decide) hascii hc
      rw [withoutMark_cons_of_ne hc, List.map_cons, withoutMark_cons_of_ne hupper]

/-- Digits are told from what is around them: none of them is blank, and none is the mark. So
trimming takes away all blanks, and the mark if there is one, and nothing of the digits. -/
theorem HasDigits.withoutMark_trim {text digits : List Char} (h : HasDigits text digits) :
    withoutMark (Text.trim text) = digits := by
  obtain ⟨before, mark, after, rfl, hbefore, hmark, hafter⟩ := h.around
  have hne : digits ≠ [] := by
    rintro rfl
    exact absurd h.count (by simp)
  have hbounded : Text.IsBounded (mark ++ digits) := by
    refine Text.isBounded_of_not_blank (List.append_ne_nil_of_right_ne_nil _ hne) fun c hc => ?_
    rcases List.mem_append.1 hc with hc | hc
    · rcases hmark with rfl | rfl
      · exact absurd hc List.not_mem_nil
      · obtain rfl := List.mem_singleton.1 hc
        decide
    · exact isBlank_of_isHexDigit (h.hex c hc)
  rw [Text.trim_append_append hbefore hbounded hafter]
  rcases hmark with rfl | rfl
  · obtain ⟨c, rest, rfl⟩ := List.exists_cons_of_ne_nil hne
    -- without a mark, the first character is a digit and stays
    have hmark : c ≠ '#' := by
      rintro rfl
      exact absurd (h.hex '#' List.mem_cons_self) (by decide)
    exact withoutMark_cons_of_ne hmark rest
  · rfl

/-- If what is left of a text are three or six digits, then these are the digits of the text. Put
back in front and behind, the mark and the blanks make up the text again. -/
theorem hasDigits_withoutMark_trim {text : List Char}
    (hdigits : ∀ c ∈ withoutMark (Text.trim text), c.isHexDigit = true)
    (hcount : (withoutMark (Text.trim text)).length = 6 ∨
      (withoutMark (Text.trim text)).length = 3) :
    HasDigits text (withoutMark (Text.trim text)) := by
  obtain ⟨before, after, hsplit, hbefore, hafter⟩ := Text.exists_trim text
  obtain ⟨mark, hmarked, hmark⟩ := exists_mark (Text.trim text)
  refine ⟨⟨before, mark, after, ?_, hbefore, hmark, hafter⟩, hdigits, hcount⟩
  rw [← hmarked, List.append_assoc]
  exact hsplit

/-- A color is made of three or of six numbers, and of no other count. -/
theorem length_of_ofHexValues? {values : List Nat} {color : Color}
    (h : ofHexValues? values = some color) : values.length = 6 ∨ values.length = 3 := by
  unfold ofHexValues? at h
  split at h
  · exact .inl rfl
  · exact .inr rfl
  · exact absurd h (by simp)

/-- A text that is read has digits. -/
theorem exists_hasDigits {text : String} {color : Color} (h : read? text = some color) :
    ∃ digits, HasDigits text.toList digits := by
  obtain ⟨values, hvalues, hcolor⟩ := Option.bind_eq_some_iff.1 h
  obtain ⟨hlength, hdigits⟩ := isHexDigit_of_mapM hvalues
  exact ⟨_, hasDigits_withoutMark_trim hdigits (hlength ▸ length_of_ofHexValues? hcolor)⟩

/-- And a text with digits is read. -/
theorem HasDigits.exists_read? {text : String} {digits : List Char}
    (h : HasDigits text.toList digits) :
    ∃ color, read? text = some color ∧
      color.spelling = '#' :: (sixDigits digits).map Char.toUpper := by
  rw [read?, h.withoutMark_trim]
  exact exists_color h.hex h.count

/-- A color is told by how it is written. -/
theorem spelling_injective {a b : Color} (h : a.spelling = b.spelling) : a = b :=
  toText_injective (congrArg String.ofList h)

/-- A text is read as a color exactly if it has digits, and the color is the one that is written
with them. -/
theorem read?_eq_some_iff {text : String} {color : Color} :
    read? text = some color ↔ ∃ digits, HasDigits text.toList digits ∧
      color.spelling = '#' :: (sixDigits digits).map Char.toUpper := by
  constructor
  · intro h
    obtain ⟨digits, hdigits⟩ := exists_hasDigits h
    obtain ⟨other, hread, hspelling⟩ := hdigits.exists_read?
    obtain rfl : color = other := Option.some.inj (h.symm.trans hread)
    exact ⟨digits, hdigits, hspelling⟩
  · rintro ⟨digits, hdigits, hspelling⟩
    obtain ⟨other, hread, hother⟩ := hdigits.exists_read?
    rw [hread, spelling_injective (hother.trans hspelling.symm)]

/-- All other texts are refused. -/
theorem read?_eq_none_iff {text : String} :
    read? text = none ↔ ¬ ∃ digits, HasDigits text.toList digits := by
  rw [← not_iff_not, not_not, ← ne_eq, Option.ne_none_iff_exists']
  constructor
  · rintro ⟨color, h⟩
    exact exists_hasDigits h
  · rintro ⟨digits, h⟩
    obtain ⟨color, hread, -⟩ := h.exists_read?
    exact ⟨color, hread⟩

/-- Three digits stand for six of which each is there twice. -/
theorem exists_color_of_three {text other : String} {r g b : Char}
    (h : HasDigits text.toList [r, g, b]) (hother : HasDigits other.toList [r, r, g, g, b, b]) :
    ∃ color, read? text = some color ∧ read? other = some color := by
  obtain ⟨color, hread, hspelling⟩ := h.exists_read?
  obtain ⟨color', hread', hspelling'⟩ := hother.exists_read?
  obtain rfl : color = color' := spelling_injective (hspelling.trans hspelling'.symm)
  exact ⟨color, hread, hread'⟩

/-- Two texts that differ in case alone are read alike, also if they are no colors. -/
theorem read?_congr_toUpper {text other : String}
    (h : text.toList.map Char.toUpper = other.toList.map Char.toUpper) :
    read? text = read? other := by
  have hupper (t : String) : read? t =
      ((withoutMark (Text.trim (t.toList.map Char.toUpper))).mapM hexValue?).bind ofHexValues? := by
    rw [Text.trim_map_toUpper, withoutMark_map_toUpper, mapM_map_toUpper, read?]
  rw [hupper text, hupper other, h]

/-- **A text is a color exactly when it is three or six hexadecimal digits, whatever their case,
with blanks around them and a mark or none in front; any other text is reported as it is. What is
written for the color is the mark and the six digits in upper case, and that is read as the color
again.** -/
theorem read_exact (text : String) :
    (∀ color, read text = .ok color ↔ ∃ digits, HasDigits text.toList digits ∧
      color.toText = String.ofList ('#' :: (sixDigits digits).map Char.toUpper)) ∧
    (∀ unreadable, read text = .error unreadable ↔
      unreadable = ⟨text⟩ ∧ ¬ ∃ digits, HasDigits text.toList digits) ∧
    (∀ other r g b, HasDigits text.toList [r, g, b] →
      HasDigits other.toList [r, r, g, g, b, b] →
        ∃ color, read text = .ok color ∧ read other = .ok color) ∧
    (∀ other : String, text.toList.map Char.toUpper = other.toList.map Char.toUpper →
      ∀ color, read text = .ok color ↔ read other = .ok color) ∧
    ∀ color, read color.toText = .ok color := by
  simp only [read_eq_color_iff, read_eq_unreadable_iff]
  refine ⟨fun color => ?_, fun _ => and_congr_right' read?_eq_none_iff,
    fun _ _ _ _ => exists_color_of_three, fun other hupper color => ?_, read?_toText⟩
  · simp only [read?_eq_some_iff, toText, String.ofList_inj]
  · -- the case of the letters is lost when they are read, so it cannot matter
    rw [read?_congr_toUpper hupper]

example : read " \t#aBc\n" = .ok ⟨0xAA, 0xBB, 0xCC⟩ := by decide

end Color

end CanvasScript
