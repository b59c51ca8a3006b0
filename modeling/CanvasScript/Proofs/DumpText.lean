/-
What a dump says about the draw calls it was written from.

A coordinate and a color are written without blanks, so the first three tabs of a written draw
call are those between its parts. The line feed behind a call is told from others only if the text
has none, and that is the one condition there is: a dump can be cut into its calls again exactly
when no text in it holds a line feed. Numbers and colors are read back from what is written of
them, and so nothing about the calls is lost then.

The condition is found by counting. Each call adds one line, and each line feed in a text one more,
so there are as many lines as calls only if there is no such line feed. That it is enough is the
other half, and that goes call by call.
-/
import CanvasScript.Proofs.NumberText
import CanvasScript.Proofs.ObjectText
import CanvasScript.Surface.Dump

set_option autoImplicit false

namespace CanvasScript

/-! ## Numbers without blanks -/

namespace Binary64

/-- The numbers that are not finite. -/
def special : List Binary64 := [.nan, .infinity false, .infinity true]

/-- There are three numbers that are not finite. -/
theorem mem_special {x : Binary64} (h : x.isFinite = false) : x ∈ special := by
  cases x with
  | nan => decide
  | infinity negative =>
    cases negative with
    | false => decide
    | true => decide
  | finite negative magnitude => exact Bool.noConfusion h

/-- A coordinate is written as a spelling of its number, which therefore can be read back. -/
theorem exists_spelling_plainChars (magnitude : Fin positions) :
    ∃ s : Spelling, s.chars = (finite false magnitude).plainChars ∧
      s.decimal.toBinary64 false = .finite false magnitude := by
  obtain ⟨position, hposition⟩ := magnitude
  rw [plainChars]
  split_ifs with hzero
  · obtain rfl : position = 0 := hzero
    exact ⟨⟨['0'], [], none, by simp, by simp, by simp⟩, rfl, Decimal.toBinary64_zero false 0⟩
  · have hpos : 0 < position := Nat.pos_of_ne_zero hzero
    rw [← Decimal.toBinary64_shortest hpos hposition]
    exact (Decimal.spells_shortest hpos hposition).1

/-- The plain form of a finite number is a numeral that is read as the number. -/
theorem exists_literal_plainChars (negative : Bool) (magnitude : Fin positions) :
    ∃ l : NumberLiteral, l.chars = (finite negative magnitude).plainChars ∧
      l.numeral.toBinary64 = .finite negative magnitude := by
  obtain ⟨s, hchars, hvalue⟩ := exists_spelling_plainChars magnitude
  refine ⟨s.signed negative, ?_, ?_⟩
  · rw [s.chars_signed, hchars]
    rfl
  · rw [s.numeral_signed]
    exact Decimal.toBinary64_of_finite hvalue negative

/-- A coordinate is written without blanks. -/
theorem isBlank_plainChars (x : Binary64) : ∀ c ∈ x.plainChars, Text.isBlank c = false := by
  have hspecial : ∀ y ∈ special, (y.plainChars.all fun c => Text.isBlank c == false) = true := by
    decide
  rcases hfinite : x.isFinite with _ | _
  · exact fun c hc => by simpa using List.all_eq_true.1 (hspecial x (mem_special hfinite)) c hc
  · obtain ⟨negative, magnitude, rfl⟩ := exists_of_isFinite hfinite
    obtain ⟨l, hchars, -⟩ := exists_literal_plainChars negative magnitude
    rw [← hchars]
    exact fun c hc => isBlank_eq_false_of_isNumeralChar (l.isNumeralChar_of_mem_chars c hc)

/-- The number that a plain form is read as, if it is one of a finite number. -/
theorem read?_plainChars (x : Binary64) :
    (Numeral.read? x.plainChars).map Numeral.toBinary64 =
      if x.isFinite then some x else none := by
  have hspecial : ∀ y ∈ special, Numeral.read? y.plainChars = none := by decide
  rcases hfinite : x.isFinite with _ | _
  · rw [hspecial x (mem_special hfinite)]
    rfl
  · obtain ⟨negative, magnitude, rfl⟩ := exists_of_isFinite hfinite
    obtain ⟨l, hchars, hvalue⟩ := exists_literal_plainChars negative magnitude
    rw [← hchars, Numeral.read?_literal, Option.map_some, hvalue]
    rfl

/-- Numbers with the same plain form are the same. A finite number is read back from it, with its
sign, and the three others have forms of their own. -/
theorem plainText_injective {x y : Binary64} (h : x.plainText = y.plainText) : x = y := by
  have hchars : x.plainChars = y.plainChars := String.ofList_injective h
  have hread := x.read?_plainChars
  rw [hchars, y.read?_plainChars] at hread
  rcases hx : x.isFinite with _ | _
  · rcases hy : y.isFinite with _ | _
    · have hspecial : ∀ x ∈ special, ∀ y ∈ special, x.plainChars = y.plainChars → x = y := by
        decide
      exact hspecial x (mem_special hx) y (mem_special hy) hchars
    · simp [hx, hy] at hread
  · rcases hy : y.isFinite with _ | _
    · simp [hx, hy] at hread
    · simpa [hx, hy, eq_comm] using hread

end Binary64

/-! ## Colors -/

namespace Color

/-- No digit is blank, so none is a tab or a line feed. -/
theorem hexDigit_ne_blank {n : Nat} (h : n < 16) : Text.isBlank (hexDigit n) = false := by
  have hall : ∀ m : Fin 16, Text.isBlank (hexDigit m.val) = false := by decide
  exact hall ⟨n, h⟩

/-- A color is written without blanks. -/
theorem isBlank_spelling (color : Color) : ∀ c ∈ color.spelling, Text.isBlank c = false := by
  have hdigit : ∀ part : UInt8, ∀ c ∈ hexPair part, Text.isBlank c = false := by
    intro part c hc
    have hpart : part.toNat < 256 := part.toNat_lt
    simp only [hexPair, List.mem_cons, List.not_mem_nil, or_false] at hc
    rcases hc with rfl | rfl
    · exact hexDigit_ne_blank (by omega)
    · exact hexDigit_ne_blank (by omega)
  intro c hc
  simp only [spelling, List.cons_append, List.mem_cons, List.mem_append] at hc
  rcases hc with rfl | (hred | hgreen) | hblue
  · decide
  · exact hdigit _ c hred
  · exact hdigit _ c hgreen
  · exact hdigit _ c hblue

/-- A pair of digits is read back as the two halves of the part that it was written for. -/
theorem mapM_hexPair_append (part : UInt8) (rest : List Char) :
    (hexPair part ++ rest).mapM hexValue? =
      (rest.mapM hexValue?).map fun values =>
        part.toNat / 16 :: part.toNat % 16 :: values := by
  have hpart : part.toNat < 256 := part.toNat_lt
  have hhigh : hexValue? (hexDigit (part.toNat / 16)) = some (part.toNat / 16) :=
    hexValue?_hexDigit (by omega)
  have hlow : hexValue? (hexDigit (part.toNat % 16)) = some (part.toNat % 16) :=
    hexValue?_hexDigit (by omega)
  simp only [hexPair, List.cons_append, List.nil_append, List.mapM_cons, hhigh, hlow]
  rcases rest.mapM hexValue? with _ | values
  · rfl
  · rfl

/-- **A written color is read as the color.** Two digits are written for each part, and they are the
two halves that are put together when it is read. -/
theorem read?_toText (color : Color) : read? color.toText = some color := by
  have hbounded : Text.IsBounded color.spelling :=
    Text.isBounded_of_not_blank (List.cons_ne_nil _ _) color.isBlank_spelling
  have hdigits : (hexPair color.red ++ (hexPair color.green ++ (hexPair color.blue ++ []))).mapM
      hexValue? = some [color.red.toNat / 16, color.red.toNat % 16, color.green.toNat / 16,
        color.green.toNat % 16, color.blue.toNat / 16, color.blue.toNat % 16] := by
    rw [mapM_hexPair_append, mapM_hexPair_append, mapM_hexPair_append]
    rfl
  have hmark : withoutMark color.spelling =
      hexPair color.red ++ (hexPair color.green ++ (hexPair color.blue ++ [])) := by
    simp [withoutMark, spelling]
  rw [read?, toText, String.toList_ofList, (Text.isBounded_iff.1 hbounded).2, hmark, hdigits,
    Option.bind_some, ofHexValues?, part_digits, part_digits, part_digits]

/-- A color is told by its text. -/
theorem toText_injective {a b : Color} (h : a.toText = b.toText) : a = b := by
  have hread := a.read?_toText
  rw [h, b.read?_toText] at hread
  exact (Option.some.inj hread).symm

end Color

/-! ## Lines of a dump -/

/-- A text is cut into one piece more than it has separators. -/
theorem length_splitOn (separator : Char) (text : List Char) :
    (text.splitOn separator).length = text.count separator + 1 := by
  induction text with
  | nil => rfl
  | cons c rest ih =>
    rw [List.splitOn_cons_eq_if_modifyHead, List.count_cons]
    by_cases hc : (c == separator) = true
    · rw [if_pos hc, if_pos hc, List.length_cons, ih]
    · rw [if_neg hc, if_neg hc, List.length_modifyHead, ih]

/-- The parts of a written draw call. -/
structure CallParts where
  x : String
  y : String
  color : String
  text : String
  deriving DecidableEq

/-- What a draw call is written from. -/
def DrawCall.parts (call : DrawCall) : CallParts :=
  ⟨call.x.plainText, call.y.plainText, call.color.toText, call.text⟩

/-- The parts of a line that is cut at its first three tabs. -/
def CallParts.ofLine? (line : List Char) : Option CallParts := do
  let (x, behindX) ← Text.cutFirst? (· == '\t') line
  let (y, behindY) ← Text.cutFirst? (· == '\t') behindX
  let (color, text) ← Text.cutFirst? (· == '\t') behindY
  return ⟨String.ofList x, String.ofList y, String.ofList color, String.ofList text⟩

/-- The characters of a written draw call: coordinates, color and text, with tabs between them. -/
theorem DrawCall.toList_toText (call : DrawCall) :
    call.toText.toList = call.x.plainChars ++ '\t' :: (call.y.plainChars ++
      '\t' :: (call.color.spelling ++ '\t' :: call.text.toList)) := by
  simp [toText, Binary64.plainText, Color.toText]

/-- **A written draw call gives back its parts**, whatever its text is. The text stands behind the
third tab, and neither numbers nor colors are written with blanks, so the first three tabs are those
between the parts. -/
theorem DrawCall.ofLine?_toText (call : DrawCall) :
    CallParts.ofLine? call.toText.toList = some call.parts := by
  -- what is in front of a tab has no blank, so that tab is the first
  have hcut : ∀ front back : List Char, (∀ c ∈ front, Text.isBlank c = false) →
      Text.cutFirst? (· == '\t') (front ++ '\t' :: back) = some (front, back) := by
    intro front back hfront
    refine Text.cutFirst?_append (fun c hc => ?_) (by decide)
    rw [beq_eq_false_iff_ne]
    rintro rfl
    exact absurd (hfront _ hc) (by decide)
  rw [toList_toText, CallParts.ofLine?, hcut _ _ call.x.isBlank_plainChars]
  simp only [Option.bind_eq_bind, Option.bind_some]
  rw [hcut _ _ call.y.isBlank_plainChars]
  simp only [Option.bind_some]
  rw [hcut _ _ call.color.isBlank_spelling]
  simp [parts, Binary64.plainText, Color.toText]

/-- A draw call is told by its parts, since numbers and colors are. -/
theorem DrawCall.parts_injective {a b : DrawCall} (h : a.parts = b.parts) : a = b := by
  simp only [parts, CallParts.mk.injEq] at h
  obtain ⟨hx, hy, hcolor, htext⟩ := h
  rcases a with ⟨text, x, y, color⟩
  rcases b with ⟨text', x', y', color'⟩
  obtain rfl := Binary64.plainText_injective hx
  obtain rfl := Binary64.plainText_injective hy
  obtain rfl := Color.toText_injective hcolor
  obtain rfl : text = text' := htext
  rfl

/-- Of a written draw call, only the text can hold line feeds. -/
theorem DrawCall.count_lineFeed_toText (call : DrawCall) :
    call.toText.toList.count '\n' = call.text.toList.count '\n' := by
  have hnone : ∀ front : List Char, (∀ c ∈ front, Text.isBlank c = false) →
      front.count '\n' = 0 := by
    intro front hfront
    refine List.count_eq_zero_of_not_mem fun hmem => ?_
    exact absurd (hfront _ hmem) (by decide)
  simp [toList_toText, List.count_append, hnone _ call.x.isBlank_plainChars,
    hnone _ call.y.isBlank_plainChars, hnone _ call.color.isBlank_spelling]

namespace Dump

/-- What a dump of draw calls is. -/
def dumped (calls : List DrawCall) : String := String.join (calls.map line)

/-- A dump on a channel that refuses nothing is what is written for the calls, one after the
other. -/
theorem drawAll_eq {dump : Dump} (hwrite : dump.out.writeRefusal = none)
    (hflush : dump.out.flushRefusal = none) (calls : List DrawCall) :
    drawAll dump calls = (⟨⟨dump.out.written ++ dumped calls, none, none⟩⟩, []) := by
  induction calls generalizing dump with
  | nil =>
    rcases dump with ⟨⟨written, writeRefusal, flushRefusal⟩⟩
    obtain rfl : writeRefusal = none := hwrite
    obtain rfl : flushRefusal = none := hflush
    simp [drawAll, dumped]
  | cons call rest ih =>
    have hsend : Surface.draw dump call = (⟨⟨dump.out.written ++ line call, none, none⟩⟩, []) := by
      simp only [Surface.draw, Channel.send_of_open hwrite hflush]
    rw [drawAll, hsend]
    dsimp only
    rw [ih rfl rfl]
    simp [dumped, String.append_assoc]

/-- The lines of a dump. What is behind the last line feed is no line. -/
def linesOf (output : String) : List (List Char) := (output.toList.splitOn '\n').dropLast

/-- The calls of a dump are the lines of each, one after the other. -/
theorem linesOf_dumped (calls : List DrawCall) :
    linesOf (dumped calls) = calls.flatMap fun call => call.toText.toList.splitOn '\n' := by
  have hsplit : (dumped calls).toList.splitOn '\n' =
      (calls.flatMap fun call => call.toText.toList.splitOn '\n') ++ [[]] := by
    induction calls with
    | nil => rfl
    | cons call rest ih =>
      have hchars : (dumped (call :: rest)).toList =
          call.toText.toList ++ '\n' :: (dumped rest).toList := by
        simp [dumped, line]
      rw [hchars, List.splitOn_append_cons_self, ih, List.flatMap_cons, List.append_assoc]
  rw [linesOf, hsplit, List.dropLast_concat]

/-- There is a line for each call, and one more for each line feed in its text. So the number of
lines says whether there are any. -/
theorem length_linesOf_dumped (calls : List DrawCall) :
    (linesOf (dumped calls)).length =
      calls.length + (calls.map fun call => call.text.toList.count '\n').sum := by
  rw [linesOf_dumped]
  induction calls with
  | nil => rfl
  | cons call rest ih =>
    rw [List.flatMap_cons, List.length_append, length_splitOn, call.count_lineFeed_toText, ih,
      List.map_cons, List.sum_cons, List.length_cons]
    omega

/-- The lines of a dump, each cut into the parts of a draw call. -/
def decode (output : String) : List (Option CallParts) :=
  (linesOf output).map CallParts.ofLine?

/-- **A dump can be cut into its calls exactly when no text in it holds a line feed.** In one
direction it is a count: there is one line for each call and one more for each line feed in a text,
so there are as many lines as calls only without them. -/
theorem decode_dumped_iff (calls : List DrawCall) :
    decode (dumped calls) = calls.map (fun call => some call.parts) ↔
      ∀ call ∈ calls, '\n' ∉ call.text.toList := by
  constructor
  · intro hdecode call hmem hlineFeed
    have hlength := congrArg List.length hdecode
    rw [decode, List.length_map, length_linesOf_dumped, List.length_map] at hlength
    have hzero : (calls.map fun call => call.text.toList.count '\n').sum = 0 := by omega
    have hcount := List.sum_eq_zero_iff_forall_eq_nat.1 hzero _ (List.mem_map_of_mem hmem)
    exact absurd hlineFeed (List.count_eq_zero.1 hcount)
  · intro hclear
    -- a call without line feeds is one line, and that gives back its parts
    have hline : ∀ call ∈ calls,
        (call.toText.toList.splitOn '\n').map CallParts.ofLine? = [some call.parts] := by
      intro call hmem
      have hnone : '\n' ∉ call.toText.toList := by
        rw [← List.count_eq_zero, call.count_lineFeed_toText, List.count_eq_zero]
        exact hclear call hmem
      rw [List.splitOn_eq_singleton hnone, List.map_singleton, call.ofLine?_toText]
    rw [decode, linesOf_dumped, List.map_flatMap]
    induction calls with
    | nil => rfl
    | cons call rest ih =>
      rw [List.flatMap_cons, List.map_cons, hline call List.mem_cons_self,
        ih (fun c hc => hclear c (List.mem_cons_of_mem _ hc))
          fun c hc => hline c (List.mem_cons_of_mem _ hc)]
      rfl

/-- Calls whose texts hold no line feeds are determined by their dump. The lines give back the parts
of the calls, and these determine the calls. -/
theorem dumped_injective {calls others : List DrawCall}
    (hcalls : ∀ call ∈ calls, '\n' ∉ call.text.toList)
    (hothers : ∀ call ∈ others, '\n' ∉ call.text.toList)
    (h : dumped calls = dumped others) : calls = others := by
  have hparts : calls.map (fun call => some call.parts) =
      others.map fun call => some call.parts := by
    rw [← (decode_dumped_iff calls).2 hcalls, ← (decode_dumped_iff others).2 hothers, h]
  exact List.map_injective_iff.2
    (fun a b hsame => DrawCall.parts_injective (Option.some.inj hsame)) hparts

end Dump

end CanvasScript
