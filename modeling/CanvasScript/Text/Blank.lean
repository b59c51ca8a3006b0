/-
Blank characters, and text without them at its ends.

Blank means the Unicode property `White_Space`, in every part of the project: around
lines, around keys and values, between tokens, and in the pattern of the binding command.
The property has twenty-five characters and they are listed here as ranges. The core
library's own class of blanks has only the ASCII ones that programs use, and misses the
line tabulation and the form feed, so it is not used anywhere.
-/

set_option autoImplicit false

namespace CanvasScript.Text

/-! ## The class of blanks -/

/-- The ranges of code points with the property `White_Space`, in increasing order. -/
def blankRanges : List (Nat × Nat) :=
  [(0x09, 0x0D), (0x20, 0x20), (0x85, 0x85), (0xA0, 0xA0), (0x1680, 0x1680),
   (0x2000, 0x200A), (0x2028, 0x2029), (0x202F, 0x202F), (0x205F, 0x205F), (0x3000, 0x3000)]

def isBlank (c : Char) : Bool :=
  blankRanges.any fun (first, last) => first ≤ c.toNat && c.toNat ≤ last

/-- The property has twenty-five characters. -/
example : (blankRanges.map fun (first, last) => last + 1 - first).sum = 25 := by decide

/-! ## Trimming -/

/-- Text without the blanks at its start. -/
def trimStart (text : List Char) : List Char := text.dropWhile isBlank

/-- Text without the blanks at its end. -/
def trimEnd (text : List Char) : List Char := (text.reverse.dropWhile isBlank).reverse

/-- Text without the blanks at its start and at its end. -/
def trim (text : List Char) : List Char := trimEnd (trimStart text)

@[simp] theorem trimStart_nil : trimStart [] = [] := rfl

@[simp] theorem trimEnd_nil : trimEnd [] = [] := rfl

@[simp] theorem trim_nil : trim [] = [] := rfl

theorem trimStart_cons_of_blank {c : Char} (text : List Char) (h : isBlank c = true) :
    trimStart (c :: text) = trimStart text := by
  rw [trimStart, List.dropWhile_cons_of_pos h, trimStart]

theorem trimStart_cons_of_not_blank {c : Char} (text : List Char) (h : isBlank c = false) :
    trimStart (c :: text) = c :: text := by
  rw [trimStart, List.dropWhile_cons_of_neg (by simp [h])]

/-- A blank at the end is dropped. -/
theorem trimEnd_concat_of_blank {c : Char} (text : List Char) (h : isBlank c = true) :
    trimEnd (text ++ [c]) = trimEnd text := by
  rw [trimEnd, List.reverse_append, List.reverse_singleton, List.singleton_append,
    List.dropWhile_cons_of_pos h, trimEnd]

/-- Text that ends with another character keeps its end. -/
theorem trimEnd_concat_of_not_blank {c : Char} (text : List Char) (h : isBlank c = false) :
    trimEnd (text ++ [c]) = text ++ [c] := by
  rw [trimEnd, List.reverse_append, List.reverse_singleton, List.singleton_append,
    List.dropWhile_cons_of_neg (by simp [h])]
  simp

/-- A string without the blanks at its start and at its end. -/
def trimmed (s : String) : String := String.ofList (trim s.toList)

@[simp] theorem toList_trimmed (s : String) : (trimmed s).toList = trim s.toList := by
  simp [trimmed]

end CanvasScript.Text
