/-
What the line of a binding is read as.

A binding is written as its word, a name, an equals sign and a value, with single spaces between
them. The name is taken as far as letters, digits and underscores go, and behind blanks the equals
sign has to follow. So of a text that holds no equals sign the question is only whether it is one
word, with blanks around it or not, and the value is what is behind the sign, whatever characters
it has besides line feeds.

`binding?_value` is the one statement that other modules use. It is about lines written in this one
way, with single spaces; which lines have the form of a binding in general, and in how many ways, is
another question and has a module of its own.
-/
import CanvasScript.Proofs.JoinedLines
import CanvasScript.Proofs.TokenText
import CanvasScript.Script.Builtin

set_option autoImplicit false

namespace CanvasScript.Pattern

/-! ## The name -/

/-- The name that a text is, with blanks around it or not. -/
def word? (name : List Char) : Option (List Char) :=
  if !(Text.trim name).isEmpty && (Text.trim name).all Lexer.isNameChar then
    some (Text.trim name)
  else none

/-- A text that goes on, behind blanks, with an equals sign has no other character there. -/
theorem trimStart_equals {blanks : List Char} (h : ∀ c ∈ blanks, Text.isBlank c = true)
    (rest : List Char) : Text.trimStart (blanks ++ ' ' :: '=' :: rest) = '=' :: rest := by
  rw [Text.trimStart_append_of_blanks h, Text.trimStart_cons_of_blank _ (by decide),
    Text.trimStart_cons_of_not_blank _ (by decide)]

/-- A value without blanks at its ends is taken as it stands. -/
theorem boundValue?_space {value : List Char} (hclear : '\n' ∉ value)
    (hvalue : Text.IsBounded value) : boundValue? (' ' :: value) = some value := by
  obtain ⟨hne, htrim⟩ := Text.isBounded_iff.1 hvalue
  obtain ⟨first, -, hhead, -, hfirst, -⟩ := hvalue
  obtain ⟨rest, rfl⟩ := List.head?_eq_some_iff.1 hhead
  have hstart : Text.trimStart (first :: rest) = first :: rest :=
    Text.trimStart_cons_of_not_blank rest hfirst
  have hcontains : (first :: rest).contains '\n' = false := by simpa using hclear
  rw [Text.trim, hstart] at htrim
  rw [boundValue?, Text.trimStart_cons_of_blank _ (by decide), hstart]
  dsimp only
  rw [hcontains, htrim]
  rfl

/-- A binding, once the blanks behind its first word are gone. There is at least the space of the
keyword, so nothing needs to be asked about them. -/
theorem binding?_set (text : List Char) :
    binding? ("set ".toList ++ text) =
      (let named := Text.trimStart text
      if (named.takeWhile Lexer.isNameChar).isEmpty then none
      else
        ((Text.after? ['='] (Text.trimStart (named.dropWhile Lexer.isNameChar))).bind
          boundValue?).map fun value => (named.takeWhile Lexer.isNameChar, value)) := by
  have hword : Text.after? "set".toList ("set ".toList ++ text) = some (' ' :: text) := rfl
  have hblanks : afterBlanks? (' ' :: text) = some (Text.trimStart text) := by
    rw [afterBlanks?, if_pos (by decide)]
  simp only [binding?, hword, hblanks, Option.bind_eq_bind, Option.bind_some]
  rcases hempty : ((Text.trimStart text).takeWhile Lexer.isNameChar).isEmpty with _ | _
  · -- both sides ask the same questions in the same order, so they agree answer by answer
    rcases Text.after? ['='] (Text.trimStart ((Text.trimStart text).dropWhile Lexer.isNameChar))
      with _ | rest
    · rfl
    · simp only [Bool.not_false, guard_true, Option.pure_def, Option.bind_some]
      rcases boundValue? rest with _ | value
      · rfl
      · rfl
  · rfl

/-- What is no word is no name either, whatever stands behind it. The word characters at its front
end before it does, and what comes then is one of its own characters, which are no equals signs. -/
theorem after?_of_not_word {word : List Char} (hequals : '=' ∉ word)
    (hword : Text.IsBounded word) {c : Char} (hmem : c ∈ word) (hc : Lexer.isNameChar c = false)
    (rest : List Char) :
    Text.after? ['='] (Text.trimStart ((word ++ rest).dropWhile Lexer.isNameChar)) = none := by
  have hrest : word.dropWhile Lexer.isNameChar ≠ [] := by
    intro hnil
    have hall := List.dropWhile_eq_nil_iff.1 hnil c hmem
    rw [hc] at hall
    exact absurd hall (by decide)
  -- the last character is not blank, so behind the blanks another character than `=` comes
  have hfilled : Text.trimStart (word.dropWhile Lexer.isNameChar) ≠ [] := by
    intro hnil
    obtain ⟨-, last, -, hlast, -, hblank⟩ := hword
    have hend : last ∈ word.dropWhile Lexer.isNameChar := by
      rw [← List.takeWhile_append_dropWhile (p := Lexer.isNameChar) (l := word),
        List.getLast?_append_of_ne_nil _ hrest] at hlast
      exact List.mem_of_getLast? hlast
    rw [List.dropWhile_eq_nil_iff.1 hnil last hend] at hblank
    exact absurd hblank (by decide)
  have hdrop : Text.trimStart ((word ++ rest).dropWhile Lexer.isNameChar) =
      Text.trimStart (word.dropWhile Lexer.isNameChar) ++ rest := by
    unfold Text.trimStart at hfilled ⊢
    rw [List.dropWhile_append, if_neg (by simpa using hrest), List.dropWhile_append,
      if_neg (by simpa using hfilled)]
  obtain ⟨d, more, hmore⟩ := List.exists_cons_of_ne_nil hfilled
  have hd : d ∈ word := by
    have hmem : d ∈ Text.trimStart (word.dropWhile Lexer.isNameChar) := by
      rw [hmore]
      exact List.mem_cons_self
    exact (List.dropWhile_sublist _).subset ((Text.trimStart_sublist _).subset hmem)
  have hne : '=' ≠ d := by
    rintro rfl
    exact hequals hd
  rw [hdrop, hmore, List.cons_append, Text.after?, if_neg hne]

/-- The name of a binding is what stands before the equals sign, if it is a word. So it can be told
from the line whether there is a binding, without going through the pattern. -/
theorem binding?_value {name value : List Char} (hname : '=' ∉ name) (hclear : '\n' ∉ value)
    (hvalue : Text.IsBounded value) :
    binding? ("set ".toList ++ (name ++ ' ' :: '=' :: ' ' :: value)) =
      (word? name).map fun word => (word, value) := by
  obtain ⟨before, after, hall, hbefore, hafter⟩ := Text.exists_trim name
  rw [binding?_set]
  by_cases hnone : Text.trim name = []
  · simp [trimStart_equals (Text.blank_of_trim_eq_nil hnone), Lexer.isNameChar, word?, hnone]
  · have hbounded : Text.IsBounded (Text.trim name) := Text.isBounded_trim hnone
    have hnamed : Text.trimStart (name ++ ' ' :: '=' :: ' ' :: value) =
        Text.trim name ++ (after ++ ' ' :: '=' :: ' ' :: value) := by
      conv_lhs => rw [hall]
      rw [List.append_assoc, Text.trimStart_append_of_blanks hbefore, List.append_assoc,
        Text.trimStart_append hbounded]
    dsimp only
    rw [hnamed]
    -- all of the name are word characters, or the first other one is met before the equals sign
    by_cases hword : ∀ c ∈ Text.trim name, Lexer.isNameChar c = true
    · have happart : Apart (after ++ ' ' :: '=' :: ' ' :: value) := by
        rcases after with _ | ⟨c, after⟩
        · exact .cons (by decide) _
        · exact .cons (hafter c List.mem_cons_self) _
      have hends := Lexer.ends_isNameChar_of_apart happart
      have hsome : word? name = some (Text.trim name) := by
        rw [word?, if_pos]
        simpa [hnone] using hword
      rw [takeWhile_append_of_ends hword hends, dropWhile_append_of_ends hword hends,
        trimStart_equals hafter, if_neg (by simpa using hnone), hsome]
      have hequals : Text.after? ['='] ('=' :: ' ' :: value) = some (' ' :: value) := rfl
      rw [hequals, Option.bind_some, boundValue?_space hclear hvalue]
      rfl
    · have hnot : word? name = none := by
        rw [word?, if_neg]
        simpa [hnone] using hword
      push Not at hword
      obtain ⟨c, hmem, hc⟩ := hword
      have hequals : '=' ∉ Text.trim name := fun h => hname ((Text.trim_sublist name).subset h)
      rw [after?_of_not_word hequals hbounded hmem (by simpa using hc), hnot]
      simp

end CanvasScript.Pattern
