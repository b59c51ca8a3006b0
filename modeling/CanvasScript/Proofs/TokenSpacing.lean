/-
Blanks between tokens make no difference.

Every part of a token is as long as it can be, so where it ends depends on what stands behind it,
and on up to two characters of that: `1` goes on into `.5` and not into `.x`. Blanks between later
tokens may come to stand among these characters. The proof follows the text behind a part from
its front: it stays the same up to the first new blank, and over a blank only a string goes on,
which ends with its quote whatever stands behind that. So a part that ended in front of a text
still ends there when the text gets blanks, and what is read token by token reaches the same
places.

The statements are made of readers in general where that is possible. A part of a token is a
function on a text, and `IsLocal` says of it that new blanks in what it leaves do not move its end.
It holds of the longest run of a class without blanks, and it is kept when parts are put one behind
the other or made optional, and numbers are built in just these ways. `IsSteady` says the same of a
reader that may fail, and `Reaches` carries it from one token to all tokens of a text, so that in
the end only edits at the places between tokens are left to look at.
-/
import CanvasScript.Proofs.BoundNames
import CanvasScript.Proofs.LineFeeds
import Mathlib.Logic.Relation

set_option autoImplicit false

namespace CanvasScript

/-! ## Texts that are the same up to a blank -/

/-- The second text is the same as the first one up to a blank in it, or up to its end. -/
inductive SameToBlank : List Char → List Char → Prop where
  | apart {text other : List Char} (h : Apart other) : SameToBlank text other
  | same (c : Char) {text other : List Char} (h : SameToBlank text other) :
      SameToBlank (c :: text) (c :: other)

namespace SameToBlank

/-- Two texts that are the same up to a blank remain so behind a common front. This is how a change
at one place in a text is seen from its beginning. -/
theorem append (front : List Char) {text other : List Char} (h : SameToBlank text other) :
    SameToBlank (front ++ text) (front ++ other) := by
  induction front with
  | nil => exact h
  | cons c front ih => exact .same c ih

/-- Blanks in front of a text, of which there is at least one. -/
theorem of_blanks {blanks : List Char} (hne : blanks ≠ [])
    (h : ∀ c ∈ blanks, Text.isBlank c = true) (text rest : List Char) :
    SameToBlank text (blanks ++ rest) := by
  obtain ⟨c, more, rfl⟩ := List.exists_cons_of_ne_nil hne
  exact .apart (.cons (h c List.mem_cons_self) _)

/-- What does not go on with a class of characters still does not, if blanks are not in it. -/
theorem ends {inClass : Char → Bool} (hclass : ∀ c, Text.isBlank c = true → inClass c = false)
    {text other : List Char} (h : SameToBlank text other) (hends : Ends inClass text) :
    Ends inClass other := by
  cases h with
  | apart h => exact h.ends hclass
  | same c h => exact .cons (hends c rfl) _

end SameToBlank

/-- A text in front of which a class of characters does not end begins with a character of the
class. -/
theorem exists_of_not_ends {inClass : Char → Bool} {text : List Char} (h : ¬Ends inClass text) :
    ∃ c more, text = c :: more ∧ inClass c = true := by
  rcases text with _ | ⟨c, more⟩
  · exact absurd (.nil _) h
  · refine ⟨c, more, rfl, ?_⟩
    by_contra hc
    exact h (.cons (Bool.eq_false_of_not_eq_true hc) _)

/-- What stands behind the first character of a text ends it, so the rest begins with that
character. -/
theorem exists_front_of_cons {c : Char} {text front rest : List Char}
    (h : c :: text = front ++ rest) (hsuffix : rest <:+ text) :
    ∃ more, front = c :: more ∧ text = more ++ rest := by
  obtain ⟨more, rfl⟩ := hsuffix
  rw [← List.cons_append, List.append_cancel_right_eq] at h
  exact ⟨more, h.symm, rfl⟩

namespace Lexer

/-! ## Parts of tokens -/

/-- A part of a token: what is taken from the front of a text, and what is left. -/
abbrev Part := (text : List Char) → List Char × Remainder text

def Takes (part : Part) (text taken rest : List Char) : Prop :=
  (part text).1 = taken ∧ (part text).2.val = rest

/-- Blanks in what is left do not change where the part ends. -/
structure IsLocal (part : Part) : Prop where
  suffix : ∀ {text taken rest : List Char}, Takes part text taken rest → rest <:+ text
  stable : ∀ {front rest other taken : List Char}, SameToBlank rest other →
    Takes part (front ++ rest) taken rest → Takes part (front ++ other) taken other

/-- No characters. -/
def nothing : Part := fun text => ([], allOf text)

/-- The longest beginning of a class. -/
def run (inClass : Char → Bool) : Part :=
  fun text => (text.takeWhile inClass, dropClass inClass text)

/-- One part and behind it another. -/
def andThen (first second : Part) : Part := fun text =>
  let (taken, behind) := first text
  let (more, rest) := second behind.val
  (taken ++ more, behind.further rest)

/-- What two parts take together is what the first one takes and, behind that, what the second one
takes. The place in the middle is named, since the proofs need it. -/
theorem takes_andThen_iff {first second : Part} {text both rest : List Char} :
    Takes (andThen first second) text both rest ↔
      ∃ taken behind more, Takes first text taken behind ∧ Takes second behind more rest ∧
        taken ++ more = both := by
  constructor
  · rintro ⟨hboth, hrest⟩
    exact ⟨_, _, _, ⟨rfl, rfl⟩, ⟨rfl, hrest⟩, hboth⟩
  · rintro ⟨taken, behind, more, ⟨rfl, rfl⟩, ⟨rfl, rfl⟩, rfl⟩
    exact ⟨rfl, rfl⟩

/-- A part that takes nothing ends where it starts, and no blank changes that. -/
theorem isLocal_nothing : IsLocal nothing where
  suffix := by
    rintro text taken rest ⟨-, rfl⟩
    exact List.suffix_rfl
  stable := by
    rintro front rest other taken - ⟨rfl, hrest⟩
    obtain rfl : front = [] := List.append_left_eq_self.1 hrest
    exact ⟨rfl, rfl⟩

/-- The longest beginning of a class without blanks ends at a new blank at the latest, and it goes
on over nothing that it did not go on over before. -/
theorem isLocal_run {inClass : Char → Bool}
    (hclass : ∀ c, Text.isBlank c = true → inClass c = false) : IsLocal (run inClass) where
  suffix := by
    rintro text taken rest ⟨-, rfl⟩
    exact List.dropWhile_suffix _
  stable := by
    rintro front rest other taken hother ⟨rfl, hrest⟩
    have hdrop : (front ++ rest).dropWhile inClass = rest := hrest
    have hends : Ends inClass rest := hdrop ▸ ends_dropWhile inClass _
    have htake : (front ++ rest).takeWhile inClass = front := by
      have hwhole := (front ++ rest).takeWhile_append_dropWhile (p := inClass)
      rwa [hdrop, List.append_cancel_right_eq] at hwhole
    have hfront : ∀ c ∈ front, inClass c = true := fun c hc =>
      List.mem_takeWhile_imp (htake.symm ▸ hc)
    have hends' : Ends inClass other := hother.ends hclass hends
    exact ⟨(takeWhile_append_of_ends hfront hends').trans htake.symm,
      dropWhile_append_of_ends hfront hends'⟩

/-- What the second part leaves is the end of what the first one leaves, so it stands behind
both. -/
theorem IsLocal.andThen {first second : Part} (hfirst : IsLocal first) (hsecond : IsLocal second) :
    IsLocal (andThen first second) where
  suffix := by
    intro text both rest h
    obtain ⟨taken, behind, more, htaken, hmore, -⟩ := takes_andThen_iff.1 h
    exact (hsecond.suffix hmore).trans (hfirst.suffix htaken)
  stable := by
    intro front rest other both hother h
    obtain ⟨taken, behind, more, htaken, hmore, hboth⟩ := takes_andThen_iff.1 h
    -- the first part ends in front of what the second one takes, and blanks behind that are
    -- blanks behind both
    obtain ⟨between, rfl⟩ := hsecond.suffix hmore
    obtain ⟨before, hbefore⟩ := hfirst.suffix htaken
    obtain rfl : before ++ between = front := by
      rwa [← List.append_assoc, List.append_cancel_right_eq] at hbefore
    rw [List.append_assoc] at htaken ⊢
    exact takes_andThen_iff.2 ⟨taken, between ++ other, more,
      hfirst.stable (hother.append between) htaken, hsecond.stable hother hmore, hboth⟩

/-- A character of a class and a body behind it, or nothing where no such character stands. -/
def optional (inClass : Char → Bool) (write : Char → Char) (body : Part) : Part
  | [] => ([], allOf [])
  | c :: text =>
    if inClass c then
      let (more, rest) := body text
      (write c :: more, rest.after c)
    else ([], allOf (c :: text))

section Optional

variable {inClass : Char → Bool} {write : Char → Char} {body : Part}

/-- Without the character that would begin it, an optional part takes nothing. -/
theorem takes_optional_of_ends {text : List Char} (h : Ends inClass text) :
    Takes (optional inClass write body) text [] text := by
  rcases text with _ | ⟨c, text⟩
  · exact ⟨rfl, rfl⟩
  · rw [Takes, optional, if_neg (by simp [h c rfl])]
    exact ⟨rfl, rfl⟩

/-- With that character, an optional part takes it, as it is written in the token, and then its
body. -/
theorem takes_optional_iff {c : Char} {text taken rest : List Char} (h : inClass c = true) :
    Takes (optional inClass write body) (c :: text) taken rest ↔
      ∃ more, Takes body text more rest ∧ write c :: more = taken := by
  rw [Takes, optional, if_pos h]
  constructor
  · rintro ⟨rfl, rfl⟩
    exact ⟨_, ⟨rfl, rfl⟩, rfl⟩
  · rintro ⟨more, ⟨rfl, rfl⟩, rfl⟩
    exact ⟨rfl, rfl⟩

/-- The character is there, or nothing is taken. -/
theorem takes_optional_cases {text taken rest : List Char}
    (h : Takes (optional inClass write body) text taken rest) :
    (∃ c behind more, text = c :: behind ∧ inClass c = true ∧ Takes body behind more rest ∧
        write c :: more = taken) ∨
      Ends inClass text ∧ taken = [] ∧ rest = text := by
  by_cases hends : Ends inClass text
  · have hnone : Takes (optional inClass write body) text [] text := takes_optional_of_ends hends
    exact .inr ⟨hends, h.1.symm.trans hnone.1, h.2.symm.trans hnone.2⟩
  · obtain ⟨c, behind, rfl, hc⟩ := exists_of_not_ends hends
    obtain ⟨more, hmore, htaken⟩ := (takes_optional_iff hc).1 h
    exact .inl ⟨c, behind, more, rfl, hc, hmore, htaken⟩

/-- An optional part is local if its body is and no blank begins it. A new blank can stand in the
place of the first character only where there was none of its class. -/
theorem IsLocal.optional (hclass : ∀ c, Text.isBlank c = true → inClass c = false)
    (hbody : IsLocal body) : IsLocal (optional inClass write body) where
  suffix := by
    intro text taken rest h
    rcases takes_optional_cases h with ⟨c, behind, more, rfl, -, hmore, -⟩ | ⟨-, -, rfl⟩
    · exact (hbody.suffix hmore).trans (List.suffix_cons c behind)
    · exact List.suffix_rfl
  stable := by
    intro front rest other taken hother h
    rcases takes_optional_cases h with ⟨c, behind, more, htext, hc, hmore, htaken⟩ |
      ⟨hends, rfl, hrest⟩
    · obtain ⟨front, rfl, rfl⟩ := exists_front_of_cons htext.symm (hbody.suffix hmore)
      exact (takes_optional_iff hc).2 ⟨more, hbody.stable hother hmore, htaken⟩
    · obtain rfl : front = [] := List.append_left_eq_self.1 hrest.symm
      exact takes_optional_of_ends (hother.ends hclass hends)

end Optional

/-! ### Numbers -/

theorem beq_eq_false_of_isBlank {c d : Char} (hc : Text.isBlank c = true)
    (hd : Text.isBlank d = false) : (c == d) = false := by
  rw [beq_eq_false_iff_ne]
  rintro rfl
  exact Bool.noConfusion (hc.symm.trans hd)

theorem isLocal_digits : IsLocal (run Char.isDigit) := isLocal_run Text.not_isDigit_of_isBlank

/-- A point at the front has no digit behind it. -/
def HasNoFraction (text : List Char) : Prop := ∀ more, text = '.' :: more → Ends Char.isDigit more

/-- Where no digit stands behind a point, new blanks do not bring one there. -/
theorem hasNoFraction_of_sameToBlank {text other : List Char} (h : SameToBlank text other)
    (hnone : HasNoFraction text) : HasNoFraction other := by
  rintro more rfl
  cases h with
  | apart h => exact absurd (h '.' rfl) (by decide)
  | same _ h => exact h.ends Text.not_isDigit_of_isBlank (hnone _ rfl)

/-- A point without a digit behind it is not taken: it may be the point of a field. -/
theorem takes_point_of_hasNoFraction {text : List Char} (h : HasNoFraction text) :
    Takes takePointAndDigits text [] text := by
  rw [Takes, takePointAndDigits.eq_def]
  split
  · rename_i d more
    rw [if_neg (by simp [h _ rfl d rfl])]
    exact ⟨rfl, rfl⟩
  · exact ⟨rfl, rfl⟩

/-- A point is taken together with the digit behind it, and then as many digits as there are. -/
theorem takes_point_iff {d : Char} {text taken rest : List Char} (h : d.isDigit = true) :
    Takes takePointAndDigits ('.' :: d :: text) taken rest ↔
      ∃ more, Takes (run Char.isDigit) text more rest ∧ '.' :: d :: more = taken := by
  rw [Takes, takePointAndDigits, if_pos h]
  constructor
  · rintro ⟨rfl, rfl⟩
    exact ⟨_, ⟨rfl, rfl⟩, rfl⟩
  · rintro ⟨more, ⟨rfl, rfl⟩, rfl⟩
    exact ⟨rfl, rfl⟩

/-- If it is not so that no digit follows a point, the text begins with a point and a digit. -/
theorem exists_digit_of_not_hasNoFraction {text : List Char} (h : ¬HasNoFraction text) :
    ∃ d more, text = '.' :: d :: more ∧ d.isDigit = true := by
  simp only [HasNoFraction, not_forall] at h
  obtain ⟨behind, rfl, hends⟩ := h
  obtain ⟨d, more, rfl, hd⟩ := exists_of_not_ends hends
  exact ⟨d, more, rfl, hd⟩

/-- The point is the one part of a number that looks two characters ahead. It is local all the same,
because it takes both characters or none of them. -/
theorem isLocal_takePointAndDigits : IsLocal takePointAndDigits where
  suffix := by
    rintro text taken rest ⟨-, rfl⟩
    exact suffix_takePointAndDigits text
  stable := by
    intro front rest other taken hother h
    by_cases hnone : HasNoFraction (front ++ rest)
    · -- a blank behind a point, or in its place, makes no fraction
      obtain ⟨htaken, hrest⟩ := takes_point_of_hasNoFraction hnone
      obtain rfl : front = [] := List.append_left_eq_self.1 (hrest.symm.trans h.2)
      rw [← h.1, htaken]
      exact takes_point_of_hasNoFraction (hasNoFraction_of_sameToBlank hother hnone)
    · -- the point and one digit are taken, so the rest begins behind them
      obtain ⟨d, behind, htext, hd⟩ := exists_digit_of_not_hasNoFraction hnone
      rw [htext, takes_point_iff hd] at h
      obtain ⟨more, hmore, htaken⟩ := h
      have hsuffix := isLocal_digits.suffix hmore
      obtain ⟨front, rfl, hbehind⟩ :=
        exists_front_of_cons htext.symm (hsuffix.trans (List.suffix_cons d behind))
      obtain ⟨front, rfl, rfl⟩ := exists_front_of_cons hbehind hsuffix
      exact (takes_point_iff hd).2 ⟨more, isLocal_digits.stable hother hmore, htaken⟩

/-- The sign of an exponent is an optional part without a body. -/
theorem takeExponentSign_eq_optional : takeExponentSign = optional Numeral.isSign id nothing := by
  funext text
  rw [takeExponentSign.eq_def, optional.eq_def]
  split
  · rfl
  · rfl
  · rename_i hplus hminus
    rcases text with _ | ⟨c, text⟩
    · rfl
    · have hc : Numeral.isSign c = false := by
        rw [Numeral.isSign, Bool.or_eq_false_iff, beq_eq_false_iff_ne, beq_eq_false_iff_ne]
        exact ⟨fun h => hplus text (by rw [h]), fun h => hminus text (by rw [h])⟩
      simp [hc]

/-- The letters that begin an exponent. -/
def isExponentLetter (c : Char) : Bool := c == 'e' || c == 'E'

/-- The exponent is an optional part, begun by its letter. It is taken even if no digit follows, and
then the number is refused and not cut short. -/
theorem takeExponent_eq_optional :
    takeExponent = optional isExponentLetter (fun _ => 'e') takeExponentBody := by
  funext text
  rcases text with _ | ⟨c, text⟩
  · rfl
  · simp only [takeExponent, optional, isExponentLetter, Bool.or_eq_true, beq_iff_eq]

/-- Neither a letter nor a sign nor a digit is a blank, so nothing in an exponent goes on over one.
-/
theorem isLocal_takeExponent : IsLocal takeExponent := by
  have hsign : IsLocal takeExponentSign := by
    rw [takeExponentSign_eq_optional]
    exact isLocal_nothing.optional fun c hc => by
      rw [Numeral.isSign, beq_eq_false_of_isBlank hc rfl, beq_eq_false_of_isBlank hc rfl]
      rfl
  have hbody : IsLocal takeExponentBody := hsign.andThen isLocal_digits
  rw [takeExponent_eq_optional]
  exact hbody.optional fun c hc => by
    rw [isExponentLetter, beq_eq_false_of_isBlank hc rfl, beq_eq_false_of_isBlank hc rfl]
    rfl

/-- The part of a number behind its first digit. -/
def number : Part := andThen (andThen (run Char.isDigit) takePointAndDigits) takeExponent

/-- What is taken behind the first digit of a number is local, as it is built of local parts. -/
theorem isLocal_number : IsLocal number :=
  (isLocal_digits.andThen isLocal_takePointAndDigits).andThen isLocal_takeExponent

/-! ## Readers of tokens -/

/-- Blanks in what is left do not change what is read. -/
def IsSteady (read : (text : List Char) → Except EvalError (Token × Remainder text)) : Prop :=
  ∀ {front rest other : List Char} {token : Token}, SameToBlank rest other →
    bare (read (front ++ rest)) = .ok (token, rest) →
      bare (read (front ++ other)) = .ok (token, other)

/-- The token that is made of what a part takes. -/
def made (part : Part) (make : List Char → Except EvalError Token) (text : List Char) :
    Except EvalError (Token × Remainder text) :=
  (make (part text).1).map fun token => (token, (part text).2)

/-- A token is made if a part is taken and the token can be made of it. -/
theorem bare_made_eq_ok_iff {part : Part} {make : List Char → Except EvalError Token}
    {text rest : List Char} {token : Token} :
    bare (made part make text) = .ok (token, rest) ↔
      ∃ taken, Takes part text taken rest ∧ make taken = .ok token := by
  rw [bare, made]
  constructor
  · intro h
    obtain ⟨⟨token', left⟩, hmap, hsame⟩ := map_eq_ok_iff.1 h
    obtain ⟨token'', hmake, hsame'⟩ := map_eq_ok_iff.1 hmap
    obtain ⟨rfl, rfl⟩ := Prod.mk.inj hsame'
    obtain ⟨rfl, rfl⟩ := Prod.mk.inj hsame
    exact ⟨_, ⟨rfl, rfl⟩, hmake⟩
  · rintro ⟨taken, ⟨rfl, rfl⟩, hmake⟩
    rw [hmake]
    rfl

/-- A reader that makes tokens of a local part is steady, whatever it makes of the part. -/
theorem isSteady_made {part : Part} (hpart : IsLocal part)
    (make : List Char → Except EvalError Token) : IsSteady (made part make) := by
  intro front rest other token hother h
  obtain ⟨taken, htaken, hmake⟩ := bare_made_eq_ok_iff.1 h
  exact bare_made_eq_ok_iff.2 ⟨taken, hpart.stable hother htaken, hmake⟩

theorem isSteady_readNumber (first : Char) : IsSteady (readNumber first) :=
  isSteady_made isLocal_number fun taken => numberToken (first :: taken)

theorem readFraction_eq_made :
    readFraction = made (run Char.isDigit) fun taken => numberToken ('0' :: '.' :: taken) := rfl

theorem isSteady_readFraction : IsSteady readFraction := by
  rw [readFraction_eq_made]
  exact isSteady_made isLocal_digits _

theorem isLocal_nameChars : IsLocal (run isNameChar) :=
  isLocal_run not_isNameChar_of_isBlank

/-- The last case of reading a string is that of a character which is no backslash. The cases before
it are those of a backslash at the end and of one in front of a character. -/
theorem ne_backslash {c : Char} {text : List Char} (hlone : c = '\\' → text = [] → False)
    (hpair : ∀ d more, c = '\\' → text = d :: more → False) : c ≠ '\\' := by
  intro hc
  rcases text with _ | ⟨d, more⟩
  · exact hlone hc rfl
  · exact hpair d more hc rfl

/-- A string ends with its quote, whatever stands behind it. It is the one token that may hold
blanks, and it needs none to end. -/
theorem readString?_append {quote : Char} {text chars : List Char} {left : Remainder text}
    (h : readString? quote text = some (chars, left)) :
    ∃ front, text = front ++ left.val ∧
      ∀ other, bare? (readString? quote (front ++ other)) = some (chars, other) := by
  fun_induction readString? quote text generalizing chars with
  | case1 => exact absurd h (by simp)
  | case2 => exact absurd h (by simp)
  | case3 c text ih =>
    obtain ⟨⟨more, left⟩, hread, hsame⟩ := Option.map_eq_some_iff.1 h
    obtain ⟨rfl, rfl⟩ := Prod.mk.inj hsame
    obtain ⟨front, htext, hother⟩ := ih hread
    refine ⟨'\\' :: c :: front, congrArg ('\\' :: c :: ·) htext, fun other => ?_⟩
    rw [List.cons_append, List.cons_append, bare?_readString?_backslash, hother]
    rfl
  | case4 text hlone hpair =>
    obtain ⟨rfl, rfl⟩ := Prod.mk.inj (Option.some.inj h)
    exact ⟨[quote], rfl, bare?_readString?_quote (ne_backslash hlone hpair)⟩
  | case5 c text hlone hpair hquote ih =>
    obtain ⟨⟨more, left⟩, hread, hsame⟩ := Option.map_eq_some_iff.1 h
    obtain ⟨rfl, rfl⟩ := Prod.mk.inj hsame
    obtain ⟨front, htext, hother⟩ := ih hread
    refine ⟨c :: front, congrArg (c :: ·) htext, fun other => ?_⟩
    rw [List.cons_append, bare?_readString?_plain (ne_backslash hlone hpair) hquote, hother]
    rfl

/-- The same with the length of what is left forgotten, as the readers of tokens are compared. -/
theorem bare?_readString?_append {quote : Char} {front rest chars : List Char}
    (h : bare? (readString? quote (front ++ rest)) = some (chars, rest)) (other : List Char) :
    bare? (readString? quote (front ++ other)) = some (chars, other) := by
  obtain ⟨⟨chars', left⟩, hread, hsame⟩ := Option.map_eq_some_iff.1 h
  obtain ⟨rfl, hleft⟩ := Prod.mk.inj hsame
  obtain ⟨front', htext, hother⟩ := readString?_append hread
  have hleft : left.val = rest := hleft
  rw [hleft, List.append_cancel_right_eq] at htext
  rw [htext]
  exact hother other

/-- Where no second character of a pair follows, a symbol is a character by itself. -/
theorem bare?_readSymbol?_of_ends {c : Char} {text : List Char}
    (h : Ends (fun d => (pairSymbol? c d).isSome) text) :
    bare? (readSymbol? c text) = (plainSymbol? c).map fun s => (s, text) := by
  rcases text with _ | ⟨d, text⟩
  · rw [readSymbol?, bare?, Option.map_map]
    rfl
  · have hnone : pairSymbol? c d = none := by simpa using h d rfl
    rw [readSymbol?, hnone, bare?, Option.map_map]
    rfl

/-- Two characters that make a pair are read as one symbol, whatever follows them. -/
theorem bare?_readSymbol?_pair {c d : Char} {s : Symbol} (h : pairSymbol? c d = some s)
    (text : List Char) : bare? (readSymbol? c (d :: text)) = some (s, text) := by
  rw [readSymbol?, h]
  rfl

/-- A symbol is read alike in front of new blanks. A pair is there as a whole, and a single
character finds no second one in a blank. -/
theorem bare?_readSymbol?_append {c : Char} {front rest other : List Char} {s : Symbol}
    (hother : SameToBlank rest other)
    (h : bare? (readSymbol? c (front ++ rest)) = some (s, rest)) :
    bare? (readSymbol? c (front ++ other)) = some (s, other) := by
  by_cases hends : Ends (fun d => (pairSymbol? c d).isSome) (front ++ rest)
  · -- a blank makes no pair either
    rw [bare?_readSymbol?_of_ends hends] at h
    obtain ⟨s', hplain, hsame⟩ := Option.map_eq_some_iff.1 h
    obtain ⟨rfl, hrest⟩ := Prod.mk.inj hsame
    obtain rfl : front = [] := List.append_left_eq_self.1 hrest
    have hends' := hother.ends (fun d hd => by rw [pairSymbol?_of_isBlank c hd]; rfl) hends
    rw [List.nil_append, bare?_readSymbol?_of_ends hends', hplain]
    rfl
  · -- a pair is there, so its second character is in front of the rest
    obtain ⟨d, behind, htext, hd⟩ := exists_of_not_ends hends
    obtain ⟨s', hpair⟩ := Option.isSome_iff_exists.1 hd
    rw [htext, bare?_readSymbol?_pair hpair] at h
    obtain ⟨rfl, rfl⟩ := Prod.mk.inj (Option.some.inj h)
    obtain ⟨front, rfl, hfront⟩ := exists_front_of_cons htext.symm List.suffix_rfl
    obtain rfl : front = [] := List.self_eq_append_left.1 hfront
    exact bare?_readSymbol?_pair hpair other

theorem ends_isDigit_iff {text : List Char} :
    Ends Char.isDigit text ↔ startsWithDigit text = false := by
  rcases text with _ | ⟨c, text⟩
  · exact ⟨fun _ => rfl, fun _ => .nil _⟩
  · exact ⟨fun h => h c rfl, fun h => .cons h _⟩

/-- A point begins a number when a digit stands behind it, and is a symbol otherwise. -/
theorem nextToken_point (text : List Char) :
    nextToken '.' text =
      if startsWithDigit text then readFraction text else .ok (.symbol .dot, allOf text) := by
  have hdot : readSymbol? '.' text = some (.dot, allOf text) := by
    rcases text with _ | ⟨c, text⟩
    · rfl
    · rfl
  rw [nextToken, if_neg (by decide), hdot]
  by_cases hdigit : startsWithDigit text = true
  · rw [if_pos ⟨rfl, hdigit⟩, if_pos hdigit]
  · rw [if_neg (not_and_of_not_right _ hdigit), if_neg (by decide), if_neg (by decide),
      if_neg hdigit]

/-- A point takes digits behind it if there are any, and nothing else. A blank is no digit, so new
blanks do not change which of the two it is. -/
theorem isSteady_point : IsSteady (nextToken '.') := by
  intro front rest other token hother h
  rw [nextToken_point] at h ⊢
  by_cases hends : Ends Char.isDigit (front ++ rest)
  · -- the point is a symbol, and no digit comes to stand behind it
    rw [if_neg (by simp [ends_isDigit_iff.1 hends])] at h
    obtain ⟨rfl, hrest⟩ := Prod.mk.inj (Except.ok.inj h)
    obtain rfl : front = [] := List.append_left_eq_self.1 hrest
    have hends' := hother.ends Text.not_isDigit_of_isBlank hends
    rw [List.nil_append, if_neg (by simp [ends_isDigit_iff.1 hends'])]
    rfl
  · -- the point begins a number, and its first digit is in front of the rest
    obtain ⟨d, behind, htext, hd⟩ := exists_of_not_ends hends
    rw [if_pos (by rw [htext]; exact hd)] at h
    obtain ⟨taken, ⟨-, hrest⟩, -⟩ := bare_made_eq_ok_iff.1 (readFraction_eq_made ▸ h)
    have hdrop : (front ++ rest).dropWhile Char.isDigit = rest := hrest
    rw [htext, List.dropWhile_cons_of_pos hd] at hdrop
    have hsuffix : rest <:+ behind := hdrop ▸ List.dropWhile_suffix _
    obtain ⟨front, rfl, rfl⟩ := exists_front_of_cons htext.symm hsuffix
    have hstarts : startsWithDigit (d :: front ++ other) = true := hd
    rw [if_pos hstarts]
    exact isSteady_readFraction hother h

/-- What is found, as a token. -/
def found {α : Type} {text : List Char} (make : α → Token) (fault : EvalError) :
    Option (α × Remainder text) → Except EvalError (Token × Remainder text)
  | some (x, rest) => .ok (make x, rest)
  | none => .error fault

/-- A token that is looked for is read when something is found to make it of. -/
theorem bare_found_eq_ok_iff {α : Type} {text rest : List Char} {make : α → Token}
    {fault : EvalError} {token : Token} {found? : Option (α × Remainder text)} :
    bare (found make fault found?) = .ok (token, rest) ↔
      ∃ x, bare? found? = some (x, rest) ∧ make x = token := by
  rcases found? with _ | ⟨x, left⟩
  · simp [found, bare, bare?, Except.map]
  · simp [found, bare, bare?, Except.map, and_comm]

/-- Unless it is a point, the first character alone settles what kind of token is read. Only behind
a point it matters whether a digit comes next. -/
theorem nextToken_of_ne_point {c : Char} (hpoint : c ≠ '.') (text : List Char) :
    nextToken c text =
      if c.isDigit then readNumber c text
      else if c = '"' ∨ c = '\'' then
        found (fun chars => .string (String.ofList chars)) .unterminatedString (readString? c text)
      else if isNameStart c then
        made (run isNameChar) (fun taken => .ok (.identifier (String.ofList (c :: taken)))) text
      else found .symbol (.unexpectedChar c) (readSymbol? c text) := by
  rw [nextToken, if_neg (not_and_of_not_left _ hpoint)]
  generalize readString? c text = string?
  generalize readSymbol? c text = symbol?
  -- what is read for a string and for a symbol is not looked into, so both may be anything
  rcases string? with _ | string
  · rcases symbol? with _ | symbol
    · rfl
    · rfl
  · rcases symbol? with _ | symbol
    · rfl
    · rfl

/-- **Reading one token is steady**, whatever character it begins with: each kind of token ends in
front of a new blank if it ended there before. -/
theorem isSteady_nextToken (c : Char) : IsSteady (nextToken c) := by
  intro front rest other token hother h
  by_cases hpoint : c = '.'
  · subst hpoint
    exact isSteady_point hother h
  · rw [nextToken_of_ne_point hpoint] at h ⊢
    split_ifs at h ⊢ with hdigit hquote hname
    · exact isSteady_readNumber c hother h
    · obtain ⟨chars, hread, hmake⟩ := bare_found_eq_ok_iff.1 h
      exact bare_found_eq_ok_iff.2 ⟨chars, bare?_readString?_append hread other, hmake⟩
    · exact isSteady_made isLocal_nameChars _ hother h
    · obtain ⟨s, hread, hmake⟩ := bare_found_eq_ok_iff.1 h
      exact bare_found_eq_ok_iff.2 ⟨s, bare?_readSymbol?_append hother hread, hmake⟩

/-- What is left behind a token is an end of the text, so the places that reading comes to follow
one another. -/
theorem suffix_of_bare {c : Char} {text rest : List Char} {token : Token}
    (h : bare (nextToken c text) = .ok (token, rest)) : rest <:+ text := by
  obtain ⟨⟨token', left⟩, hnext, hsame⟩ := map_eq_ok_iff.1 h
  obtain ⟨rfl, rfl⟩ := Prod.mk.inj hsame
  exact (nextToken_of_isUnbroken hnext).1

/-! ## Places between tokens -/

/-- Reading a text token by token comes to the front of its rest, with these tokens read. -/
inductive Reaches : List Char → List Token → List Char → Prop where
  | here (text : List Char) : Reaches text [] text
  | blank {c : Char} {text rest : List Char} {ts : List Token} (hblank : Text.isBlank c = true)
      (h : Reaches text ts rest) : Reaches (c :: text) ts rest
  | token {c : Char} {text behind rest : List Char} {token : Token} {ts : List Token}
      (hblank : Text.isBlank c = false) (hnext : bare (nextToken c text) = .ok (token, behind))
      (h : Reaches behind ts rest) : Reaches (c :: text) (token :: ts) rest

namespace Reaches

/-- A place that reading reaches is an end of the text. -/
theorem suffix {text rest : List Char} {ts : List Token} (h : Reaches text ts rest) :
    rest <:+ text := by
  induction h with
  | here => exact List.suffix_rfl
  | @blank c text rest ts hblank h ih => exact ih.trans (List.suffix_cons c text)
  | @token c text behind rest token ts hblank hnext h ih =>
    exact ih.trans ((suffix_of_bare hnext).trans (List.suffix_cons c text))

/-- The tokens of a text are those that have been read and those of the rest. -/
theorem tokens_eq {text rest : List Char} {ts : List Token} (h : Reaches text ts rest) :
    tokens text = (tokens rest).map (ts ++ ·) := by
  induction h with
  | here text => rcases tokens text with fault | more <;> rfl
  | @blank c text rest ts hblank h ih => rw [tokens_cons_of_blank text hblank, ih]
  | @token c text behind rest token ts hblank hnext h ih =>
    rw [tokens_cons_of_bare hblank hnext, ih]
    rcases tokens rest with fault | more <;> rfl

/-- Blanks in the rest do not change what is read in front of it. Each token was read from a text
that agrees with the new one up to a blank, and a token ends there at the latest. -/
theorem of_sameToBlank {front rest other : List Char} {ts : List Token}
    (h : Reaches (front ++ rest) ts rest) (hother : SameToBlank rest other) :
    Reaches (front ++ other) ts other := by
  generalize htext : front ++ rest = text at h
  induction h generalizing front with
  | here text =>
    obtain rfl : front = [] := List.append_left_eq_self.1 htext
    exact .here other
  | @blank c text rest ts hblank h ih =>
    obtain ⟨front, rfl, rfl⟩ := exists_front_of_cons htext.symm h.suffix
    exact .blank hblank (ih hother rfl)
  | @token c text behind rest token ts hblank hnext h ih =>
    -- behind the token the text stays the same up to the rest, and from there up to a blank
    obtain ⟨between, rfl⟩ := h.suffix
    obtain ⟨before, rfl⟩ := suffix_of_bare hnext
    have hfront : front = c :: (before ++ between) := by
      rw [← List.append_assoc, ← List.cons_append, List.append_cancel_right_eq] at htext
      exact htext
    rw [hfront, List.cons_append, List.append_assoc]
    exact .token hblank (isSteady_nextToken c (hother.append between) hnext) (ih hother rfl)

end Reaches

/-- Reading comes to the end exactly when the text has tokens, and it has read them then. So places
in a text can be spoken of by the tokens before them. -/
theorem reaches_end_iff {text : List Char} {ts : List Token} :
    Reaches text ts [] ↔ tokens text = .ok ts := by
  constructor
  · intro h
    rw [h.tokens_eq, tokens_nil, Except.map, List.append_nil]
  · intro h
    -- the lexer skips blanks and reads tokens, which are the two ways in which reading goes on
    fun_induction tokens text generalizing ts with
    | case1 =>
      obtain rfl := Except.ok.inj h
      exact .here []
    | case2 c text hblank ih => exact .blank hblank (ih h)
    | case3 c text hblank fault hnext => exact absurd h (by simp)
    | case4 c text hblank token rest hnext fault hrest ih => exact absurd h (by simp)
    | case5 c text hblank token rest hnext more hrest ih =>
      obtain rfl := Except.ok.inj h
      exact .token (Bool.eq_false_of_not_eq_true hblank) (by rw [hnext]; rfl) (ih hrest)

/-- Between the tokens read first and those read later there is a place, and reading passes through
it. -/
theorem Reaches.exists_between {text rest : List Char} {front back : List Token}
    (h : Reaches text (front ++ back) rest) :
    ∃ middle, Reaches text front middle ∧ Reaches middle back rest := by
  generalize hts : front ++ back = ts at h
  induction h generalizing front with
  | here text =>
    obtain ⟨rfl, rfl⟩ := List.append_eq_nil_iff.1 hts
    exact ⟨text, .here text, .here text⟩
  | @blank c text rest ts hblank h ih =>
    obtain ⟨middle, hfront, hback⟩ := ih hts
    exact ⟨middle, .blank hblank hfront, hback⟩
  | @token c text behind rest token ts hblank hnext h ih =>
    rcases front with _ | ⟨first, front⟩
    · obtain rfl : back = token :: ts := hts
      exact ⟨c :: text, .here _, .token hblank hnext h⟩
    · rw [List.cons_append, List.cons.injEq] at hts
      obtain ⟨rfl, hmore⟩ := hts
      obtain ⟨middle, hfront, hback⟩ := ih hmore
      exact ⟨middle, .token hblank hnext hfront, hback⟩

/-- There is a place between any two tokens of a text, and the tokens behind it are those of its
rest. -/
theorem exists_reaches_of_tokens {text : List Char} {front back : List Token}
    (h : tokens text = .ok (front ++ back)) :
    ∃ before rest, text = before ++ rest ∧ Reaches text front rest ∧ tokens rest = .ok back := by
  obtain ⟨rest, hfront, hback⟩ := (reaches_end_iff.2 h).exists_between
  obtain ⟨before, hbefore⟩ := hfront.suffix
  exact ⟨before, rest, hbefore.symm, hfront, reaches_end_iff.1 hback⟩

/-- Blanks at the front of a text are passed over. -/
theorem tokens_append_of_blanks {blanks : List Char} (h : ∀ c ∈ blanks, Text.isBlank c = true)
    (rest : List Char) : tokens (blanks ++ rest) = tokens rest := by
  induction blanks with
  | nil => rfl
  | cons c blanks ih =>
    rw [List.cons_append, tokens_cons_of_blank _ (h c List.mem_cons_self)]
    exact ih fun d hd => h d (List.mem_cons_of_mem _ hd)

end Lexer

/-! ## Spacing -/

/-- One edit of the blanks between tokens. -/
inductive SpacingEdit : List Char → List Char → Prop where
  /-- Blanks at the start, at the end or between two tokens. -/
  | insert {front rest blanks : List Char} {ts : List Token}
      (hplace : Lexer.Reaches (front ++ rest) ts rest)
      (hblanks : ∀ c ∈ blanks, Text.isBlank c = true) :
      SpacingEdit (front ++ rest) (front ++ (blanks ++ rest))
  /-- Some blanks of a gap taken out, and not all. -/
  | shorten {front gap kept rest : List Char} {ts : List Token}
      (hplace : Lexer.Reaches (front ++ (gap ++ rest)) ts (gap ++ rest))
      (hgap : ∀ c ∈ gap, Text.isBlank c = true) (hkept : kept.Sublist gap) (hne : kept ≠ []) :
      SpacingEdit (front ++ (gap ++ rest)) (front ++ (kept ++ rest))

namespace Lexer

/-- Other blanks in front of a place are passed over like those that stand there. -/
theorem tokens_of_place {front gap other rest : List Char} {ts : List Token}
    (hplace : Reaches (front ++ (gap ++ rest)) ts (gap ++ rest))
    (hgap : ∀ c ∈ gap, Text.isBlank c = true) (hother : ∀ c ∈ other, Text.isBlank c = true)
    (hne : other ≠ []) : tokens (front ++ (other ++ rest)) = tokens (front ++ (gap ++ rest)) := by
  have hreaches := hplace.of_sameToBlank (.of_blanks hne hother (gap ++ rest) rest)
  rw [hreaches.tokens_eq, hplace.tokens_eq, tokens_append_of_blanks hother,
    tokens_append_of_blanks hgap]

/-- One edit of the spacing leaves the tokens as they are. -/
theorem tokens_of_spacingEdit {text other : List Char} (h : SpacingEdit text other) :
    tokens other = tokens text := by
  cases h with
  | @insert front rest blanks ts hplace hblanks =>
    by_cases hne : blanks = []
    · rw [hne, List.nil_append]
    · have hnone : ∀ c ∈ ([] : List Char), Text.isBlank c = true := by simp
      exact tokens_of_place hplace hnone hblanks hne
  | @shorten front gap kept rest ts hplace hgap hkept hne =>
    exact tokens_of_place hplace hgap (fun c hc => hgap c (hkept.subset hc)) hne

/-- So do edits one after the other. Each is made in the text that the one before it has left, where
the places between tokens may have moved but are the same in number. -/
theorem tokens_of_edits {text other : List Char}
    (h : Relation.ReflTransGen SpacingEdit text other) : tokens other = tokens text := by
  induction h with
  | refl => rfl
  | tail _ hedit ih => exact (tokens_of_spacingEdit hedit).trans ih

end Lexer

/-- **Blanks between tokens make no difference.** Edits of the spacing leave the tokens of a text as
they are, and so the expression that it is and its value under any bindings. -/
theorem tokens_of_respaced {text other : String}
    (h : Relation.ReflTransGen SpacingEdit text.toList other.toList) :
    Lexer.tokens other.toList = Lexer.tokens text.toList ∧
      Parser.parse other = Parser.parse text ∧
      ∀ vars, evaluateText vars other = evaluateText vars text := by
  have htokens := Lexer.tokens_of_edits h
  have hparse : Parser.parse other = Parser.parse text := by
    rw [Parser.parse, Parser.parse, htokens]
  refine ⟨htokens, hparse, fun vars => ?_⟩
  rw [evaluateText, evaluateText, hparse]

/-- One blank fewer in front of `<`, and a blank between it and a number that starts with its
point. -/
theorem tokens_of_respaced_comparison :
    Relation.ReflTransGen SpacingEdit "p.x  <.5".toList "p.x <\u2003.5".toList ∧
      Lexer.tokens "p.x <\u2003.5".toList = Lexer.tokens "p.x  <.5".toList ∧
      Parser.parse "p.x <\u2003.5" = Parser.parse "p.x  <.5" := by
  have hgap : Lexer.Reaches "p.x  <.5".toList
      [.identifier "p", .symbol .dot, .identifier "x"] "  <.5".toList :=
    .token (by decide) rfl (.token (by decide) rfl (.token (by decide) rfl (.here _)))
  have hblanks : ∀ c ∈ [' ', ' '], Text.isBlank c = true :=
    List.forall_mem_cons.2 ⟨rfl, List.forall_mem_singleton.2 rfl⟩
  have hfewer : SpacingEdit ("p.x".toList ++ ([' ', ' '] ++ "<.5".toList))
      ("p.x".toList ++ ([' '] ++ "<.5".toList)) :=
    .shorten hgap hblanks (by decide) (by decide)
  have hpoint : Lexer.Reaches "p.x <.5".toList
      [.identifier "p", .symbol .dot, .identifier "x", .symbol .less] ".5".toList :=
    .token (by decide) rfl (.token (by decide) rfl (.token (by decide) rfl
      (.blank (by decide) (.token (by decide) rfl (.here _)))))
  have hmore : SpacingEdit ("p.x <".toList ++ ".5".toList)
      ("p.x <".toList ++ (['\u2003'] ++ ".5".toList)) :=
    .insert hpoint (List.forall_mem_singleton.2 rfl)
  have hedits : Relation.ReflTransGen SpacingEdit "p.x  <.5".toList "p.x <\u2003.5".toList :=
    .tail (.single hfewer) hmore
  obtain ⟨htokens, hparse, -⟩ := tokens_of_respaced hedits
  exact ⟨hedits, htokens, hparse⟩

end CanvasScript
