/-
What it takes for an object literal to be read, function by function.

Each statement says exactly when one reading function succeeds and with what, in terms of the
text and not of cuts: an entry is a key, a colon and a value with blanks around both; entries are
read one by one; the body is what stands between the first opening and the last closing brace.
Proofs about what is read, and about what can be written, need no other fact about these
functions.

The first section has the same for cutting a text at a character, at the first one or at the last
one. From there on no proof looks at how a list of characters is cut.
-/
import CanvasScript.Literal.Reader
import CanvasScript.Proofs.TextPieces
import Mathlib.Data.List.Forall2

set_option autoImplicit false

namespace CanvasScript

/-- A result that is mapped succeeds if the result does. -/
theorem map_eq_ok_iff {ε α β : Type} {f : α → β} {result : Except ε α} {b : β} :
    result.map f = .ok b ↔ ∃ a, result = .ok a ∧ f a = b := by
  cases result with
  | error fault => simp [Except.map]
  | ok a => simp [Except.map]

/-- It fails as the result does. -/
theorem map_eq_error_iff {ε α β : Type} {f : α → β} {result : Except ε α} {fault : ε} :
    result.map f = .error fault ↔ result = .error fault := by
  cases result with
  | error other => simp [Except.map]
  | ok a => simp [Except.map]

/-- Two steps succeed together when the first one does and then the second one, with what the first
one gives. -/
theorem bind_eq_ok_iff {ε α β : Type} {f : α → Except ε β} {result : Except ε α} {b : β} :
    result.bind f = .ok b ↔ ∃ a, result = .ok a ∧ f a = .ok b := by
  cases result with
  | error fault => simp [Except.bind]
  | ok a => simp [Except.bind]

/-- They fail as the first one does, or as the second one does behind it. -/
theorem bind_eq_error_iff {ε α β : Type} {f : α → Except ε β} {result : Except ε α} {fault : ε} :
    result.bind f = .error fault ↔
      result = .error fault ∨ ∃ a, result = .ok a ∧ f a = .error fault := by
  cases result with
  | error other => simp [Except.bind]
  | ok a => simp [Except.bind]

/-- What a key of an object is like. -/
structure IsKey (key : String) : Prop where
  ne_empty : key ≠ ""
  trimmed : Text.trimmed key = key
  no_comma : ',' ∉ key.toList
  no_colon : ':' ∉ key.toList

/-! ## Cuts at one character -/

namespace Text

/-- A text is cut at the first of a character: there is none of it in front. -/
theorem cutFirst?_beq_eq_some_iff {c : Char} {text before after : List Char} :
    cutFirst? (· == c) text = some (before, after) ↔ text = before ++ c :: after ∧ c ∉ before := by
  constructor
  · intro h
    obtain ⟨⟨d, hd, htext⟩, hbefore⟩ := cutFirst?_eq_some h
    obtain rfl := eq_of_beq hd
    refine ⟨htext, ?_⟩
    intro hmem
    simpa using hbefore d hmem
  · rintro ⟨rfl, hbefore⟩
    refine cutFirst?_append ?_ (beq_self_eq_true c)
    intro x hx
    rw [beq_eq_false_iff_ne]
    rintro rfl
    exact hbefore hx

/-- A text is cut at the last of a character: there is none of it behind. It is the first one from
the other end. -/
theorem cutLast?_beq_eq_some_iff {c : Char} {text before after : List Char} :
    cutLast? (· == c) text = some (before, after) ↔ text = before ++ c :: after ∧ c ∉ after := by
  have hreverse : text.reverse = after.reverse ++ c :: before.reverse ↔
      text = before ++ c :: after := by
    rw [← List.reverse_inj]
    simp
  rw [cutLast?, Option.map_eq_some_iff]
  constructor
  · rintro ⟨⟨back, front⟩, hcut, hsame⟩
    obtain ⟨htext, hback⟩ := cutFirst?_beq_eq_some_iff.1 hcut
    obtain ⟨rfl, rfl⟩ := Prod.mk.inj hsame
    rw [← hreverse, List.reverse_reverse, List.reverse_reverse]
    exact ⟨htext, by simpa using hback⟩
  · rintro ⟨htext, hafter⟩
    refine ⟨(after.reverse, before.reverse), ?_, by simp⟩
    rw [cutFirst?_beq_eq_some_iff]
    exact ⟨hreverse.2 htext, by simpa using hafter⟩

end Text

namespace Literal

variable {vars : Bindings} {line : String}

/-! ## Entries -/

/-- An entry is a key, the first colon and a value, with blanks around key and value. The key may
hold anything but a colon, and the value anything at all that can be read. -/
theorem readEntry_eq_ok_iff {pair : List Char} {entry : String × Scalar} :
    readEntry vars line pair = .ok entry ↔
      ∃ before after, pair = before ++ ':' :: after ∧ ':' ∉ before ∧
        Text.trim before ≠ [] ∧ String.ofList (Text.trim before) = entry.1 ∧
        Text.trim after ≠ [] ∧ entryValue? vars (Text.trim after) = some entry.2 := by
  obtain ⟨key, s⟩ := entry
  rw [readEntry]
  constructor
  · intro h
    split at h
    · exact absurd h (by simp)
    · rename_i before after hcut
      obtain ⟨htext, hcolon⟩ := Text.cutFirst?_beq_eq_some_iff.1 hcut
      dsimp only at h
      split at h
      · exact absurd h (by simp)
      · rename_i hfilled
        split at h
        · rename_i t ht
          obtain ⟨rfl, rfl⟩ := Prod.mk.inj (Except.ok.inj h)
          simp only [Bool.or_eq_true, List.isEmpty_iff, not_or] at hfilled
          exact ⟨before, after, htext, hcolon, hfilled.1, rfl, hfilled.2, ht⟩
        · exact absurd h (by simp)
  · rintro ⟨before, after, htext, hcolon, hkey, rfl, hvalue, hread⟩
    rw [Text.cutFirst?_beq_eq_some_iff.2 ⟨htext, hcolon⟩]
    simp [hkey, hvalue, hread]

/-- Entries are read one by one. -/
theorem readEntries_eq_ok_iff {pairs : List (List Char)} {entries : List (String × Scalar)} :
    readEntries vars line pairs = .ok entries ↔
      List.Forall₂ (fun pair entry => readEntry vars line pair = .ok entry) pairs entries := by
  induction pairs generalizing entries with
  | nil =>
    rw [readEntries, List.forall₂_nil_left_iff, Except.ok.injEq]
    exact eq_comm
  | cons pair rest ih =>
    rw [readEntries, List.forall₂_cons_left_iff]
    constructor
    · intro h
      split at h
      · exact absurd h (by simp)
      · -- the first entry has been read, so the result is that of the others with it in front
        rename_i first hfirst
        obtain ⟨later, hlater, rfl⟩ := map_eq_ok_iff.1 h
        exact ⟨first, later, hfirst, ih.1 hlater, rfl⟩
    · rintro ⟨first, later, hfirst, hlater, rfl⟩
      rw [hfirst]
      exact map_eq_ok_iff.2 ⟨later, ih.2 hlater, rfl⟩

/-! ## Objects -/

/-- The body of an object is what stands between its first opening and its last closing brace. -/
theorem body?_eq_some_iff {text body : List Char} :
    body? text = some body ↔
      ∃ before after, text = before ++ '\x7b' :: (body ++ '\x7d' :: after) ∧
        '\x7b' ∉ before ∧ '\x7d' ∉ after := by
  simp only [body?, Option.bind_eq_bind, Option.bind_eq_some_iff, Option.pure_def, Prod.exists,
    Text.cutFirst?_beq_eq_some_iff, Text.cutLast?_beq_eq_some_iff, Option.some.injEq]
  constructor
  · rintro ⟨before, inside, ⟨rfl, hbefore⟩, body, after, ⟨rfl, hafter⟩, rfl⟩
    exact ⟨before, after, rfl, hbefore, hafter⟩
  · rintro ⟨before, after, rfl, hbefore, hafter⟩
    exact ⟨before, _, ⟨rfl, hbefore⟩, body, after, ⟨rfl, hafter⟩, rfl⟩

/-- An object is read when every piece of its body is an entry; it has these entries, put in one
after the other. -/
theorem readObject_eq_ok_iff {text : List Char} {o : FlatObject} :
    readObject vars line text = .ok o ↔
      ∃ body entries, body? text = some body ∧
        List.Forall₂ (fun pair entry => readEntry vars line pair = .ok entry) (pieces body)
          entries ∧ Keyed.ofList entries = o := by
  rw [readObject]
  rcases hbody : body? text with _ | body
  · simp
  · simp only [map_eq_ok_iff, readEntries_eq_ok_iff, Option.some.injEq]
    constructor
    · rintro ⟨entries, hentries, hsame⟩
      exact ⟨body, entries, rfl, hentries, hsame⟩
    · rintro ⟨body, entries, rfl, hentries, hsame⟩
      exact ⟨entries, hentries, hsame⟩

/-- A text that begins as an object does is read as one, or not at all. -/
theorem readValue_eq_object_iff {text : List Char} (hobject : startsObject text = true)
    {v : Value} :
    readValue vars line text = .ok v ↔
      ∃ o, readObject vars line text = .ok o ∧ Value.object o = v := by
  rw [readValue, if_pos hobject, map_eq_ok_iff]

/-- A constant is read as what it says, whatever variables there are. -/
theorem readValue_of_constant {text : List Char} {s : Scalar} (hobject : startsObject text = false)
    (h : constant? text = some s) : readValue vars line text = .ok (.scalar s) := by
  rw [readValue, hobject, if_neg (by decide), atom?, h]

end Literal

end CanvasScript
