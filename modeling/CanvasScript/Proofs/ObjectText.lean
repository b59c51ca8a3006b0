/-
Object literals as they can be written, and the objects that they are read as.

An object is written between braces, with commas between its pieces. A piece is blank, or it is an
entry: a key, a colon and a value, with blanks around key and value. Keys and strings may hold
braces, quotes and blanks, and strings colons too, because the text is never cut at these: the
first brace and the last one are those of the object itself, a colon in a key is excluded, and so
the first colon of an entry is its own.

The types below are the ways of writing. That a key is one, that blanks are blank and that a
string holds no comma are parts of what is written, so nothing has to be assumed about a text
that is made from them: every list of pieces is read, in any bindings, as the object that its
entries make when they are put in one after the other.
-/
import CanvasScript.Proofs.LiteralReading
import CanvasScript.Proofs.NumeralGrammar

set_option autoImplicit false

namespace CanvasScript

/-! ## Ways of writing -/

/-- Any number of blanks of any kind. -/
structure Blanks where
  chars : List Char
  blank : ∀ c ∈ chars, Text.isBlank c = true

inductive Quote where
  | single
  | double
  deriving DecidableEq, Repr

def Quote.char : Quote → Char
  | single => '\''
  | double => '"'

/-- A scalar as it is written. -/
inductive WrittenScalar where
  | number (literal : NumberLiteral)
  | boolean (b : Bool)
  /-- The content may hold the quote that it stands between. -/
  | string (quote : Quote) (content : List Char) (no_comma : ',' ∉ content)

namespace WrittenScalar

def chars : WrittenScalar → List Char
  | number literal => literal.chars
  | boolean b => (if b then "true" else "false").toList
  | string quote content _ => quote.char :: (content ++ [quote.char])

def scalar : WrittenScalar → Scalar
  | number literal => .number literal.numeral.toBinary64
  | boolean b => .boolean b
  | string _ content _ => .string (String.ofList content)

end WrittenScalar

/-- An entry as it is written. -/
structure WrittenEntry where
  beforeKey : Blanks
  key : String
  isKey : IsKey key
  afterKey : Blanks
  beforeValue : Blanks
  value : WrittenScalar
  afterValue : Blanks

namespace WrittenEntry

/-- An entry without the blanks around it. -/
def core (e : WrittenEntry) : List Char :=
  (e.key.toList ++ e.afterKey.chars) ++ ':' :: (e.beforeValue.chars ++ e.value.chars)

def chars (e : WrittenEntry) : List Char := e.beforeKey.chars ++ e.core ++ e.afterValue.chars

def entry (e : WrittenEntry) : String × Scalar := (e.key, e.value.scalar)

end WrittenEntry

/-- What stands between two commas of an object. -/
inductive ObjectPiece where
  | blank (blanks : Blanks)
  | entry (written : WrittenEntry)

namespace ObjectPiece

def chars : ObjectPiece → List Char
  | blank blanks => blanks.chars
  | entry written => written.chars

def written? : ObjectPiece → Option WrittenEntry
  | blank _ => none
  | entry written => some written

end ObjectPiece

/-- An object as it is written. -/
def objectText (written : List ObjectPiece) : List Char :=
  '\x7b' :: ([','].intercalate (written.map ObjectPiece.chars) ++ ['\x7d'])

/-- The entries of an object, in the order in which they are written. -/
def entriesOf (written : List ObjectPiece) : List (String × Scalar) :=
  (written.filterMap ObjectPiece.written?).map WrittenEntry.entry

/-! ## Entries put in one after the other -/

namespace Keyed

variable {α : Type}

/-- Keys stay where they came in first. Entries with a key that is there already change a value and
no place. -/
theorem keys_ofList (entries : List (String × α)) :
    (ofList entries).keys = (entries.map Prod.fst).eraseDups := by
  -- from the end, where the last insertion is made into the table of all the others
  induction entries using List.reverseRecOn with
  | nil => rfl
  | append_singleton entries entry ih =>
    rw [ofList, insertAll_concat, ← ofList, keys_insert, ih, List.map_append, List.map_singleton,
      List.eraseDups_append]
    simp only [List.mem_eraseDups]
    by_cases hmem : entry.1 ∈ entries.map Prod.fst
    · rw [if_pos hmem]
      simp [List.removeAll, hmem]
    · rw [if_neg hmem]
      simp [List.removeAll, hmem, List.eraseDups_cons]

/-- The last entry with a key is the one that is found. -/
theorem get?_ofList (entries : List (String × α)) (key : String) :
    (ofList entries).get? key = entries.reverse.lookup key := by
  induction entries using List.reverseRecOn with
  | nil => rfl
  | append_singleton entries entry ih =>
    obtain ⟨last, value⟩ := entry
    rw [ofList, insertAll_concat, ← ofList, get?_insert, ih, List.reverse_append,
      List.reverse_singleton, List.singleton_append]
    by_cases hsame : key = last
    · rw [if_pos hsame, hsame, List.lookup_cons_self]
    · rw [if_neg hsame, Entries.lookup_cons_of_ne value _ hsame]

end Keyed

/-! ## Characters of what is written -/

/-- A character that is not blank is in no blanks. -/
theorem Blanks.not_mem (b : Blanks) {c : Char} (h : Text.isBlank c = false) : c ∉ b.chars := by
  intro hmem
  rw [b.blank c hmem] at h
  exact absurd h (by decide)

/-- A key has no blanks at its ends, so the blanks around it are told from it. -/
theorem IsKey.isBounded {key : String} (h : IsKey key) : Text.IsBounded key.toList := by
  refine Text.isBounded_iff.2 ⟨fun hnil => h.ne_empty (String.toList_eq_nil_iff.1 hnil), ?_⟩
  rw [← Text.toList_trimmed, h.trimmed]

/-- No character of a numeral is blank. -/
theorem isBlank_eq_false_of_isNumeralChar {c : Char} (h : NumberLiteral.isNumeralChar c = true) :
    Text.isBlank c = false := by
  simp only [NumberLiteral.isNumeralChar, Bool.or_eq_true, beq_iff_eq] at h
  rcases h with ((((hdigit | rfl) | rfl) | rfl) | rfl) | rfl
  · refine Text.isBlank_eq_false_of_isAlphanum ?_
    rw [Char.isAlphanum, hdigit, Bool.or_true]
  all_goals decide

/-- What is no character of numerals is in none of them. -/
theorem NumberLiteral.not_mem_chars (l : NumberLiteral) {c : Char}
    (h : isNumeralChar c = false) : c ∉ l.chars := by
  intro hmem
  rw [l.isNumeralChar_of_mem_chars c hmem] at h
  exact absurd h (by decide)

theorem Quote.isBlank_char (quote : Quote) : Text.isBlank quote.char = false := by
  cases quote <;> decide

/-- A text between quotes may have blanks at its ends, but the quotes stand outside of them. -/
theorem Quote.isBounded_quoted (quote : Quote) (content : List Char) :
    Text.IsBounded (quote.char :: (content ++ [quote.char])) := by
  refine ⟨quote.char, quote.char, rfl, ?_, quote.isBlank_char, quote.isBlank_char⟩
  rw [← List.cons_append, List.getLast?_concat]

namespace WrittenScalar

/-- A scalar is written without blanks at its ends, whatever it is. -/
theorem isBounded_chars (s : WrittenScalar) : Text.IsBounded s.chars := by
  cases s with
  | number literal =>
    exact Text.isBounded_of_not_blank literal.chars_ne_nil fun c hc =>
      isBlank_eq_false_of_isNumeralChar (literal.isNumeralChar_of_mem_chars c hc)
  | boolean b =>
    cases b
    · exact ⟨'f', 'e', rfl, rfl, rfl, rfl⟩
    · exact ⟨'t', 'e', rfl, rfl, rfl, rfl⟩
  | string quote content _ => exact quote.isBounded_quoted content

/-- And without commas. That is so for strings because they are written so, and for all others by
what they are. -/
theorem comma_not_mem_chars (s : WrittenScalar) : ',' ∉ s.chars := by
  cases s with
  | number literal => exact literal.not_mem_chars rfl
  | boolean b => cases b <;> decide
  | string quote content hcomma =>
    have hquote : ',' ≠ quote.char := by cases quote <;> decide
    simp [chars, hquote, hcomma]

end WrittenScalar

/-! ## Values are read as what they say -/

/-- A text between two equal quotes is a string, whatever quotes it holds. -/
theorem Literal.constant?_quoted (quote : Quote) (content : List Char) :
    constant? (quote.char :: (content ++ [quote.char])) =
      some (.string (String.ofList content)) := by
  have hunquote : unquote? (quote.char :: (content ++ [quote.char])) = some content := by
    rw [unquote?_eq_some_iff]
    cases quote
    · exact .inl rfl
    · exact .inr rfl
  rw [constant?, hunquote]

namespace WrittenScalar

/-- A scalar is read as what it says, before bindings are looked at. The reader asks for a quoted
string first, then for a boolean and then for a number, and the three are never mistaken for one
another. -/
theorem constant?_chars (s : WrittenScalar) : Literal.constant? s.chars = some s.scalar := by
  cases s with
  | number literal =>
    -- a numeral has no quote and no letter of the booleans
    have hquoted : Literal.unquote? literal.chars = none := by
      rcases hunquote : Literal.unquote? literal.chars with _ | content
      · rfl
      · rcases Literal.unquote?_eq_some_iff.1 hunquote with hsingle | hdouble
        · exact absurd (hsingle ▸ List.mem_cons_self) (literal.not_mem_chars (c := '\'') rfl)
        · exact absurd (hdouble ▸ List.mem_cons_self) (literal.not_mem_chars (c := '"') rfl)
    have hboolean : Literal.boolean? literal.chars = none := by
      have htrue : literal.chars ≠ "true".toList := fun h =>
        literal.not_mem_chars (c := 't') rfl (by rw [h]; decide)
      have hfalse : literal.chars ≠ "false".toList := fun h =>
        literal.not_mem_chars (c := 'f') rfl (by rw [h]; decide)
      rw [Literal.boolean?, if_neg htrue, if_neg hfalse]
    rw [chars, Literal.constant?, hquoted, hboolean, Numeral.read?_literal]
    rfl
  | boolean b => cases b <;> rfl
  | string quote content _ => exact Literal.constant?_quoted quote content

/-- No scalar begins with a brace, so none is taken for an object. -/
theorem not_starts_brace (s : WrittenScalar) (rest : List Char) : s.chars ≠ '\x7b' :: rest := by
  intro h
  cases s with
  | number literal =>
    have hchars : literal.chars = '\x7b' :: rest := h
    exact literal.not_mem_chars (c := '\x7b') rfl (hchars ▸ List.mem_cons_self)
  | boolean b =>
    cases b
    · exact absurd (List.cons.inj h).1 (by decide)
    · exact absurd (List.cons.inj h).1 (by decide)
  | string quote content _ =>
    cases quote
    · exact absurd (List.cons.inj h).1 (by decide)
    · exact absurd (List.cons.inj h).1 (by decide)

theorem startsObject_chars (s : WrittenScalar) : Literal.startsObject s.chars = false := by
  rw [Literal.startsObject.eq_def]
  split
  · rename_i rest hbrace
    exact absurd hbrace (s.not_starts_brace rest)
  · rfl

/-- A scalar is read as what it says, whatever variables there are. -/
theorem readValue_chars (s : WrittenScalar) (vars : Bindings) (line : String) :
    Literal.readValue vars line s.chars = .ok (.scalar s.scalar) :=
  Literal.readValue_of_constant s.startsObject_chars s.constant?_chars

/-- The same holds where it is the value of an entry. -/
theorem entryValue?_chars (s : WrittenScalar) (vars : Bindings) :
    Literal.entryValue? vars s.chars = some s.scalar := by
  rw [Literal.entryValue?.eq_def]
  split
  · rename_i rest hbrace
    exact absurd hbrace (s.not_starts_brace rest)
  · rw [Literal.atom?, constant?_chars]
    rfl

end WrittenScalar

/-! ## Entries are read as what they say -/

namespace WrittenEntry

variable (e : WrittenEntry)

/-- An entry begins with its key and ends with its value, neither of which has blanks there. -/
theorem isBounded_core : Text.IsBounded e.core := by
  have hparts : e.core =
      e.key.toList ++ (e.afterKey.chars ++ ':' :: e.beforeValue.chars) ++ e.value.chars := by
    simp [core]
  rw [hparts]
  exact e.isKey.isBounded.append _ e.value.isBounded_chars

/-- An entry has no comma in it, so it is not cut. -/
theorem comma_not_mem_chars : ',' ∉ e.chars := by
  have hblanks (b : Blanks) : ',' ∉ b.chars := b.not_mem (by decide)
  simp [chars, core, hblanks, e.isKey.no_comma, e.value.comma_not_mem_chars]

/-- An entry is read as its key and its value. The first colon in it is the one behind the key,
though a string may have more of them. -/
theorem readEntry_core (vars : Bindings) (line : String) :
    Literal.readEntry vars line e.core = .ok e.entry := by
  -- the colon of the entry is the first one, whatever the value holds
  have hcolon : ':' ∉ e.key.toList ++ e.afterKey.chars := by
    rw [List.mem_append, not_or]
    exact ⟨e.isKey.no_colon, e.afterKey.not_mem (by decide)⟩
  have hnone : ∀ c ∈ ([] : List Char), Text.isBlank c = true := fun _ h => absurd h List.not_mem_nil
  have hkey : Text.trim (e.key.toList ++ e.afterKey.chars) = e.key.toList :=
    Text.trim_append_append hnone e.isKey.isBounded e.afterKey.blank
  have hvalue : Text.trim (e.beforeValue.chars ++ e.value.chars) = e.value.chars := by
    rw [← List.append_nil (e.beforeValue.chars ++ e.value.chars)]
    exact Text.trim_append_append e.beforeValue.blank e.value.isBounded_chars hnone
  refine Literal.readEntry_eq_ok_iff.2 ⟨_, _, rfl, hcolon, ?_, ?_, ?_, ?_⟩
  · rw [hkey]
    exact (Text.isBounded_iff.1 e.isKey.isBounded).1
  · rw [hkey, String.ofList_toList]
    rfl
  · rw [hvalue]
    exact (Text.isBounded_iff.1 e.value.isBounded_chars).1
  · rw [hvalue]
    exact e.value.entryValue?_chars vars

end WrittenEntry

/-! ## Pieces -/

/-- The parts of a literal that are read as entries. -/
def piecesOf (parts : List (List Char)) : List (List Char) :=
  (parts.map Text.trim).filter fun piece => !piece.isEmpty

/-- Texts without commas that are joined by commas are cut into these texts again. -/
theorem Literal.pieces_parts {parts : List (List Char)} (hne : parts ≠ [])
    (h : ∀ part ∈ parts, ',' ∉ part) : pieces ([','].intercalate parts) = piecesOf parts := by
  rw [pieces, List.splitOn_intercalate ',' h hne, piecesOf]

/-- A piece has no comma in it, whether it is an entry or blank. -/
theorem ObjectPiece.comma_not_mem_chars (p : ObjectPiece) : ',' ∉ p.chars := by
  cases p with
  | blank blanks => exact blanks.not_mem (by decide)
  | entry written => exact written.comma_not_mem_chars

/-- Of the pieces, those that are left without blanks are the entries. Blank pieces become empty by
trimming, and no entry does. -/
theorem filter_trim_chars (written : List ObjectPiece) :
    ((written.map ObjectPiece.chars).map Text.trim).filter (fun piece => !piece.isEmpty) =
      (written.filterMap ObjectPiece.written?).map WrittenEntry.core := by
  induction written with
  | nil => rfl
  | cons first rest ih =>
    rw [List.map_cons, List.map_cons]
    cases first with
    | blank blanks =>
      have htrim : Text.trim (ObjectPiece.blank blanks).chars = [] := Text.trim_blanks blanks.blank
      rw [htrim, List.filter_cons_of_neg (by decide), ih]
      rfl
    | entry e =>
      have htrim : Text.trim (ObjectPiece.entry e).chars = e.core :=
        Text.trim_append_append e.beforeKey.blank e.isBounded_core e.afterValue.blank
      have hfilled : (!e.core.isEmpty) = true := by
        simpa using (Text.isBounded_iff.1 e.isBounded_core).1
      rw [htrim, List.filter_cons, if_pos hfilled, ih]
      rfl

/-- What is between the braces of a written object is cut into its entries, and blank pieces are
passed over. -/
theorem pieces_intercalate (written : List ObjectPiece) :
    Literal.pieces ([','].intercalate (written.map ObjectPiece.chars)) =
      (written.filterMap ObjectPiece.written?).map WrittenEntry.core := by
  rcases written with _ | ⟨first, rest⟩
  · rfl
  · have hcommas : ∀ part ∈ (first :: rest).map ObjectPiece.chars, ',' ∉ part := by
      intro part hpart
      obtain ⟨p, -, rfl⟩ := List.mem_map.1 hpart
      exact p.comma_not_mem_chars
    have hne : (first :: rest).map ObjectPiece.chars ≠ [] := by simp
    rw [Literal.pieces_parts hne hcommas, piecesOf, filter_trim_chars]

/-! ## Objects are read as what they say -/

/-- A written object is read as the object of its entries, put in one after the other. The braces
are the first and the last one, and between them each comma is one between pieces. -/
theorem readObject_objectText (vars : Bindings) (line : String) (written : List ObjectPiece) :
    Literal.readObject vars line (objectText written) = .ok (.ofList (entriesOf written)) := by
  have hbody : Literal.body? (objectText written) =
      some ([','].intercalate (written.map ObjectPiece.chars)) :=
    -- the first brace and the last one are those that the object is written between
    Literal.body?_eq_some_iff.2 ⟨[], [], rfl, List.not_mem_nil, List.not_mem_nil⟩
  refine Literal.readObject_eq_ok_iff.2 ⟨_, entriesOf written, hbody, ?_, rfl⟩
  rw [pieces_intercalate, entriesOf, List.forall₂_map_left_iff, List.forall₂_map_right_iff,
    List.forall₂_same]
  exact fun e _ => e.readEntry_core vars line

/-- **Every object that can be written is read back**, in any bindings. Its entries are put in one
after the other, so that a key that is repeated keeps its first place and has its last value. -/
theorem readValue_objectText (vars : Bindings) (line : String) (written : List ObjectPiece) :
    let o : FlatObject := .ofList (entriesOf written)
    Literal.readValue vars line (objectText written) = .ok (.object o) ∧
      o.keys = ((entriesOf written).map Prod.fst).eraseDups ∧
      ∀ key, o.get? key = (entriesOf written).reverse.lookup key := by
  refine ⟨?_, Keyed.keys_ofList _, Keyed.get?_ofList _⟩
  exact (Literal.readValue_eq_object_iff rfl).2 ⟨_, readObject_objectText vars line written, rfl⟩

/-- Braces and quotes in a key, a colon in a string, blank pieces and a repeated key. -/
example :
    Literal.readValue .empty ""
        "\x7b a\x7d' : 'x:\x7d\"', b:true ,, a\x7d':\"it's\",\x7d".toList =
      .ok (.object ⟨[("a\x7d'", .string "it's"), ("b", .boolean true)], by decide⟩) := by
  decide

end CanvasScript
