/-
How an object literal is broken over lines does not matter.

A literal on one line is taken as it stands, and one that is broken over lines is gathered from
them again with single spaces. If lines are only broken where entries begin or where the last one
ends, what is gathered differs from the literal on one line in the blanks around entries alone,
and those are trimmed off before an entry is read. The lines that are taken hold no braces except
for the one that ends the last of them, so the literal closes exactly there, whatever comes next.

What such a binding comes to is therefore said once, by `bindPieces`, in terms of the pieces of
the literal and not of its lines. Faults name the line they are found on, which is a different
one for the two forms, and so of faults only the kinds are compared.

Where a literal may be broken is said in the ways of writing it and not by a condition on texts.
Behind the brace that opens it and behind any comma the next line may begin, with blanks of any kind
on either side, as nothing there can be inside an entry.
-/
import CanvasScript.Proofs.BindingPattern
import CanvasScript.Proofs.LineEffect
import CanvasScript.Proofs.ObjectText
import CanvasScript.Proofs.ScriptLines

set_option autoImplicit false

namespace CanvasScript

/-! ## Ways of writing -/

/-- Text without braces, commas and line feeds. -/
def IsPlain (text : List Char) : Prop :=
  ∀ c ∈ text, c ≠ '\x7b' ∧ c ≠ '\x7d' ∧ c ≠ ',' ∧ c ≠ '\n'

/-- The text of an entry, which need not be one that can be read. -/
structure EntryText where
  chars : List Char
  plain : IsPlain chars

/-- An entry with what is put in front of it, right behind the opening brace or a comma. -/
structure PlacedEntry where
  gap : Blanks
  entry : EntryText

def PlacedEntry.chars (p : PlacedEntry) : List Char := p.gap.chars ++ p.entry.chars

/-- A text in the place of a name, which need not be a name. It ends neither the line nor itself. -/
structure NameText where
  chars : List Char
  no_equals : '=' ∉ chars
  no_lineFeed : '\n' ∉ chars

/-- The binding of a name up to the opening brace. -/
def bindingLead (name : NameText) : List Char :=
  "set ".toList ++ (name.chars ++ " = \x7b".toList)

/-- The binding of a name to an object with what stands between its braces. -/
def bindingText (name : NameText) (body : List Char) : String :=
  String.ofList (bindingLead name ++ (body ++ ['\x7d']))

/-- Entries on one line. -/
def onOneLine (entries : List EntryText) : List Char :=
  [','].intercalate (entries.map EntryText.chars)

/-- Entries with blanks and line breaks in front of them, and behind the last one. -/
def broken (placed : List PlacedEntry) (closing : Blanks) : List Char :=
  [','].intercalate (placed.map PlacedEntry.chars) ++ closing.chars

/-- A line as a command gets it, with lines before and behind it. -/
def CommandInput.between (before : List String) (line : String) (after : List String) :
    CommandInput :=
  ⟨line, before ++ line :: after, .ofLines (before ++ line :: after), before.length⟩

/-! ## The lines of a broken literal -/

/-- A line without braces opens and closes nothing. -/
theorem braceBalance_of_no_braces {text : List Char} (hopen : '\x7b' ∉ text)
    (hclose : '\x7d' ∉ text) : braceBalance (String.ofList text) = 0 := by
  rw [braceBalance_eq_braceExcess, braceExcess, String.toList_ofList,
    List.count_eq_zero_of_not_mem hopen, List.count_eq_zero_of_not_mem hclose]
  rfl

/-- Lines without braces and then one that only closes a literal. The depth stays at one up to that
line, and is zero behind it. -/
theorem closingFrom?_one {lines : List String} {last : String}
    (hlines : ∀ line ∈ lines, braceBalance line = 0) (hlast : braceBalance last = -1)
    (start : Nat) (more : List String) :
    closingFrom? 1 start (lines ++ last :: more) = some ⟨start + lines.length, 0⟩ := by
  induction lines generalizing start with
  | nil =>
    rw [List.nil_append, closingFrom?, hlast]
    rfl
  | cons line lines ih =>
    have hline := hlines line List.mem_cons_self
    rw [List.cons_append, closingFrom?, hline, if_neg (by omega), Int.add_zero,
      ih fun l hl => hlines l (List.mem_cons_of_mem _ hl), List.length_cons]
    simp only [Option.some.injEq, Closing.mk.injEq, and_true]
    omega

/-- What is gathered is the value on the first line, and behind a space each, the lines that are
taken. -/
theorem Gathered.join_ofList (value : List Char) (lines : List (List Char)) :
    join (String.ofList value) (lines.map String.ofList) =
      String.ofList (value ++ lines.flatMap fun line => ' ' :: line) := by
  apply String.toList_injective
  rw [join, String.toList_append, String.toList_join, String.toList_ofList, String.toList_ofList]
  simp [List.flatMap_map, Function.comp_def]

/-- An open literal is gathered up to the first line with a brace, when that only closes it. The
lines in between leave the depth as it is, and the closing brace brings it to zero. -/
theorem Gathered.fromRest_closed {kept rest : List Char} {front : List (List Char)}
    (hkept : '\x7d' ∉ kept) (hfront : ∀ line ∈ front, '\x7b' ∉ line ∧ '\x7d' ∉ line)
    (hrest : '\x7b' ∉ rest ∧ '\x7d' ∉ rest) (line : String) (after : List String) :
    let lines := (front ++ [rest ++ ['\x7d']]).map String.ofList
    fromRest (String.ofList ('\x7b' :: kept)) line (lines ++ after) =
      .ok ⟨join (String.ofList ('\x7b' :: kept)) lines, front.length + 1⟩ := by
  intro lines
  -- the value that begins the literal has no closing brace, so it is not complete on its line
  have hunclosed : isClosed (String.ofList ('\x7b' :: kept)) = false := by
    rw [Bool.eq_false_iff, ne_eq, isClosed_eq_true_iff, String.toList_ofList]
    intro hlast
    rcases List.mem_cons.1 (List.mem_of_getLast? hlast) with hbrace | hmem
    · exact absurd hbrace (by decide)
    · exact hkept hmem
  have hlines : ∀ line ∈ front.map String.ofList, braceBalance line = 0 := by
    intro line hline
    obtain ⟨l, hl, rfl⟩ := List.mem_map.1 hline
    exact braceBalance_of_no_braces (hfront l hl).1 (hfront l hl).2
  have hlast : braceBalance (String.ofList (rest ++ ['\x7d'])) = -1 := by
    have hbalance := braceBalance_of_no_braces hrest.1 hrest.2
    rw [braceBalance, String.toList_ofList] at hbalance ⊢
    rw [balanceOf_append, hbalance]
    rfl
  have hscan := closingFrom?_one hlines hlast 1 after
  have hlength : lines.length = front.length + 1 := by simp [lines]
  rw [fromRest_eq_ok_iff hunclosed]
  constructor
  · dsimp only [lines]
    rw [List.map_append, List.append_assoc, List.map_singleton, List.singleton_append, hscan,
      List.length_map, Nat.add_comm]
  · rw [List.take_left' hlength]

/-- Lines that are joined to a text with a brace at its end: there are none, or the brace is at the
end of the last one. Empty lines are no lines of a script, so the last one has a last character. -/
theorem joined_cases {kept inner : List Char} {more : List (List Char)}
    (hmore : ∀ line ∈ more, line ≠ [])
    (hjoined : (kept ++ more.flatMap fun line => ' ' :: line) = inner ++ ['\x7d']) :
    more = [] ∨ ∃ front rest, more = front ++ [rest ++ ['\x7d']] ∧
      kept ++ (front.flatMap fun line => ' ' :: line) ++ ' ' :: rest = inner := by
  rcases List.eq_nil_or_concat more with hnone | ⟨front, last, rfl⟩
  · exact .inl hnone
  · rw [List.concat_eq_append] at hmore hjoined ⊢
    have hlast : last ≠ [] := hmore last (by simp)
    obtain ⟨rest, c, rfl⟩ : ∃ rest c, last = rest ++ [c] :=
      ⟨last.dropLast, last.getLast hlast, (List.dropLast_append_getLast hlast).symm⟩
    have hends : (kept ++ (front.flatMap fun line => ' ' :: line) ++ ' ' :: rest) ++ [c] =
        inner ++ ['\x7d'] := by
      rw [← hjoined]
      simp
    obtain ⟨hinner, hc⟩ := List.append_inj' hends rfl
    obtain rfl : c = '\x7d' := by simpa using hc
    exact .inr ⟨front, rest, rfl, hinner⟩

/-- A literal that is joined from lines is gathered from these lines, when it has no braces but
its own. -/
theorem Gathered.fromRest_lines {kept inner : List Char} {more : List (List Char)}
    (hopen : '\x7b' ∉ inner) (hclose : '\x7d' ∉ inner) (hmore : ∀ line ∈ more, line ≠ [])
    (hjoined : (kept ++ more.flatMap fun line => ' ' :: line) = inner ++ ['\x7d'])
    (line : String) (after : List String) :
    fromRest (String.ofList ('\x7b' :: kept)) line (more.map String.ofList ++ after) =
      .ok ⟨String.ofList ('\x7b' :: (inner ++ ['\x7d'])), more.length⟩ := by
  rcases joined_cases hmore hjoined with rfl | ⟨front, rest, rfl, rfl⟩
  · rw [List.flatMap_nil, List.append_nil] at hjoined
    rw [hjoined]
    apply fromRest_of_isClosed
    rw [isClosed_eq_true_iff, String.toList_ofList, ← List.cons_append, List.getLast?_concat]
  · -- all parts of the literal but the last brace are free of braces
    have hpart : ∀ part : List Char,
        part ⊆ kept ++ (front.flatMap fun line => ' ' :: line) ++ ' ' :: rest →
          '\x7b' ∉ part ∧ '\x7d' ∉ part :=
      fun part hsubset => ⟨fun h => hopen (hsubset h), fun h => hclose (hsubset h)⟩
    have hkept := hpart kept fun d hd => by simp [hd]
    have hrest := hpart rest fun d hd => by simp [hd]
    have hfront : ∀ l ∈ front, '\x7b' ∉ l ∧ '\x7d' ∉ l := by
      intro l hl
      refine hpart l fun d hd => List.mem_append_left _ (List.mem_append_right _ ?_)
      exact List.mem_flatMap.2 ⟨l, hl, List.mem_cons_of_mem _ hd⟩
    rw [fromRest_closed hkept.2 hfront hrest, join_ofList, List.cons_append, hjoined,
      List.length_append, List.length_singleton]

/-! ## What is read of a literal -/

/-- What binding a name to an object comes to, when the object has given pieces and takes so many
lines. -/
def bindPieces (name : List Char) (pieces : List (List Char)) (line : String) (taken : Nat)
    (session : Session) : Reply :=
  match Pattern.word? name with
  | none => .failure session (.invalidSetSyntax line)
  | some word =>
    match Literal.readEntries session.vars line pieces with
    | .error fault => .failure session fault
    | .ok entries =>
      ⟨[], session.vars.insert (String.ofList word) (.object (.ofList entries)),
        [.bound (String.ofList word) .object taken], .ok taken⟩

/-- The end of a trimmed text is trimmed there. -/
theorem Text.trimEnd_of_append {front text : List Char} (hne : text ≠ [])
    (h : trim (front ++ text) = front ++ text) : trimEnd text = text := by
  obtain ⟨-, last, -, hlast, -, hblank⟩ :=
    isBounded_iff.2 ⟨List.append_ne_nil_of_right_ne_nil front hne, h⟩
  rw [List.getLast?_append_of_ne_nil _ hne] at hlast
  obtain ⟨rest, rfl⟩ := List.getLast?_eq_some_iff.1 hlast
  exact trimEnd_concat_of_not_blank rest hblank

theorem Literal.startsObject_brace (rest : List Char) : startsObject ('\x7b' :: rest) = true := rfl

/-- An object literal is read by the pieces between its commas. -/
theorem Literal.readValue_parts {parts : List (List Char)} (hne : parts ≠ [])
    (h : ∀ part ∈ parts, ',' ∉ part) (vars : Bindings) (line : String) :
    readValue vars line ('\x7b' :: ([','].intercalate parts ++ ['\x7d'])) =
      (readEntries vars line (piecesOf parts)).map fun entries => .object (.ofList entries) := by
  have hbody : body? ('\x7b' :: ([','].intercalate parts ++ ['\x7d'])) =
      some ([','].intercalate parts) :=
    body?_eq_some_iff.2 ⟨[], [], rfl, List.not_mem_nil, List.not_mem_nil⟩
  rw [readValue, if_pos (startsObject_brace _), readObject, hbody]
  dsimp only
  rw [pieces_parts hne h]
  rcases readEntries vars line (piecesOf parts) with fault | entries
  · rfl
  · rfl

/-- A binding whose literal is joined from lines comes to what the pieces of the literal do. How the
pieces were shared out among the lines is forgotten as soon as the lines are joined. -/
theorem set_lines (name : NameText) {kept : List Char} {more parts : List (List Char)}
    (hne : parts ≠ []) (hparts : ∀ part ∈ parts, IsPlain (Text.trim part))
    (hmore : ∀ line ∈ more, line ≠ [])
    (hline : LineStream.IsLine (String.ofList (bindingLead name ++ kept)))
    (hjoined : (kept ++ more.flatMap fun line => ' ' :: line) =
      [','].intercalate parts ++ ['\x7d'])
    (before after : List String) (session : Session) :
    let line := String.ofList (bindingLead name ++ kept)
    Builtin.set (.between before line (more.map String.ofList ++ after)) session =
      bindPieces name.chars (piecesOf parts) line more.length session := by
  intro line
  -- what is in a part is in its trimmed form, unless it is blank
  have hcommas : ∀ part ∈ parts, ',' ∉ part := fun part hmem =>
    Text.not_mem_of_not_mem_trim (by decide) fun h => (hparts part hmem _ h).2.2.1 rfl
  have hopen : '\x7b' ∉ [','].intercalate parts :=
    Text.not_mem_intercalate (by decide) fun part hmem =>
      Text.not_mem_of_not_mem_trim (by decide) fun h => (hparts part hmem _ h).1 rfl
  have hclose : '\x7d' ∉ [','].intercalate parts :=
    Text.not_mem_intercalate (by decide) fun part hmem =>
      Text.not_mem_of_not_mem_trim (by decide) fun h => (hparts part hmem _ h).2.1 rfl
  -- the pattern sees the first line only, and takes what the literal begins with for its value
  have hpattern : Pattern.binding? line.toList =
      (Pattern.word? name.chars).map fun word => (word, '\x7b' :: kept) := by
    have hchars : line.toList =
        ("set ".toList ++ (name.chars ++ " = ".toList)) ++ '\x7b' :: kept := by
      simp [line, bindingLead]
    have hend : Text.trimEnd ('\x7b' :: kept) = '\x7b' :: kept := by
      apply Text.trimEnd_of_append (List.cons_ne_nil _ _)
      rw [← hchars]
      exact hline.trimmed
    have hclear : '\n' ∉ kept := by
      intro hmem
      apply hline.no_lineFeed
      rw [hchars]
      exact List.mem_append_right _ (List.mem_cons_of_mem _ hmem)
    have hbounded : Text.IsBounded ('\x7b' :: kept) :=
      Text.isBounded_iff.2 ⟨List.cons_ne_nil _ _, hend⟩
    have hclosed : '\n' ∉ '\x7b' :: kept := by simp [hclear]
    rw [← Pattern.binding?_value name.no_equals hclosed hbounded, hchars]
    simp
  have hrest : (before ++ line :: (more.map String.ofList ++ after)).drop (before.length + 1) =
      more.map String.ofList ++ after := by
    simp
  have hliteral : Builtin.wholeLiteral (.between before line (more.map String.ofList ++ after))
      ('\x7b' :: kept) =
        .ok ⟨String.ofList ('\x7b' :: ([','].intercalate parts ++ ['\x7d'])), more.length⟩ := by
    rw [CommandInput.between, Builtin.wholeLiteral_eq_fromRest,
      if_pos (Literal.startsObject_brace kept), hrest]
    exact Gathered.fromRest_lines hopen hclose hmore hjoined line after
  rw [Builtin.set, Builtin.readBinding, bindPieces]
  have hinput : (CommandInput.between before line (more.map String.ofList ++ after)).line =
      line := rfl
  rw [hinput, hpattern]
  rcases Pattern.word? name.chars with _ | word
  · rfl
  · simp only [Option.map_some]
    rw [hliteral]
    simp only [Except.bind, String.toList_ofList, Literal.readValue_parts hne hcommas]
    rcases Literal.readEntries session.vars line (piecesOf parts) with fault | entries
    · rfl
    · rfl

/-- What stands before the value of a binding has no blanks at its ends. -/
theorem isBounded_bindingLead (name : NameText) : Text.IsBounded (bindingLead name) := by
  have hparts : bindingLead name = ['s'] ++ ("et ".toList ++ name.chars ++ " = ".toList) ++
      ['\x7b'] := by
    simp [bindingLead]
  have hs : Text.IsBounded ['s'] := ⟨'s', 's', rfl, rfl, by decide, by decide⟩
  have hbrace : Text.IsBounded ['\x7b'] := ⟨'\x7b', '\x7b', rfl, rfl, by decide, by decide⟩
  rw [hparts]
  exact hs.append _ hbrace

theorem lineFeed_not_mem_bindingLead (name : NameText) : '\n' ∉ bindingLead name := by
  have hname := name.no_lineFeed
  simp [bindingLead, hname]

/-- The lines of a text that binds a name to parts in braces come to what their pieces do. The text
is cut into lines wherever it has line feeds, and the pieces do not depend on where that is. -/
theorem set_parts (name : NameText) {parts : List (List Char)} (hne : parts ≠ [])
    (hparts : ∀ part ∈ parts, IsPlain (Text.trim part)) :
    ∃ first more, LineStream.linesOf (bindingText name ([','].intercalate parts)) = first :: more ∧
      ∀ before after session, Builtin.set (.between before first (more ++ after)) session =
        bindPieces name.chars (piecesOf parts) first more.length session := by
  have hlead := isBounded_bindingLead name
  have hclear := lineFeed_not_mem_bindingLead name
  obtain ⟨kept, more, hlines, hkept, hmore⟩ :=
    Text.exists_lines hlead hclear ([','].intercalate parts ++ ['\x7d'])
  obtain ⟨spaced, hspaced, htrims, hjoined⟩ :
      ∃ spaced, spaced ≠ [] ∧ spaced.map Text.trim = parts.map Text.trim ∧
        Text.joinedLines (bindingLead name ++ ([','].intercalate parts ++ ['\x7d'])) =
          bindingLead name ++ ([','].intercalate spaced ++ ['\x7d']) := by
    obtain ⟨first, rest, rfl⟩ := List.exists_cons_of_ne_nil hne
    exact Text.joinedLines_parts first rest (fun part hmem h => (hparts part hmem _ h).2.2.2 rfl)
      hlead hclear (by decide)
  have hsource := LineStream.linesOf_ofList
    (bindingLead name ++ ([','].intercalate parts ++ ['\x7d']))
  rw [hlines, List.map_cons] at hsource
  have hline : LineStream.IsLine (String.ofList (bindingLead name ++ kept)) := by
    apply LineStream.isLine_of_mem_linesOf
    rw [hsource]
    exact List.mem_cons_self
  -- joining changes only blanks around parts, so they are still plain and the pieces are the same
  have hplain : ∀ part ∈ spaced, IsPlain (Text.trim part) := by
    intro part hmem
    obtain ⟨part', hmem', hsame⟩ := List.mem_map.1 (htrims ▸ List.mem_map_of_mem hmem)
    exact hsame ▸ hparts part' hmem'
  have hpieces : piecesOf spaced = piecesOf parts := by
    rw [piecesOf, htrims, piecesOf]
  refine ⟨_, _, hsource, fun before after session => ?_⟩
  rw [← hpieces, List.length_map]
  exact set_lines name hspaced hplain hmore hline
    (List.append_cancel_left (hkept.symm.trans hjoined)) before after session

/-! ## One line or several -/

/-- The same result, or a failure for the same kind of reason. -/
inductive Alike {α : Type} : Except ScriptError α → Except ScriptError α → Prop where
  | ok (a : α) : Alike (.ok a) (.ok a)
  | error {fault fault' : ScriptError} (same : fault.kindName = fault'.kindName) :
      Alike (.error fault) (.error fault')

/-- What is made of two results that are alike is alike. -/
theorem Alike.map {α β : Type} {one other : Except ScriptError α} (h : Alike one other)
    (f : α → β) : Alike (one.map f) (other.map f) := by
  rcases h with a | same
  · exact .ok (f a)
  · exact .error same

/-- Which line an entry is on makes no difference but for the line that a fault names. The kind of
the fault is the same, and so is the entry if there is one. -/
theorem Literal.readEntry_alike (vars : Bindings) (line line' : String) (pair : List Char) :
    Alike (readEntry vars line pair) (readEntry vars line' pair) := by
  rw [readEntry, readEntry]
  rcases Text.cutFirst? (· == ':') pair with _ | ⟨before, after⟩
  · exact .error rfl
  · dsimp only
    by_cases hempty : ((Text.trim before).isEmpty || (Text.trim after).isEmpty) = true
    · rw [if_pos hempty, if_pos hempty]
      exact .error rfl
    · rw [if_neg hempty, if_neg hempty]
      rcases entryValue? vars (Text.trim after) with _ | s
      · exact .error rfl
      · exact .ok _

/-- The first entry that cannot be read is the same one on either line, and so is what is wrong with
it. -/
theorem Literal.readEntries_alike (vars : Bindings) (line line' : String)
    (pairs : List (List Char)) :
    Alike (readEntries vars line pairs) (readEntries vars line' pairs) := by
  induction pairs with
  | nil => exact .ok []
  | cons pair rest ih =>
    have hfirst := readEntry_alike vars line line' pair
    rw [readEntries, readEntries]
    generalize readEntry vars line pair = one, readEntry vars line' pair = other at hfirst ⊢
    rcases hfirst with entry | same
    · exact ih.map _
    · exact .error same

/-- Two replies to a binding that takes no more lines and to one that takes some more: both bind
the name to the same object, or both fail for the same kind of reason. -/
inductive BoundAlike (session : Session) (name : String) (extra : Nat) : Reply → Reply → Prop where
  | binds (o : FlatObject) : BoundAlike session name extra
      ⟨[], session.vars.insert name (.object o), [.bound name .object 0], .ok 0⟩
      ⟨[], session.vars.insert name (.object o), [.bound name .object extra], .ok extra⟩
  | fails (fault fault' : ScriptError) (same : fault.kindName = fault'.kindName) :
      BoundAlike session name extra (.failure session fault) (.failure session fault')

/-- So a binding comes to the same for either line, but for the number of lines that it takes. The
line is only quoted, and only by faults. -/
theorem bindPieces_alike (name : List Char) (pieces : List (List Char)) (line line' : String)
    (extra : Nat) (session : Session) :
    BoundAlike session (String.ofList (Text.trim name)) extra
      (bindPieces name pieces line 0 session) (bindPieces name pieces line' extra session) := by
  have hentries := Literal.readEntries_alike session.vars line line' pieces
  rw [bindPieces, bindPieces]
  rcases hword : Pattern.word? name with _ | word
  · exact .fails _ _ rfl
  · obtain rfl : Text.trim name = word := by
      rw [Pattern.word?, Option.ite_none_right_eq_some] at hword
      exact Option.some.inj hword.2
    dsimp only
    generalize Literal.readEntries session.vars line pieces = one,
      Literal.readEntries session.vars line' pieces = other at hentries ⊢
    rcases hentries with entries | same
    · exact .binds _
    · exact .fails _ _ same

/-- Blanks around a text are trimmed off with those that it has at its ends. -/
theorem Text.trim_between_blanks {before after : List Char}
    (hbefore : ∀ c ∈ before, isBlank c = true) (hafter : ∀ c ∈ after, isBlank c = true)
    (text : List Char) : trim (before ++ text ++ after) = trim text := by
  rw [List.append_assoc, trim, trimStart_append_of_blanks hbefore]
  by_cases hnone : ∀ c ∈ text, isBlank c = true
  · rw [trimStart_append_of_blanks hnone, trim_blanks hnone, ← trim, trim_blanks hafter]
  · have hfilled : trimStart text ≠ [] := fun h => hnone (List.dropWhile_eq_nil_iff.1 h)
    have hstart : trimStart (text ++ after) = trimStart text ++ after := by
      unfold trimStart at hfilled ⊢
      rw [List.dropWhile_append, if_neg (by simpa using hfilled)]
    rw [hstart, trimEnd_append_of_blanks hafter, trim]

/-- What is put behind the last of several parts stands behind them all when they are joined. -/
theorem Text.intercalate_append_last (separator last after : List Char)
    (front : List (List Char)) :
    separator.intercalate (front ++ [last ++ after]) =
      separator.intercalate (front ++ [last]) ++ after := by
  induction front with
  | nil => rw [List.nil_append, List.nil_append, List.intercalate_singleton,
      List.intercalate_singleton]
  | cons first front ih =>
    rw [List.cons_append, List.intercalate_cons_of_ne_nil (by simp), ih, List.cons_append,
      List.intercalate_cons_of_ne_nil (by simp), ← List.append_assoc]

/-- The entries of a broken literal, as parts with nothing but commas between them. The blanks
around an entry are put to its part, so the parts have the pieces of the entries. -/
theorem exists_parts (placed : List PlacedEntry) (closing : Blanks) :
    ∃ parts, parts ≠ [] ∧ [','].intercalate parts = broken placed closing ∧
      (∀ part ∈ parts, IsPlain (Text.trim part)) ∧
      piecesOf parts = piecesOf (placed.map fun p => p.entry.chars) := by
  have hplain : ∀ p : PlacedEntry, IsPlain (Text.trim p.entry.chars) := fun p c hc =>
    p.entry.plain c ((Text.trim_sublist _).subset hc)
  have htrim : ∀ p : PlacedEntry, Text.trim p.chars = Text.trim p.entry.chars := fun p => by
    rw [PlacedEntry.chars, ← List.append_nil (p.gap.chars ++ p.entry.chars)]
    exact Text.trim_between_blanks p.gap.blank Text.no_blanks _
  rcases List.eq_nil_or_concat placed with rfl | ⟨front, last, rfl⟩
  · -- without entries there is one part, of blanks only
    have hnone : Text.trim closing.chars = [] := Text.trim_blanks closing.blank
    refine ⟨[closing.chars], List.cons_ne_nil _ _, ?_, ?_, ?_⟩
    · rw [List.intercalate_singleton]
      rfl
    · rintro part hmem c hc
      rw [List.mem_singleton.1 hmem, hnone] at hc
      exact absurd hc List.not_mem_nil
    · simp [piecesOf, hnone]
  · -- the blanks before the brace go to the last part
    have hlast : Text.trim (last.chars ++ closing.chars) = Text.trim last.entry.chars := by
      rw [PlacedEntry.chars]
      exact Text.trim_between_blanks last.gap.blank closing.blank _
    refine ⟨front.map PlacedEntry.chars ++ [last.chars ++ closing.chars], by simp, ?_, ?_, ?_⟩
    · rw [Text.intercalate_append_last, broken]
      simp
    · intro part hmem c hc
      rw [List.mem_append, List.mem_singleton] at hmem
      rcases hmem with hmem | rfl
      · obtain ⟨p, -, rfl⟩ := List.mem_map.1 hmem
        exact hplain p c (htrim p ▸ hc)
      · exact hplain last c (hlast ▸ hc)
    · simp [piecesOf, htrim, hlast, Function.comp_def]

/-- A binding on one line is a script of this line. -/
theorem linesOf_onOneLine (name : NameText) (entries : List EntryText) :
    LineStream.linesOf (bindingText name (onOneLine entries)) =
      [bindingText name (onOneLine entries)] := by
  have hbody : '\n' ∉ onOneLine entries := by
    apply Text.not_mem_intercalate (by decide)
    rintro part hmem
    obtain ⟨entry, -, rfl⟩ := List.mem_map.1 hmem
    exact fun h => (entry.plain _ h).2.2.2 rfl
  have hclear : '\n' ∉ bindingLead name ++ (onOneLine entries ++ ['\x7d']) := by
    have hlead := lineFeed_not_mem_bindingLead name
    simp [hlead, hbody]
  have hbrace : Text.IsBounded ['\x7d'] := ⟨'\x7d', '\x7d', rfl, rfl, by decide, by decide⟩
  have hbounded := (isBounded_bindingLead name).append (onOneLine entries) hbrace
  rw [List.append_assoc] at hbounded
  have htrim := (Text.isBounded_iff.1 hbounded).2
  rw [bindingText, LineStream.linesOf_ofList, Text.lineTexts_of_no_lineFeed hclear, htrim,
    List.filter_cons_of_pos (by simp), List.filter_nil, List.map_singleton]

/-! ## Lines do not matter -/

/-- **How an object literal is broken over lines does not matter**, whether its entries can be read
or not, and whatever lines stand before and behind it. Both forms have the same pieces between their
commas, and a binding looks at nothing else. -/
theorem set_broken (name : NameText) (placed : List PlacedEntry) (closing : Blanks) :
    let line := bindingText name (onOneLine (placed.map PlacedEntry.entry))
    LineStream.linesOf line = [line] ∧
      ∃ first extra,
        LineStream.linesOf (bindingText name (broken placed closing)) = first :: extra ∧
        ∀ before after before' after' session,
          BoundAlike session (String.ofList (Text.trim name.chars)) extra.length
            (Builtin.set (.between before line after) session)
            (Builtin.set (.between before' first (extra ++ after')) session) := by
  intro line
  let noBlanks : Blanks := ⟨[], Text.no_blanks⟩
  have hone : LineStream.linesOf line = [line] := linesOf_onOneLine name _
  obtain ⟨parts, hne, hbroken, hplain, hpieces⟩ := exists_parts placed closing
  obtain ⟨first, extra, hlines, hset⟩ := set_parts name hne hplain
  -- one line is the broken form without any blanks, and has the same pieces
  obtain ⟨parts', hne', hbroken', hplain', hpieces'⟩ :=
    exists_parts (placed.map fun p => ⟨noBlanks, p.entry⟩) noBlanks
  obtain ⟨first', extra', hlines', hset'⟩ := set_parts name hne' hplain'
  have hbody : broken (placed.map fun p => ⟨noBlanks, p.entry⟩) noBlanks =
      onOneLine (placed.map PlacedEntry.entry) := by
    simp [broken, onOneLine, noBlanks, PlacedEntry.chars, Function.comp_def]
  rw [hbroken', hbody, hone, List.cons.injEq] at hlines'
  obtain ⟨rfl, rfl⟩ := hlines'
  refine ⟨hone, first, extra, hbroken ▸ hlines, fun before after before' after' session => ?_⟩
  have hpart := hset' before after session
  rw [List.nil_append] at hpart
  have hsame : piecesOf parts' = piecesOf parts := by
    rw [hpieces, hpieces', List.map_map]
    rfl
  rw [hpart, hset, hsame]
  exact bindPieces_alike name.chars (piecesOf parts) line first extra.length session

end CanvasScript
