/-
What the variables of an interpreter can hold, whatever scripts it has run.

Names are words. Numbers come from numerals, and rounding a numeral may overflow but never gives
a `nan`. Strings and keys are parts of lines, and a line holds no line feed; a literal that spans
lines is joined with spaces. Keys are what stands between separators, without the blanks around
it. A value that is copied from a variable is one of these already. So a binding that succeeds
keeps a well-formed store well-formed, and a line that does not bind leaves the store alone.

This is the invariant that everything said of stored values rests on, and `run_induction` carries it
through a run. Its two halves need each other: an entry may be copied from a variable, and what a
variable holds came from an entry or from a line.
-/
import CanvasScript.Proofs.LiteralReading
import CanvasScript.Proofs.Paging
import CanvasScript.Proofs.ScriptLines

set_option autoImplicit false

namespace CanvasScript

/-! ## Well-formed stores -/

/-- A non-empty word of ASCII letters, digits and underscores. -/
structure IsVariableName (name : String) : Prop where
  ne_empty : name ≠ ""
  word : ∀ c ∈ name.toList, c.isAlphanum = true ∨ c = '_'

def Scalar.IsWellFormed : Scalar → Prop
  | .number x => x ≠ .nan
  | .boolean _ => True
  | .string s => '\n' ∉ s.toList

/-- An object with proper keys, none of them twice, and well-formed scalars. That its entries are
scalars is their type. -/
structure FlatObject.IsWellFormed (o : FlatObject) : Prop where
  keys : ∀ key ∈ o.keys, IsKey key ∧ '\n' ∉ key.toList
  distinct : o.keys.Nodup
  scalars : ∀ entry ∈ o.entries, entry.2.IsWellFormed

def Value.IsWellFormed : Value → Prop
  | .scalar s => s.IsWellFormed
  | .object o => FlatObject.IsWellFormed o

structure Bindings.IsWellFormed (vars : Bindings) : Prop where
  names : ∀ name ∈ vars.keys, IsVariableName name
  values : ∀ entry ∈ vars.entries, entry.2.IsWellFormed

theorem Bindings.IsWellFormed.empty : Bindings.IsWellFormed .empty :=
  ⟨fun _ h => absurd h List.not_mem_nil, fun _ h => absurd h List.not_mem_nil⟩

/-- A word that is bound to a well-formed value keeps the bindings well-formed. -/
theorem Bindings.IsWellFormed.insert {vars : Bindings} (h : Bindings.IsWellFormed vars)
    {name : String} (hname : IsVariableName name) {v : Value} (hv : v.IsWellFormed) :
    Bindings.IsWellFormed (vars.insert name v) := by
  refine ⟨?_, ?_⟩
  · intro other hother
    rw [Keyed.keys_insert] at hother
    split at hother
    · exact h.names other hother
    · rcases List.mem_append.1 hother with hold | hnew
      · exact h.names other hold
      · obtain rfl := List.mem_singleton.1 hnew
        exact hname
  · intro entry hentry
    -- an entry is the new one, or it was there before
    rcases Entries.mem_put hentry with rfl | hold
    · exact hv
    · exact h.values entry hold

theorem Bindings.IsWellFormed.get? {vars : Bindings} (h : Bindings.IsWellFormed vars)
    {name : String} {v : Value} (hget : vars.get? name = some v) : v.IsWellFormed :=
  h.values (name, v) (Keyed.mem_entries_of_get? hget)

/-! ## Values that are read -/

/-- Rounding may overflow, and never gives a `nan`. -/
theorem Decimal.toBinary64_ne_nan (negative : Bool) (d : Decimal) :
    d.toBinary64 negative ≠ .nan := by
  rw [Decimal.toBinary64]
  split_ifs
  · simp [Binary64.signedZero]
  · simp
  · rw [Binary64.rounded, Binary64.atPosition]
    split_ifs <;> simp

namespace Literal

variable {vars : Bindings} {text : List Char}

/-- A constant of a text without line feeds is a boolean, a number that is no `nan`, or a part of
the text. -/
theorem isWellFormed_constant? {s : Scalar} (htext : '\n' ∉ text) (h : constant? text = some s) :
    s.IsWellFormed := by
  rw [constant?] at h
  split at h
  · rename_i content hcontent
    obtain rfl := Option.some.inj h
    -- the content of a string is a part of the text, whichever quote it is in
    have hpart : content ⊆ text := by
      rcases unquote?_eq_some_iff.1 hcontent with rfl | rfl <;>
        exact fun c hc => List.mem_cons_of_mem _ (List.mem_append_left _ hc)
    rw [Scalar.IsWellFormed, String.toList_ofList]
    exact fun hmem => htext (hpart hmem)
  · split at h
    · obtain rfl := Option.some.inj h
      trivial
    · obtain ⟨numeral, -, rfl⟩ := Option.map_eq_some_iff.1 h
      exact Decimal.toBinary64_ne_nan _ _

/-- An atom is a constant, or a copy of what a variable holds. -/
theorem isWellFormed_atom? (hvars : Bindings.IsWellFormed vars) {v : Value} (htext : '\n' ∉ text)
    (h : atom? vars text = some v) : v.IsWellFormed := by
  rw [atom?] at h
  split at h
  · rename_i s hs
    obtain rfl := Option.some.inj h
    exact isWellFormed_constant? htext hs
  · exact hvars.get? h

/-- The value of an entry is an atom, and no object. So objects are flat, and a variable that is one
cannot be put into another. -/
theorem isWellFormed_entryValue? (hvars : Bindings.IsWellFormed vars) {s : Scalar}
    (htext : '\n' ∉ text) (h : entryValue? vars text = some s) : s.IsWellFormed := by
  rw [entryValue?.eq_def] at h
  split at h
  · exact absurd h (by simp)
  · obtain ⟨v, hv, hs⟩ := Option.bind_eq_some_iff.1 h
    have hformed := isWellFormed_atom? hvars htext hv
    cases v with
    | scalar t =>
      obtain rfl := Option.some.inj hs
      exact hformed
    | object o => exact absurd hs (by simp [Value.scalar?])

/-! ## Entries and objects -/

/-- What stands before a colon is a key, without the blanks around it. -/
theorem isKey_trim {before : List Char} (hcomma : ',' ∉ before) (hcolon : ':' ∉ before)
    (hne : Text.trim before ≠ []) : IsKey (String.ofList (Text.trim before)) := by
  have hpart : Text.trim before ⊆ before := (Text.trim_sublist before).subset
  refine ⟨by simpa using hne, ?_, ?_, ?_⟩
  · rw [Text.trimmed, String.toList_ofList, Text.trim_trim]
  · rw [String.toList_ofList]
    exact fun hmem => hcomma (hpart hmem)
  · rw [String.toList_ofList]
    exact fun hmem => hcolon (hpart hmem)

/-- An entry that is read has a key without blanks around it and without separators, and a
well-formed value. -/
theorem isWellFormed_readEntry (hvars : Bindings.IsWellFormed vars) {line : String}
    {entry : String × Scalar} (hcomma : ',' ∉ text) (hlineFeed : '\n' ∉ text)
    (h : readEntry vars line text = .ok entry) :
    (IsKey entry.1 ∧ '\n' ∉ entry.1.toList) ∧ entry.2.IsWellFormed := by
  obtain ⟨before, after, rfl, hcolon, hkey, hname, -, hvalue⟩ := readEntry_eq_ok_iff.1 h
  rw [List.mem_append, List.mem_cons, not_or, not_or] at hcomma hlineFeed
  rw [← hname, String.toList_ofList]
  refine ⟨⟨isKey_trim hcomma.1 hcolon hkey, ?_⟩, isWellFormed_entryValue? hvars ?_ hvalue⟩
  · exact fun hmem => hlineFeed.1 ((Text.trim_sublist before).subset hmem)
  · exact fun hmem => hlineFeed.2.2 ((Text.trim_sublist after).subset hmem)

/-- Of two lists that are related member by member, each member of the second has one of the
first. -/
theorem exists_mem_of_forall₂ {α β : Type} {R : α → β → Prop} {as : List α} {bs : List β}
    (h : List.Forall₂ R as bs) {b : β} (hb : b ∈ bs) : ∃ a ∈ as, R a b := by
  induction h with
  | nil => exact absurd hb List.not_mem_nil
  | cons hfirst _ ih =>
    rcases List.mem_cons.1 hb with rfl | hlater
    · exact ⟨_, List.mem_cons_self, hfirst⟩
    · obtain ⟨a, ha, hrelated⟩ := ih hlater
      exact ⟨a, List.mem_cons_of_mem _ ha, hrelated⟩

/-- The pieces between commas hold no comma, and no line feed if the text has none. -/
theorem not_mem_of_mem_pieces {body piece : List Char} (hbody : '\n' ∉ body)
    (h : piece ∈ pieces body) : ',' ∉ piece ∧ '\n' ∉ piece := by
  obtain ⟨part, hpart, rfl⟩ := List.mem_map.1 (List.mem_filter.1 h).1
  have htrim := (Text.trim_sublist part).subset
  exact ⟨fun hmem => Text.not_mem_of_mem_splitOn hpart (htrim hmem),
    fun hmem => hbody (Text.subset_of_mem_splitOn hpart (htrim hmem))⟩

/-- An object that is read has distinct keys, since each entry is put in under its key, and
well-formed values. Its keys and values come from pieces between commas, so no key has a comma, and
the values that are variables were well-formed before. -/
theorem isWellFormed_readObject (hvars : Bindings.IsWellFormed vars) {line : String}
    {o : FlatObject} (htext : '\n' ∉ text) (h : readObject vars line text = .ok o) :
    FlatObject.IsWellFormed o := by
  obtain ⟨body, entries, hbody, hread, rfl⟩ := readObject_eq_ok_iff.1 h
  obtain ⟨before, after, rfl, -, -⟩ := body?_eq_some_iff.1 hbody
  have hclear : '\n' ∉ body := fun hmem => htext (by simp [hmem])
  -- an entry was read from a piece of the body, and a piece holds neither commas nor line feeds
  have hentries : ∀ entry ∈ entries,
      (IsKey entry.1 ∧ '\n' ∉ entry.1.toList) ∧ entry.2.IsWellFormed := by
    intro entry hentry
    obtain ⟨piece, hpiece, hok⟩ := exists_mem_of_forall₂ hread hentry
    obtain ⟨hcomma, hlineFeed⟩ := not_mem_of_mem_pieces hclear hpiece
    exact isWellFormed_readEntry hvars hcomma hlineFeed hok
  refine ⟨?_, Keyed.distinct _, ?_⟩
  · intro key hkey
    obtain ⟨entry, hentry, rfl⟩ := List.mem_map.1 hkey
    exact (hentries entry (Keyed.mem_of_mem_entries_ofList hentry)).1
  · intro entry hentry
    exact (hentries entry (Keyed.mem_of_mem_entries_ofList hentry)).2

/-- So what is read from a text without line feeds is well-formed, whether it is an object or an
atom. -/
theorem isWellFormed_readValue (hvars : Bindings.IsWellFormed vars) {line : String} {v : Value}
    (htext : '\n' ∉ text) (h : readValue vars line text = .ok v) : v.IsWellFormed := by
  by_cases hobject : startsObject text = true
  · obtain ⟨o, ho, rfl⟩ := (readValue_eq_object_iff hobject).1 h
    exact isWellFormed_readObject hvars htext ho
  · rw [readValue, if_neg hobject] at h
    split at h
    · rename_i w hw
      obtain rfl := Except.ok.inj h
      exact isWellFormed_atom? hvars htext hw
    · exact absurd h (by simp)

end Literal

/-! ## Bindings that succeed -/

/-- The pattern of bindings takes no value with a line feed in it. -/
theorem Pattern.no_lineFeed_of_boundValue? {rest value : List Char}
    (h : boundValue? rest = some value) : '\n' ∉ value := by
  rw [boundValue?] at h
  split at h
  · split at h
    · exact absurd h (by simp)
    · obtain rfl := Option.some.inj h
      exact List.not_mem_nil
  · split at h
    · exact absurd h (by simp)
    · rename_i hclear
      obtain rfl := Option.some.inj h
      rw [List.contains_iff_mem] at hclear
      exact fun hmem => hclear ((Text.trimEnd_sublist _).subset hmem)

/-- The name of a binding is a word, and its value is on one line. -/
theorem Pattern.isVariableName_of_binding? {line name value : List Char}
    (h : binding? line = some (name, value)) :
    IsVariableName (String.ofList name) ∧ '\n' ∉ value := by
  simp only [binding?, Option.bind_eq_bind, Option.bind_eq_some_iff, Option.pure_def,
    Option.some.injEq, Prod.mk.injEq, Option.guard_eq_some'] at h
  obtain ⟨_, -, named, -, _, hname, rest, -, _, hvalue, rfl, rfl⟩ := h
  refine ⟨⟨by simpa using hname, ?_⟩, no_lineFeed_of_boundValue? hvalue⟩
  intro c hc
  rw [String.toList_ofList] at hc
  simpa [Lexer.isNameChar] using List.mem_takeWhile_imp hc

/-- Lines joined by spaces hold no line feed when none of them does. -/
theorem Gathered.no_lineFeed_join {value : String} {lines : List String}
    (hvalue : '\n' ∉ value.toList) (hlines : ∀ line ∈ lines, '\n' ∉ line.toList) :
    '\n' ∉ (join value lines).toList := by
  rw [join_eq_foldl]
  induction lines generalizing value with
  | nil => exact hvalue
  | cons next rest ih =>
    refine ih ?_ fun line hline => hlines line (List.mem_cons_of_mem _ hline)
    have hspace : '\n' ∉ " ".toList := by decide
    rw [String.toList_append, String.toList_append, List.mem_append, List.mem_append]
    rintro ((hfront | hmid) | hnext)
    · exact hvalue hfront
    · exact hspace hmid
    · exact hlines next List.mem_cons_self hnext

/-- A literal on several lines is put together without line feeds. Its lines have none, and spaces
are put between them. -/
theorem Gathered.no_lineFeed_of_fromRest {value line : String} {rest : List String}
    {g : Gathered} (hvalue : '\n' ∉ value.toList) (hrest : ∀ line ∈ rest, '\n' ∉ line.toList)
    (h : fromRest value line rest = .ok g) : '\n' ∉ g.text.toList := by
  rcases hclosed : isClosed value with _ | _
  · obtain ⟨-, htext⟩ := (fromRest_eq_ok_iff hclosed).1 h
    rw [htext]
    exact no_lineFeed_join hvalue fun line hline => hrest line (List.mem_of_mem_take hline)
  · rw [fromRest_of_isClosed hclosed, Except.ok.injEq] at h
    rw [← h]
    exact hvalue

/-- A line that binds, with lines after it that hold no line feed, binds a word to a well-formed
value. The lines after it matter because a literal may be gathered from them. -/
theorem isWellFormed_of_binds {vars : Bindings} {line name : String} {rest : List String}
    {v : Value} {consumed : Nat} (hvars : Bindings.IsWellFormed vars)
    (hrest : ∀ line ∈ rest, '\n' ∉ line.toList)
    (h : effectOf vars line rest = .binds name v consumed) :
    IsVariableName name ∧ v.IsWellFormed := by
  obtain ⟨-, hread⟩ := effectOf_eq_binds_iff.1 h
  obtain ⟨word, value, literal, hpattern, hliteral, hvalue, rfl, -⟩ :=
    readBinding_front_eq_ok_iff.1 hread
  obtain ⟨hname, hclear⟩ := Pattern.isVariableName_of_binding? hpattern
  refine ⟨hname, Literal.isWellFormed_readValue hvars ?_ hvalue⟩
  have hstart : '\n' ∉ (String.ofList value).toList := by rwa [String.toList_ofList]
  -- an object may go on over other lines, and any other value ends with its own
  by_cases hobject : Literal.startsObject value = true
  · rw [if_pos hobject] at hliteral
    exact Gathered.no_lineFeed_of_fromRest hstart hrest hliteral
  · rw [if_neg hobject, Except.ok.injEq] at hliteral
    rw [← hliteral]
    exact hstart

/-- The bindings after a line are well-formed. -/
theorem Bindings.IsWellFormed.varsAfter {vars : Bindings} (hvars : Bindings.IsWellFormed vars)
    {line : String} {rest : List String} (hrest : ∀ line ∈ rest, '\n' ∉ line.toList) :
    Bindings.IsWellFormed ((effectOf vars line rest).varsAfter vars) := by
  rcases heffect : effectOf vars line rest with fault | text | ⟨name, v, consumed⟩
  · exact hvars
  · exact hvars
  · obtain ⟨hname, hv⟩ := isWellFormed_of_binds hvars hrest heffect
    exact hvars.insert hname hv

/-! ## Runs -/

/-- A run keeps the bindings well-formed. The invariant has two halves: the bindings are
well-formed, and the lines that remain are lines. -/
theorem isWellFormed_vars_replay (index : Nat) (session : Session) (remaining : List String)
    (hvars : Bindings.IsWellFormed session.vars)
    (hlines : ∀ line ∈ remaining, '\n' ∉ line.toList) :
    Bindings.IsWellFormed
      (replay index session (effects session.vars remaining)).session.vars := by
  revert hvars hlines
  refine run_induction (motive := fun _ session remaining run =>
    Bindings.IsWellFormed session.vars → (∀ line ∈ remaining, '\n' ∉ line.toList) →
      Bindings.IsWellFormed run.session.vars) ?_ ?_ index session remaining
  · intro _ session hvars _
    exact hvars
  · intro _ session line rest run ih hvars hlines
    -- what a literal is gathered from and what is executed next are both among the later lines
    have hrest : ∀ line ∈ rest, '\n' ∉ line.toList :=
      fun other hother => hlines other (List.mem_cons_of_mem _ hother)
    exact ih (hvars.varsAfter hrest) fun other hother => hrest other (List.mem_of_mem_drop hother)

/-- **The bindings of every sequence of scripts are well-formed.** A script is cut into lines before
anything is read from it, and after that nothing can bring a line feed, a `nan` or a nested object
into the bindings. -/
theorem isWellFormed_vars_runAll (scripts : List String) :
    Bindings.IsWellFormed (Interpreter.fresh.runAll scripts).1.session.vars := by
  -- the commands stay those of the language, so that each run is a replay
  have hkept := Interpreter.runAll_induction
    (motive := fun i => i.commands = Builtin.commands ∧ Bindings.IsWellFormed i.session.vars)
    (i := .fresh) ⟨rfl, Bindings.IsWellFormed.empty⟩ ?_ scripts
  · exact hkept.2
  · rintro ⟨commands, session⟩ source ⟨rfl, hvars⟩
    refine ⟨rfl, ?_⟩
    have hreplay := isWellFormed_vars_replay 0 session (LineStream.linesOf source) hvars
      fun line hline => (LineStream.isLine_of_mem_linesOf hline).no_lineFeed
    rw [← runScript_builtin] at hreplay
    exact hreplay

end CanvasScript
