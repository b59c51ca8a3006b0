/-
The two ways to write a setting in a file.

Between its name and its value stands an equals sign, or nothing but a blank. No line says which of
the two it is meant to be: if there is an equals sign anywhere in it, what is before the first one
is the name. So the two ways come to the same as long as the value has no equals sign in it. A value
that has one, in quotes or not, can only be written behind another equals sign. Behind a blank it is
cut in two, and what is before the cut makes the name one that no setting can have; or the sign is
its first character, and is lost as the one that divides the line.

`alike_iff` says exactly for which values the two lines are alike, in effect or in message. That
they are not alike for all is `not_alike`.

What is alike is the outcome as it can be seen: the same settings, or a fault with the same message.
Faults that are not the same can have one message only if the message quotes the same text, and so
the comparison of messages is part of the proof. It is made through what messages begin with, as the
texts that they quote may hold anything.
-/
import CanvasScript.Proofs.JoinedLines
import CanvasScript.Proofs.NumeralGrammar
import CanvasScript.Proofs.SettingFields

set_option autoImplicit false

namespace CanvasScript

/-- A text with a space in it, and more behind that, is not trimmed between its ends. -/
theorem Text.trim_spaced {front last : List Char} (hfront : IsBounded front)
    (hlast : trim last ≠ []) :
    ∃ between, trim (front ++ ' ' :: last) = front ++ ' ' :: (between ++ trim last) := by
  obtain ⟨before, after, hsplit, -, hafter⟩ := exists_trim last
  have hbounded : IsBounded (front ++ (' ' :: before) ++ trim last) :=
    hfront.append _ (isBounded_trim hlast)
  have hall : front ++ ' ' :: last = [] ++ (front ++ (' ' :: before) ++ trim last) ++ after := by
    conv_lhs => rw [hsplit]
    simp
  refine ⟨before, ?_⟩
  rw [hall, trim_append_append no_blanks hbounded hafter]
  simp

namespace Settings

/-! ## The lines -/

/-- A word that can be the name of a setting. -/
structure IsSettingName (name : List Char) : Prop where
  ne_nil : name ≠ []
  word : ∀ c ∈ name, isNameChar c = true

/-- The line with an equals sign between name and value. -/
def withEquals (name value : List Char) : List Char :=
  "set ".toList ++ (name ++ ' ' :: '=' :: ' ' :: value)

/-- The line with a blank between name and value. -/
def withBlank (name value : List Char) : List Char := "set ".toList ++ (name ++ ' ' :: value)

/-- Two lines come to the same: to the same settings, or to faults that read the same. -/
def Alike (result other : Except Fault Settings) : Prop :=
  (∃ next, result = .ok next ∧ other = .ok next) ∨
    ∃ fault fault', result = .error fault ∧ other = .error fault' ∧ fault.message = fault'.message

/-- An outcome is alike with itself. -/
theorem Alike.refl (result : Except Fault Settings) : Alike result result := by
  cases result with
  | ok next => exact .inl ⟨next, rfl, rfl⟩
  | error fault => exact .inr ⟨fault, fault, rfl, rfl, rfl⟩

theorem blank_space : ∀ c ∈ [' '], Text.isBlank c = true := List.forall_mem_singleton.2 rfl

/-- The settings that there are have such names. -/
theorem Field.isSettingName (field : Field) : IsSettingName field.name.toList := by
  cases field <;> exact ⟨by decide, List.all_eq_true.1 (by decide)⟩

namespace IsSettingName

variable {name : List Char}

/-- The name of a setting has no blanks in it. -/
theorem not_blank (hname : IsSettingName name) : ∀ c ∈ name, Text.isBlank c = false := by
  intro c hc
  have hword := hname.word c hc
  rw [isNameChar, Bool.or_eq_true, beq_iff_eq] at hword
  rcases hword with hword | rfl
  · exact Text.isBlank_eq_false_of_isAlphanum hword
  · decide

theorem isBounded (hname : IsSettingName name) : Text.IsBounded name :=
  Text.isBounded_of_not_blank hname.ne_nil hname.not_blank

/-- And the space behind it is all that trimming takes off. -/
theorem trim_spaced (hname : IsSettingName name) : Text.trim (name ++ [' ']) = name := by
  have hsplit : name ++ [' '] = [] ++ name ++ [' '] := by simp
  rw [hsplit, Text.trim_append_append Text.no_blanks hname.isBounded blank_space]

/-- It holds no character that does not go into names, and the equals sign is one of those. -/
theorem not_mem (hname : IsSettingName name) {c : Char} (hc : isNameChar c = false) :
    c ∉ name := by
  intro hmem
  rw [hname.word c hmem] at hc
  exact absurd hc (by decide)

end IsSettingName

section Lines

variable {name value : List Char}

/-- A line is what is behind its first word. -/
theorem readLine_set {text : List Char} (htext : Text.IsBounded text) (settings : Settings) :
    settings.readLine ("set ".toList ++ text) =
      (splitAssignment text).bind fun (name, value) => settings.assign name value := by
  have hword : Text.IsBounded "set".toList := ⟨'s', 't', rfl, rfl, by decide, by decide⟩
  have htrim : Text.trim ("set ".toList ++ text) = "set ".toList ++ text :=
    (Text.isBounded_iff.1 (hword.append [' '] htext)).2
  have hafter : Text.after? "set ".toList ("set ".toList ++ text) = some text :=
    Text.after?_eq_some_iff.2 rfl
  rw [readLine, htrim]
  dsimp only
  rw [hafter]
  rfl

/-- Once a line is divided, its first side is the name and its second one is the value, less the
quotes around it. -/
theorem splitAssignment_of_sides {text : List Char} (htext : Text.IsBounded text)
    (hname : IsSettingName name) (hsides : sides text = (name, value)) :
    splitAssignment text = .ok (String.ofList name, String.ofList (unquoted value)) := by
  have hword : name.all isNameChar = true := List.all_eq_true.2 hname.word
  rw [splitAssignment, (Text.isBounded_iff.1 htext).2, hsides]
  dsimp only
  rw [hword, if_neg (by simp [hname.ne_nil])]

/-- With an equals sign between them, name and value are what they are. The sign is the first one in
the line, whatever the value has in it, as there is none in a name. -/
theorem readLine_withEquals (hname : IsSettingName name) (hvalue : Text.IsBounded value)
    (settings : Settings) :
    settings.readLine (withEquals name value) =
      settings.assign (String.ofList name) (String.ofList (unquoted value)) := by
  have hcut : Text.cutFirst? (· == '=') (name ++ ' ' :: '=' :: ' ' :: value) =
      some (name ++ [' '], ' ' :: value) := by
    refine Text.cutFirst?_beq_eq_some_iff.2 ⟨by simp, ?_⟩
    simpa using hname.not_mem (by decide)
  have hafter : Text.trim (' ' :: value) = value := by
    have hsplit : ' ' :: value = [' '] ++ value ++ [] := by simp
    rw [hsplit, Text.trim_append_append blank_space hvalue Text.no_blanks]
  have hsides : sides (name ++ ' ' :: '=' :: ' ' :: value) = (name, value) := by
    rw [sides, hcut]
    dsimp only
    rw [hname.trim_spaced, hafter]
  have hbounded : Text.IsBounded (name ++ ' ' :: '=' :: ' ' :: value) := by
    have h := hname.isBounded.append [' ', '=', ' '] hvalue
    simpa using h
  refine (readLine_set hbounded settings).trans ?_
  rw [splitAssignment_of_sides hbounded hname hsides]
  rfl

/-- A name and a value with a space between them have no blanks at their ends. -/
theorem isBounded_spaced (hname : IsSettingName name) (hvalue : Text.IsBounded value) :
    Text.IsBounded (name ++ ' ' :: value) := by
  have h := hname.isBounded.append [' '] hvalue
  simpa using h

/-- With a blank between them and no equals sign in the value, they are so as well. Without any sign
in the line, it is cut at its first blank, and that is the one behind the name. -/
theorem readLine_withBlank (hname : IsSettingName name) (hvalue : Text.IsBounded value)
    (hequals : '=' ∉ value) (settings : Settings) :
    settings.readLine (withBlank name value) =
      settings.assign (String.ofList name) (String.ofList (unquoted value)) := by
  have hnone : Text.cutFirst? (· == '=') (name ++ ' ' :: value) = none := by
    have hword : '=' ∉ name := hname.not_mem (by decide)
    rw [Text.cutFirst?_eq_none_iff]
    intro c hc
    rw [beq_eq_false_iff_ne]
    rintro rfl
    simp [hword, hequals] at hc
  have hcut : Text.cutFirst? Text.isBlank (name ++ ' ' :: value) = some (name, value) :=
    Text.cutFirst?_append hname.not_blank (by decide)
  have hsides : sides (name ++ ' ' :: value) = (name, value) := by
    rw [sides, hnone]
    dsimp only
    rw [hcut]
    dsimp only
    rw [(Text.isBounded_iff.1 hvalue).2]
  have hbounded := isBounded_spaced hname hvalue
  refine (readLine_set hbounded settings).trans ?_
  rw [splitAssignment_of_sides hbounded hname hsides]
  rfl

/-- The first equals sign of a value divides the line that has none before it. -/
theorem sides_spaced (hname : IsSettingName name) {front rest : List Char} (hfront : '=' ∉ front) :
    sides (name ++ ' ' :: (front ++ '=' :: rest)) =
      (Text.trim (name ++ ' ' :: front), Text.trim rest) := by
  have hcut : Text.cutFirst? (· == '=') (name ++ ' ' :: (front ++ '=' :: rest)) =
      some (name ++ ' ' :: front, rest) := by
    have hword : '=' ∉ name := hname.not_mem (by decide)
    exact Text.cutFirst?_beq_eq_some_iff.2 ⟨by simp, by simp [hword, hfront]⟩
  rw [sides, hcut]

/-- An equals sign at the very beginning of a value is taken for the one between name and value. So
what is assigned is the value without it. -/
theorem readLine_withBlank_equals (hname : IsSettingName name) {rest : List Char}
    (hvalue : Text.IsBounded ('=' :: rest)) (settings : Settings) :
    settings.readLine (withBlank name ('=' :: rest)) =
      settings.assign (String.ofList name) (String.ofList (unquoted (Text.trim rest))) := by
  have hsides : sides (name ++ ' ' :: '=' :: rest) = (name, Text.trim rest) := by
    rw [← List.nil_append ('=' :: rest), sides_spaced hname List.not_mem_nil, hname.trim_spaced]
  have hbounded := isBounded_spaced hname hvalue
  refine (readLine_set hbounded settings).trans ?_
  rw [splitAssignment_of_sides hbounded hname hsides]
  rfl

/-- An equals sign further on makes what is before it a part of the name. That has a space in it,
and no name has one. -/
theorem readLine_withBlank_within (hname : IsSettingName name) {front rest : List Char}
    (hvalue : Text.IsBounded (front ++ '=' :: rest)) (hne : front ≠ []) (hfront : '=' ∉ front)
    (settings : Settings) :
    settings.readLine (withBlank name (front ++ '=' :: rest)) =
      .error (.invalidName (String.ofList (Text.trim (name ++ ' ' :: front)))) := by
  have hlast : Text.trim front ≠ [] := by
    obtain ⟨first, -, hhead, -, hfirst, -⟩ := hvalue
    rw [List.head?_append_of_ne_nil _ hne] at hhead
    exact Text.trim_ne_nil hfirst (List.mem_of_mem_head? hhead)
  obtain ⟨between, htrim⟩ := Text.trim_spaced hname.isBounded hlast
  -- The space behind the name is now within it, and no name has one.
  have hword : (Text.trim (name ++ ' ' :: front)).all isNameChar = false := by
    rw [htrim, List.all_append, List.all_cons]
    have hspace : isNameChar ' ' = false := by decide
    rw [hspace, Bool.false_and, Bool.and_false]
  have hbounded := isBounded_spaced hname hvalue
  have hsplit : splitAssignment (name ++ ' ' :: (front ++ '=' :: rest)) =
      .error (.invalidName (String.ofList (Text.trim (name ++ ' ' :: front)))) := by
    rw [splitAssignment, (Text.isBounded_iff.1 hbounded).2, sides_spaced hname hfront]
    dsimp only
    rw [hword, if_pos (by simp)]
  refine (readLine_set hbounded settings).trans ?_
  rw [hsplit]
  rfl

end Lines

/-! ## What is said of a value that cannot be read -/

/-- What is wrong with a text that is no value for a setting. -/
def Field.fault : Field → String → Fault
  | .surface, _ => .emptySurface
  | .cellWidth, text => .notPositive Field.cellWidth.name text
  | .lineHeight, text => .notPositive Field.lineHeight.name text
  | .textColor, text => .invalidColor text
  | .errorColor, text => .invalidColor text

/-- There is one fault of a text that is no size, whether it is no number or a wrong one. -/
theorem readSize_eq_error {name text : String} {fault : Fault}
    (h : readSize name text = .error fault) : fault = .notPositive name text := by
  rw [readSize] at h
  split at h
  · split at h
    · exact absurd h (by simp)
    · exact (Except.error.inj h).symm
  · exact (Except.error.inj h).symm

/-- And one fault of a text that is no color. -/
theorem readColor_eq_error {text : String} {fault : Fault} (h : readColor text = .error fault) :
    fault = .invalidColor text := by
  rw [readColor] at h
  split at h
  · exact absurd h (by simp)
  · split at h
    · exact absurd h (by simp)
    · rename_i unreadable hread
      obtain ⟨rfl, -⟩ := Color.read_eq_unreadable_iff.1 hread
      exact (Except.error.inj h).symm

/-- So what is wrong with a value is known from the setting and the text. Each setting has one kind
of fault. -/
theorem Field.eq_fault_of_read {field : Field} {text : String} {fault : Fault}
    (h : field.read text = .error fault) : fault = field.fault text := by
  cases field with
  | surface =>
    rw [Field.read] at h
    split at h
    · exact (Except.error.inj h).symm
    · exact absurd h (by simp)
  | cellWidth => exact readSize_eq_error h
  | lineHeight => exact readSize_eq_error h
  | textColor => exact readColor_eq_error h
  | errorColor => exact readColor_eq_error h

/-- What the message for a fault begins with. -/
def Fault.lead : Fault → String
  | .expectedSet _ => "expected 'set', found: "
  | .invalidName _ => "invalid setting name '"
  | .unknownSetting _ => "unknown setting '"
  | .emptySurface => "surface: empty target id"
  | .notPositive name _ => name
  | .invalidColor _ => "invalid color '"

/-- The message of a fault begins with what is the same for all faults of its kind. -/
theorem Fault.exists_message (fault : Fault) : ∃ rest, fault.message = fault.lead ++ rest := by
  -- the message is written from left to right, and its first part names the kind
  cases fault with
  | expectedSet line => exact ⟨line, rfl⟩
  | invalidName name => exact ⟨name ++ "'", String.append_assoc⟩
  | unknownSetting name => exact ⟨name ++ "'", String.append_assoc⟩
  | emptySurface => exact ⟨"", String.append_empty.symm⟩
  | notPositive name text =>
    exact ⟨": expected a positive number, found '" ++ (text ++ "'"),
      String.append_assoc.trans String.append_assoc⟩
  | invalidColor text =>
    have hmessage : Color.invalidMessage text =
        "invalid color '" ++ (text ++ "' (expected #RRGGBB or #RGB)") := by
      unfold Color.invalidMessage
      exact String.append_assoc
    exact ⟨_, hmessage⟩

/-- Faults whose messages begin differently read differently. -/
theorem Fault.message_ne {fault other : Fault} (h : ¬ fault.lead.toList <+: other.lead.toList)
    (h' : ¬ other.lead.toList <+: fault.lead.toList) : fault.message ≠ other.message := by
  intro hsame
  obtain ⟨rest, hrest⟩ := fault.exists_message
  obtain ⟨rest', hrest'⟩ := other.exists_message
  rw [hrest, hrest', ← String.toList_inj, String.toList_append, String.toList_append] at hsame
  -- Both are in front of one text, so the shorter is in front of the longer.
  have hlead : fault.lead.toList <+: fault.lead.toList ++ rest.toList := List.prefix_append _ _
  rcases List.prefix_or_prefix_of_prefix hlead ⟨rest'.toList, hsame.symm⟩ with hlead | hlead
  · exact h hlead
  · exact h' hlead

/-- What the message for a fault in an assignment can begin with. -/
def assignmentLeads : List String :=
  ["unknown setting '", "surface: empty target id", "cell_width", "line_height", "invalid color '"]

/-- An assignment has one of a few kinds of faults. -/
theorem lead_of_assign {settings : Settings} {name text : String} {fault : Fault}
    (h : settings.assign name text = .error fault) : fault.lead ∈ assignmentLeads := by
  rw [assign_eq_map, map_eq_error_iff, Write.read] at h
  split at h
  · obtain rfl := Except.error.inj h
    simp [Fault.lead, assignmentLeads]
  · rename_i field _
    rw [Field.eq_fault_of_read (map_eq_error_iff.1 h)]
    cases field <;> simp [Field.fault, Fault.lead, Field.name, assignmentLeads]

/-- A fault in a name reads differently from all that can be wrong with an assignment. -/
theorem message_ne_of_assign {settings : Settings} {name text : String} {fault : Fault}
    (h : settings.assign name text = .error fault) (wrong : String) :
    fault.message ≠ (Fault.invalidName wrong).message := by
  have hleads : ∀ lead ∈ assignmentLeads, ¬ lead.toList <+: "invalid setting name '".toList ∧
      ¬ "invalid setting name '".toList <+: lead.toList := by
    decide
  obtain ⟨hlead, hlead'⟩ := hleads _ (lead_of_assign h)
  exact Fault.message_ne hlead hlead'

/-- What is said of a text that is no size or no color quotes the text. So two messages that are the
same are about the same text. -/
theorem Field.text_eq_of_message {field : Field} (hne : field ≠ .surface) {text other : String}
    (h : (field.fault text).message = (field.fault other).message) : text = other := by
  have hquoted : ∀ lead last : String, lead ++ text ++ last = lead ++ other ++ last →
      text = other := by
    intro lead last hsame
    rw [← String.toList_inj] at hsame ⊢
    simpa using hsame
  cases field with
  | surface => exact absurd rfl hne
  | cellWidth => exact hquoted _ _ h
  | lineHeight => exact hquoted _ _ h
  | textColor => exact hquoted _ _ h
  | errorColor => exact hquoted _ _ h

/-! ## Values that begin with an equals sign -/

section Equals

variable {rest : List Char}

/-- No number begins with an equals sign. -/
theorem read?_equals (rest : List Char) : Numeral.read? ('=' :: rest) = none := by
  rw [Option.eq_none_iff_forall_ne_some]
  intro n hread
  obtain ⟨literal, hchars, -⟩ := Numeral.read?_eq_some_iff.1 hread
  have hequals := literal.isNumeralChar_of_mem_chars '=' (by rw [hchars]; exact List.mem_cons_self)
  exact absurd hequals (by decide)

/-- And no color does. -/
theorem readColor_equals (hvalue : Text.IsBounded ('=' :: rest)) :
    readColor (String.ofList ('=' :: rest)) =
      .error (.invalidColor (String.ofList ('=' :: rest))) := by
  have hword : ¬ (String.ofList ('=' :: rest) = "default" ∨
      String.ofList ('=' :: rest) = "none") := by
    rw [← String.toList_inj, ← String.toList_inj, String.toList_ofList]
    simp
  have hread : Color.read? (String.ofList ('=' :: rest)) = none := by
    rw [Color.read?, String.toList_ofList, (Text.isBounded_iff.1 hvalue).2]
    rfl
  rw [readColor, if_neg hword, Color.read_eq_unreadable_iff.2 ⟨rfl, hread⟩]

/-- Such a value is the name of a surface, and nothing else. -/
theorem Field.read_equals (hvalue : Text.IsBounded ('=' :: rest)) {field : Field}
    (hne : field ≠ .surface) :
    field.read (String.ofList ('=' :: rest)) =
      .error (field.fault (String.ofList ('=' :: rest))) := by
  have hsize : ∀ name, readSize name (String.ofList ('=' :: rest)) =
      .error (.notPositive name (String.ofList ('=' :: rest))) := by
    intro name
    rw [readSize, String.toList_ofList, read?_equals]
    rfl
  cases field with
  | surface => exact absurd rfl hne
  | cellWidth => exact hsize _
  | lineHeight => exact hsize _
  | textColor => exact readColor_equals hvalue
  | errorColor => exact readColor_equals hvalue

/-- A surface is called what the text says. -/
theorem surface_of_assign {settings next : Settings} {text : String}
    (h : settings.assign Field.surface.name text = .ok next) : next.surface = text := by
  obtain ⟨field, hname, hread, -⟩ := get_of_assign h
  obtain rfl := Field.name_injective hname
  rw [Field.read] at hread
  split at hread
  · exact absurd hread (by simp)
  · exact (Except.ok.inj hread).symm

/-- No setting can be set to such a value and to a shorter one alike. So the loss of the sign cannot
go unnoticed. -/
theorem not_alike_assign (hvalue : Text.IsBounded ('=' :: rest)) {other : List Char}
    (hshorter : other.length < ('=' :: rest).length) (field : Field) (settings : Settings) :
    ¬ Alike (settings.assign field.name (String.ofList ('=' :: rest)))
      (settings.assign field.name (String.ofList other)) := by
  have hdifferent : String.ofList ('=' :: rest) ≠ String.ofList other := by
    intro hsame
    rw [String.ofList_inj.1 hsame] at hshorter
    exact absurd hshorter (Nat.lt_irrefl _)
  -- A surface can have any name, so there the two names differ. Every other setting refuses the
  -- value, and says so with the value in the message.
  rintro (⟨next, hfirst, hsecond⟩ | ⟨fault, fault', hfirst, hsecond, hsame⟩)
  · by_cases hsurface : field = .surface
    · subst hsurface
      exact hdifferent ((surface_of_assign hfirst).symm.trans (surface_of_assign hsecond))
    · rw [assign_name, Field.read_equals hvalue hsurface] at hfirst
      exact absurd hfirst (by simp [Except.map])
  · rw [assign_name, map_eq_error_iff] at hfirst hsecond
    rw [Field.eq_fault_of_read hfirst, Field.eq_fault_of_read hsecond] at hsame
    by_cases hsurface : field = .surface
    · subst hsurface
      have hne : String.ofList ('=' :: rest) ≠ "" := by
        rw [Ne, ← String.toList_inj, String.toList_ofList]
        simp
      rw [Field.read, if_neg hne] at hfirst
      exact absurd hfirst (by simp)
    · exact hdifferent (Field.text_eq_of_message hsurface hsame)

end Equals

/-! ## Which values the two lines agree on -/

/-- Taking off quotes takes characters away and adds none. -/
theorem unquoted_sublist (text : List Char) : (unquoted text).Sublist text := by
  change ((Literal.between? '"' text).getD text).Sublist text
  rcases hbetween : Literal.between? '"' text with _ | content
  · exact List.Sublist.refl text
  · rw [Literal.between?_eq_some_iff.1 hbetween]
    exact (List.sublist_append_left content ['"']).cons '"'

/-- An assignment fails, if it does, for another reason than a wrong name. -/
theorem not_alike_invalidName (settings : Settings) (name text wrong : String) :
    ¬ Alike (settings.assign name text) (.error (.invalidName wrong)) := by
  rintro (⟨next, -, hsecond⟩ | ⟨fault, fault', hfirst, hsecond, hsame⟩)
  · exact absurd hsecond (by simp)
  · obtain rfl := Except.error.inj hsecond
    exact message_ne_of_assign hfirst wrong hsame

/-- **The two lines are alike as long as the first equals sign is the one between name and value**:
when the value has none. A value that begins with one loses it behind a blank, and the loss shows in
what is set or in what is said of it; so such lines are alike only where there is nothing to set. -/
theorem alike_iff {name value : List Char} (hname : IsSettingName name)
    (hvalue : Text.IsBounded value) (settings : Settings) :
    Alike (settings.readLine (withEquals name value)) (settings.readLine (withBlank name value)) ↔
      '=' ∉ value ∨
        value.head? = some '=' ∧ ∀ field : Field, field.name ≠ String.ofList name := by
  rw [readLine_withEquals hname hvalue]
  by_cases hequals : '=' ∈ value
  · obtain ⟨front, rest, rfl, hfront⟩ := List.eq_append_cons_of_mem hequals
    rcases eq_or_ne front [] with rfl | hne
    · -- The value begins with the sign.
      rw [List.nil_append] at hvalue ⊢
      rw [readLine_withBlank_equals hname hvalue]
      by_cases hunknown : ∀ field : Field, field.name ≠ String.ofList name
      · rw [assign_of_unknown _ hunknown, assign_of_unknown _ hunknown]
        exact iff_of_true (Alike.refl _) (.inr ⟨rfl, hunknown⟩)
      · obtain ⟨field, hfield⟩ := not_forall_not.1 hunknown
        have hwhole : unquoted ('=' :: rest) = '=' :: rest := rfl
        have hshorter : (unquoted (Text.trim rest)).length < ('=' :: rest).length :=
          Nat.lt_succ_of_le ((unquoted_sublist _).trans (Text.trim_sublist rest)).length_le
        rw [hwhole, ← hfield]
        refine iff_of_false (not_alike_assign hvalue hshorter field settings) ?_
        rintro (hnone | ⟨-, hother⟩)
        · exact hnone List.mem_cons_self
        · exact hother field rfl
    · -- The sign stands further on.
      rw [readLine_withBlank_within hname hvalue hne hfront]
      refine iff_of_false (not_alike_invalidName settings _ _ _) ?_
      rintro (hnone | ⟨hhead, -⟩)
      · exact hnone hequals
      · rw [List.head?_append_of_ne_nil _ hne] at hhead
        exact hfront (List.mem_of_mem_head? hhead)
  · rw [readLine_withBlank hname hvalue hequals]
    exact iff_of_true (Alike.refl _) (.inl hequals)

/-- Quotes do not keep an equals sign from dividing a line: with one between them a name is alike
with a blank only if they have none within. -/
theorem alike_quoted :
    Alike (default.readLine (withEquals "surface".toList "\"a b\"".toList))
        (default.readLine (withBlank "surface".toList "\"a b\"".toList)) ∧
      ¬ Alike (default.readLine (withEquals "surface".toList "\"a=b\"".toList))
        (default.readLine (withBlank "surface".toList "\"a=b\"".toList)) := by
  have hname : IsSettingName "surface".toList := Field.surface.isSettingName
  have hspace : Text.IsBounded "\"a b\"".toList := ⟨'"', '"', rfl, rfl, by decide, by decide⟩
  have hequals : Text.IsBounded "\"a=b\"".toList := ⟨'"', '"', rfl, rfl, by decide, by decide⟩
  refine ⟨(alike_iff hname hspace default).2 (.inl (by decide)), ?_⟩
  rw [alike_iff hname hequals default]
  rintro (hnone | ⟨hhead, -⟩)
  · exact absurd hnone (by decide)
  · exact absurd hhead (by decide)

/-- So not all values can be written both ways: the surface `a=b` cannot, though in quotes. Without
an equals sign before it, the one within the quotes is taken for that. -/
theorem not_alike :
    ¬ ∀ name value : List Char, IsSettingName name → Text.IsBounded value → '\n' ∉ value →
      ∀ settings : Settings,
        Alike (settings.readLine (withEquals name value))
          (settings.readLine (withBlank name value)) := by
  intro hall
  have hset : (default.readLine (withEquals "surface".toList "\"a=b\"".toList)).map surface =
      .ok "a=b" := by
    decide
  have hcut : default.readLine (withBlank "surface".toList "\"a=b\"".toList) =
      .error (.invalidName "surface \"a") := by
    decide
  obtain ⟨next, -, hsecond⟩ | ⟨fault, -, hfirst, -⟩ := hall "surface".toList "\"a=b\"".toList
    Field.surface.isSettingName ⟨'"', '"', rfl, rfl, by decide, by decide⟩ (by decide) default
  · rw [hcut] at hsecond
    exact absurd hsecond (by simp)
  · rw [hfirst] at hset
    exact absurd hset (by simp [Except.map])

end Settings

end CanvasScript
