/-
A settings file line by line.

What a line says, and whether it says anything wrong, can be seen from the line alone: it is silent,
or it has a fault, or it is an assignment, and what the lines before it have come to only matters
for what is changed. So the faults of a file are those of its lines, each with the number of its
line, and its settings are what its other lines assign, one after the other.

`isReadByLine` is this as a statement about texts. That a line is reported for itself alone is said
there with the file that has only this line in it, so that no part of reading has to be named.

To repair a file is to make the lines blank that have a fault. It is defined twice, once along the
reading of the file, where it is needed for proofs, and once as leaving out the lines that are
reported, which is what someone does who has seen the report. The two are the same
(`unreportedLines_eq_repairedLines`), because a line has its fault by itself.
-/
import CanvasScript.Proofs.SettingFields
import CanvasScript.Proofs.TextPieces

set_option autoImplicit false

namespace CanvasScript

namespace Settings

/-! ## Files without what is wrong in them -/

/-- Lines of a settings file, with blank ones in the place of those that are wrong. -/
def repairedLines (settings : Settings) : List (List Char) → List (List Char)
  | [] => []
  | line :: rest =>
    match settings.readLine line with
    | .ok next => line :: next.repairedLines rest
    | .error _ => [] :: settings.repairedLines rest

/-- A settings file, with blank lines in the place of those that are wrong. -/
def repairedText (text : String) : String :=
  String.ofList (['\n'].intercalate (default.repairedLines (text.toList.splitOn '\n')))

theorem readLine_blank (settings : Settings) : settings.readLine [] = .ok settings := rfl

/-- Lines that are wrong change nothing, and nothing else is wrong. The induction goes along the
lines with whatever settings they have made so far. -/
theorem readLines_repairedLines (settings : Settings) (number other : Nat)
    (lines : List (List Char)) :
    settings.readLines other (settings.repairedLines lines) =
      ((settings.readLines number lines).1, []) := by
  induction lines generalizing settings number other with
  | nil => rfl
  | cons line rest ih =>
    rw [repairedLines, readLines]
    -- a wrong line has changed nothing, and a blank one in its place does not either
    rcases hline : settings.readLine line with fault | next
    · dsimp only
      rw [readLines, readLine_blank]
      exact ih settings (number + 1) (other + 1)
    · dsimp only
      rw [readLines, hline]
      exact ih next (number + 1) (other + 1)

/-- The lines of a repaired file are lines of the file, or blank. -/
theorem mem_of_mem_repairedLines {settings : Settings} {lines : List (List Char)}
    {line : List Char} (h : line ∈ settings.repairedLines lines) : line = [] ∨ line ∈ lines := by
  induction lines generalizing settings with
  | nil => exact absurd h List.not_mem_nil
  | cons first rest ih =>
    rw [repairedLines] at h
    -- a wrong line is replaced by a blank one, and any other stays
    rcases hfirst : settings.readLine first with fault | next
    · rw [hfirst] at h
      rcases List.mem_cons.1 h with rfl | hlater
      · exact .inl rfl
      · exact (ih hlater).imp_right (List.mem_cons_of_mem _)
    · rw [hfirst] at h
      rcases List.mem_cons.1 h with rfl | hlater
      · exact .inr List.mem_cons_self
      · exact (ih hlater).imp_right (List.mem_cons_of_mem _)

/-- A repaired file has as many lines as before, so it still has one. -/
theorem repairedLines_ne_nil {settings : Settings} {lines : List (List Char)} (h : lines ≠ []) :
    settings.repairedLines lines ≠ [] := by
  obtain ⟨first, rest, rfl⟩ := List.exists_cons_of_ne_nil h
  rw [repairedLines]
  rcases settings.readLine first with fault | next
  · exact List.cons_ne_nil _ _
  · exact List.cons_ne_nil _ _

/-- **What is wrong in a settings file is as good as blank.** The file without those lines is read
without a fault and makes the same settings. -/
theorem ofText_repairedText (text : String) :
    ofText (repairedText text) = ((ofText text).1, []) := by
  have hclear : ∀ line ∈ default.repairedLines (text.toList.splitOn '\n'), '\n' ∉ line := by
    intro line hline
    rcases mem_of_mem_repairedLines hline with rfl | hmem
    · exact List.not_mem_nil
    · exact Text.not_mem_of_mem_splitOn hmem
  have hlines : default.repairedLines (text.toList.splitOn '\n') ≠ [] :=
    repairedLines_ne_nil (List.splitOn_ne_nil _ _)
  rw [ofText, repairedText, String.toList_ofList, List.splitOn_intercalate '\n' hclear hlines]
  exact readLines_repairedLines default 1 1 _

/-! ## One line -/

/-- What a line says: nothing, or the name of a setting and the text of its value, or else what is
wrong with its form. -/
def statement (raw : List Char) : Except Fault (Option (String × String)) :=
  let line := Text.trim raw
  if isSilent line then .ok none
  else
    match Text.after? "set ".toList line with
    | none => .error (.expectedSet (String.ofList line))
    | some assignment => (splitAssignment assignment).map some

/-- Reading a line is seeing what it says and then assigning that, if it says anything. Only the
second step looks at the settings, and it fails for what it assigns and not for what they are. -/
theorem readLine_eq_bind (settings : Settings) (raw : List Char) :
    settings.readLine raw =
      (statement raw).bind fun said =>
        match said with
        | none => .ok settings
        | some (name, text) => settings.assign name text := by
  rw [readLine, statement]
  dsimp only
  split
  · rfl
  · rcases Text.after? "set ".toList (Text.trim raw) with _ | assignment
    · rfl
    · dsimp only
      rcases splitAssignment assignment with fault | ⟨name, text⟩
      · rfl
      · rfl

/-- What is wrong with a line. -/
def lineFault? (raw : List Char) : Option Fault :=
  match default.readLine raw with
  | .ok _ => none
  | .error fault => some fault

/-- What is wrong with an assignment is wrong with it whatever the settings. -/
theorem assign_error_congr {settings : Settings} {name text : String} {fault : Fault}
    (h : settings.assign name text = .error fault) (other : Settings) :
    other.assign name text = .error fault := by
  rw [assign_eq_map, map_eq_error_iff] at h ⊢
  exact h

/-- What is wrong with a line is wrong with it whatever the settings. What it says is read without
them, and an assignment fails for its text. -/
theorem readLine_error_congr {settings : Settings} {raw : List Char} {fault : Fault}
    (h : settings.readLine raw = .error fault) (other : Settings) :
    other.readLine raw = .error fault := by
  rw [readLine_eq_bind] at h ⊢
  rcases bind_eq_error_iff.1 h with hwrong | ⟨said, hsaid, hassign⟩
  · exact bind_eq_error_iff.2 (.inl hwrong)
  · refine bind_eq_error_iff.2 (.inr ⟨said, hsaid, ?_⟩)
    rcases said with _ | ⟨name, text⟩
    · exact absurd hassign (by simp)
    · exact assign_error_congr hassign other

/-- So it has a fault for some settings exactly if it has that fault by itself. -/
theorem readLine_eq_error_iff {settings : Settings} {raw : List Char} {fault : Fault} :
    settings.readLine raw = .error fault ↔ lineFault? raw = some fault := by
  rw [lineFault?]
  constructor
  · intro h
    rw [readLine_error_congr h]
  · intro h
    rcases hline : default.readLine raw with wrong | next
    · rw [hline] at h
      obtain rfl := Option.some.inj h
      exact readLine_error_congr hline settings
    · rw [hline] at h
      exact absurd h (by simp)

/-- And it has none if it can be read for some settings. -/
theorem lineFault?_of_ok {settings next : Settings} {raw : List Char}
    (h : settings.readLine raw = .ok next) : lineFault? raw = none := by
  rw [Option.eq_none_iff_forall_ne_some]
  intro fault hfault
  rw [readLine_eq_error_iff.2 hfault] at h
  exact absurd h (by simp)

/-! ## The faults of a file -/

/-- A fault with the number of its line. -/
def numberedFault? (numbered : List Char × Nat) : Option LineFault :=
  (lineFault? numbered.1).map (LineFault.mk numbered.2)

/-- The faults of lines are those of the single lines, with the numbers of the lines. The settings
have gone from this statement, though they are carried along in the reading. -/
theorem readLines_faults (settings : Settings) (number : Nat) (lines : List (List Char)) :
    (settings.readLines number lines).2 = (lines.zipIdx number).filterMap numberedFault? := by
  -- A line that is read changes the settings for those behind it, but not what is wrong with them.
  -- the number is that of the first of the lines that are left
  induction lines generalizing settings number with
  | nil => rfl
  | cons line rest ih =>
    rw [readLines, List.zipIdx_cons]
    rcases hline : settings.readLine line with fault | next
    · have hfault : numberedFault? (line, number) = some ⟨number, fault⟩ := by
        rw [numberedFault?, readLine_eq_error_iff.1 hline]
        rfl
      rw [List.filterMap_cons_some hfault, ← ih settings]
    · have hnone : numberedFault? (line, number) = none := by
        rw [numberedFault?, lineFault?_of_ok hline]
        rfl
      rw [List.filterMap_cons_none hnone, ← ih next]

/-- The lines of a file. -/
def fileLines (text : String) : List (List Char) := text.toList.splitOn '\n'

/-- The faults of a file are those of its lines, counted from one. -/
theorem ofText_faults (text : String) :
    (ofText text).2 = ((fileLines text).zipIdx 1).filterMap numberedFault? :=
  readLines_faults default 1 _

/-- A fault is reported with a number exactly if the line with this number has it. Lines are counted
from one, and each of them is in the report once or not at all. -/
theorem mem_ofText_faults_iff {text : String} {number : Nat} {fault : Fault} :
    ⟨number, fault⟩ ∈ (ofText text).2 ↔
      ∃ index line, number = index + 1 ∧ (fileLines text)[index]? = some line ∧
        lineFault? line = some fault := by
  rw [ofText_faults, List.mem_filterMap]
  constructor
  · rintro ⟨⟨line, place⟩, hmem, hfault⟩
    obtain ⟨found, hfound, heq⟩ := Option.map_eq_some_iff.1 hfault
    obtain ⟨rfl, rfl⟩ := LineFault.mk.inj heq
    obtain ⟨hplace, hline⟩ := List.mk_mem_zipIdx_iff_le_and_getElem?_sub.1 hmem
    exact ⟨place - 1, line, by omega, hline, hfound⟩
  · rintro ⟨index, line, rfl, hline, hfault⟩
    refine ⟨(line, index + 1), ?_, ?_⟩
    · rw [List.mk_mem_zipIdx_iff_le_and_getElem?_sub, Nat.add_sub_cancel]
      exact ⟨Nat.le_add_left 1 index, hline⟩
    · rw [numberedFault?, hfault]
      rfl

theorem pairwise_zipIdx {α : Type} (items : List α) (start : Nat) :
    (items.zipIdx start).Pairwise fun a b => a.2 < b.2 := by
  have hrange : ((items.zipIdx start).map Prod.snd).Pairwise (· < ·) := by
    rw [List.zipIdx_map_snd]
    exact List.pairwise_lt_range'
  exact List.pairwise_map.1 hrange

/-- The numbers in a report increase, so a line is reported once at most. -/
theorem ofText_faults_increasing (text : String) :
    ((ofText text).2.map LineFault.line).Pairwise (· < ·) := by
  rw [ofText_faults, List.pairwise_map, List.pairwise_filterMap]
  refine (pairwise_zipIdx _ _).imp fun {a b} hlt f hf g hg => ?_
  obtain ⟨-, -, rfl⟩ := Option.map_eq_some_iff.1 hf
  obtain ⟨-, -, rfl⟩ := Option.map_eq_some_iff.1 hg
  exact hlt

/-- A line is a file with its faults. -/
theorem ofText_line {line : List Char} (h : '\n' ∉ line) (fault : Fault) :
    (ofText (String.ofList line)).2 = [⟨1, fault⟩] ↔ lineFault? line = some fault := by
  have hlines : fileLines (String.ofList line) = [line] := by
    rw [fileLines, String.toList_ofList, List.splitOn_eq_singleton h]
  rw [ofText_faults, hlines, List.zipIdx_singleton]
  rcases hfault : lineFault? line with _ | found
  · simp [numberedFault?, hfault]
  · simp [numberedFault?, hfault]

/-! ## The lines that are not reported -/

/-- The lines of a file, with empty ones in the place of those that are reported. -/
def unreportedLines (text : String) : List (List Char) :=
  ((fileLines text).zipIdx 1).map fun (line, number) =>
    if number ∈ (ofText text).2.map LineFault.line then [] else line

/-- A file with empty lines in the place of those that are reported. -/
def withoutReported (text : String) : String :=
  String.ofList (['\n'].intercalate (unreportedLines text))

/-- A file is repaired line by line. -/
theorem repairedLines_eq_map (settings : Settings) (lines : List (List Char)) :
    settings.repairedLines lines =
      lines.map fun line => if (lineFault? line).isSome then [] else line := by
  induction lines generalizing settings with
  | nil => rfl
  | cons line rest ih =>
    rw [repairedLines, List.map_cons]
    rcases hline : settings.readLine line with fault | next
    · dsimp only
      rw [readLine_eq_error_iff.1 hline, ih]
      rfl
    · dsimp only
      rw [lineFault?_of_ok hline, ih]
      rfl

/-- To be reported and to be wrong is the same. So a file can be repaired from its report alone, by
leaving out the lines whose numbers are in it. -/
theorem unreportedLines_eq_repairedLines (text : String) :
    unreportedLines text = default.repairedLines (fileLines text) := by
  have hfst : fileLines text = ((fileLines text).zipIdx 1).map Prod.fst :=
    (List.zipIdx_map_fst 1 _).symm
  rw [repairedLines_eq_map, unreportedLines]
  conv_rhs => rw [hfst, List.map_map]
  refine List.map_congr_left fun ⟨line, number⟩ hmem => ?_
  obtain ⟨hnumber, hline⟩ := List.mk_mem_zipIdx_iff_le_and_getElem?_sub.1 hmem
  -- No two lines have one number, so a number that is reported is reported for this line.
  refine if_congr ?_ rfl rfl
  dsimp only [Function.comp_apply]
  rw [List.mem_map, Option.isSome_iff_exists]
  constructor
  · rintro ⟨⟨_, fault⟩, hfault, rfl⟩
    obtain ⟨index, found, hindex, hfound, hwrong⟩ := mem_ofText_faults_iff.1 hfault
    dsimp only at hindex hline
    rw [hindex, Nat.add_sub_cancel, hfound] at hline
    obtain rfl := Option.some.inj hline
    exact ⟨fault, hwrong⟩
  · rintro ⟨fault, hwrong⟩
    have hreported : (⟨number, fault⟩ : LineFault) ∈ (ofText text).2 :=
      mem_ofText_faults_iff.2 ⟨number - 1, line, by omega, hline, hwrong⟩
    exact ⟨_, hreported, rfl⟩

/-- **Without the lines that are reported a file has the same settings** and nothing is reported any
more. -/
theorem ofText_withoutReported (text : String) :
    ofText (withoutReported text) = ((ofText text).1, []) := by
  rw [withoutReported, unreportedLines_eq_repairedLines]
  exact ofText_repairedText text

/-! ## What is assigned -/

/-- What a line assigns. -/
def assignment? (raw : List Char) : Option (String × String) := (statement raw).toOption.join

/-- What the lines of a file assign that are not reported. -/
def accepted (text : String) : List (String × String) :=
  (unreportedLines text).filterMap assignment?

/-- Makes assignments one after the other, all of them or none. -/
def assignAll (settings : Settings) (assignments : List (String × String)) :
    Except Fault Settings :=
  assignments.foldlM (fun settings (name, text) => settings.assign name text) settings

/-- Assignments succeed one after the other if the first one does and then the others do. -/
theorem assignAll_cons_eq_ok_iff {settings final : Settings} {name text : String}
    {rest : List (String × String)} :
    settings.assignAll ((name, text) :: rest) = .ok final ↔
      ∃ next, settings.assign name text = .ok next ∧ next.assignAll rest = .ok final :=
  bind_eq_ok_iff

/-- Lines without faults are their assignments. Blank lines and comments assign nothing, and every
other line assigns one value. -/
theorem assignAll_of_no_faults {settings : Settings} {number : Nat} {lines : List (List Char)}
    (h : (settings.readLines number lines).2 = []) :
    settings.assignAll (lines.filterMap assignment?) =
      .ok (settings.readLines number lines).1 := by
  induction lines generalizing settings number with
  | nil => rfl
  | cons line rest ih =>
    rw [readLines] at h ⊢
    rcases hline : settings.readLine line with fault | next
    · rw [hline] at h
      exact absurd h (List.cons_ne_nil _ _)
    · rw [hline] at h
      dsimp only at h ⊢
      rw [readLine_eq_bind] at hline
      obtain ⟨said, hsaid, hassign⟩ := bind_eq_ok_iff.1 hline
      -- the line says nothing, or it is one assignment
      rcases said with _ | ⟨name, text⟩
      · obtain rfl : settings = next := Except.ok.inj hassign
        have hnone : assignment? line = none := by rw [assignment?, hsaid]; rfl
        rw [List.filterMap_cons_none hnone]
        exact ih h
      · have hsome : assignment? line = some (name, text) := by rw [assignment?, hsaid]; rfl
        rw [List.filterMap_cons_some hsome]
        exact assignAll_cons_eq_ok_iff.2 ⟨next, hassign, ih h⟩

/-- The settings of a file are what the lines without faults assign, one after the other, beginning
from the default. -/
theorem assignAll_accepted (text : String) :
    default.assignAll (accepted text) = .ok (ofText text).1 := by
  have hlines := readLines_repairedLines default 1 1 (fileLines text)
  rw [accepted, unreportedLines_eq_repairedLines, assignAll_of_no_faults (by rw [hlines]), hlines]
  rfl

/-- A setting that is not assigned is as it was. -/
theorem get_of_assignAll {settings final : Settings} {assignments : List (String × String)}
    (h : settings.assignAll assignments = .ok final) {field : Field}
    (hother : ∀ assignment ∈ assignments, assignment.1 ≠ field.name) :
    field.get final = field.get settings := by
  induction assignments generalizing settings with
  | nil =>
    obtain rfl := Except.ok.inj h
    rfl
  | cons first rest ih =>
    obtain ⟨name, text⟩ := first
    obtain ⟨next, hassign, hrest⟩ := assignAll_cons_eq_ok_iff.1 h
    obtain ⟨written, hname, -, hothers⟩ := get_of_assign hassign
    have hne : field ≠ written := by
      rintro rfl
      exact hother (name, text) List.mem_cons_self hname.symm
    rw [ih hrest fun assignment hmem => hother assignment (List.mem_cons_of_mem _ hmem),
      hothers field hne]

/-- A setting is what it is assigned last. What comes after is for other settings, and no assignment
changes a setting that it does not name. -/
theorem get_of_assignAll_last {settings final : Settings} {field : Field} {text : String}
    {before after : List (String × String)}
    (h : settings.assignAll (before ++ (field.name, text) :: after) = .ok final)
    (hother : ∀ assignment ∈ after, assignment.1 ≠ field.name) :
    field.read text = .ok (field.get final) := by
  -- What is assigned before only makes other settings to begin with, and the conclusion names none.
  induction before generalizing settings with
  | nil =>
    obtain ⟨next, hassign, hrest⟩ := assignAll_cons_eq_ok_iff.1 h
    obtain ⟨written, hname, hread, -⟩ := get_of_assign hassign
    obtain rfl := Field.name_injective hname
    rw [get_of_assignAll hrest hother, hread]
  | cons first before ih =>
    obtain ⟨name, other⟩ := first
    obtain ⟨next, -, hrest⟩ := assignAll_cons_eq_ok_iff.1 h
    exact ih hrest

/-! ## Files -/

/-- A file is read line by line: every line is reported or not for itself alone, the reports are in
the order of the lines, lines that are reported count for nothing, and all others are assignments,
of which the last one for a setting is what it is. -/
structure IsReadByLine (text : String) : Prop where
  reported_iff : ∀ number fault, ⟨number, fault⟩ ∈ (ofText text).2 ↔
    ∃ index line, number = index + 1 ∧ (fileLines text)[index]? = some line ∧
      (ofText (String.ofList line)).2 = [⟨1, fault⟩]
  increasing : ((ofText text).2.map LineFault.line).Pairwise (· < ·)
  skipped : ofText (withoutReported text) = ((ofText text).1, [])
  applied : default.assignAll (accepted text) = .ok (ofText text).1
  last_wins : ∀ (field : Field) before value after,
    accepted text = before ++ (field.name, value) :: after →
      (∀ assignment ∈ after, assignment.1 ≠ field.name) →
        field.read value = .ok (field.get (ofText text).1)
  others_default : ∀ field : Field, (∀ assignment ∈ accepted text, assignment.1 ≠ field.name) →
    field.get (ofText text).1 = field.get default

/-- **Every settings file is read line by line.** What is reported of a line depends on the line
alone, the reports come in the order of the lines, and without the reported lines the file makes the
same settings and no reports. Each setting is what the last accepted line for it says, or what it is
without a file. -/
theorem isReadByLine (text : String) : IsReadByLine text where
  reported_iff number fault := by
    rw [mem_ofText_faults_iff]
    refine exists_congr fun index => exists_congr fun line => and_congr_right fun _ =>
      and_congr_right fun hline => (ofText_line ?_ fault).symm
    exact Text.not_mem_of_mem_splitOn (List.mem_of_getElem? hline)
  increasing := ofText_faults_increasing text
  skipped := ofText_withoutReported text
  applied := assignAll_accepted text
  last_wins field before value after haccepted hother := by
    have h := assignAll_accepted text
    rw [haccepted] at h
    exact get_of_assignAll_last h hother
  others_default field hother := get_of_assignAll (assignAll_accepted text) hother

end Settings

end CanvasScript
