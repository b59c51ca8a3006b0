/-
Settings one by one.

There are five settings. Each has a name, a place of its own, and a way to read its value from a
text, and the settings that there are have no part in the reading. So an assignment is a reading and
then a writing to one place: whether it fails is told by its name and its text alone, and where it
writes is told by its name.

A function that gives back new settings or a fault cannot leave anything half done, so that a failed
assignment changes nothing is no statement about it. It is one about `update`, the same assignment
made in place, which keeps whatever has been written before it fails. `reachable_settings` says of
all settings that come about by reading a file and then updating that they can be drawn with and
that every further update is made as a whole or not at all, without regard to other settings.

What an assignment reads and where it writes are kept apart in `Write`. The order of two assignments
can then be looked at without the texts: two writes to different places can be exchanged, and a
write that was refused is none. The definitions of the library do not know of this. `assign_eq_map`
says that they do the same, and all claims on assignments go through it.
-/
import CanvasScript.Proofs.UsableSettings

set_option autoImplicit false

namespace CanvasScript

namespace Settings

/-! ## The five settings -/

inductive Field where
  | surface
  | cellWidth
  | lineHeight
  | textColor
  | errorColor
  deriving DecidableEq

namespace Field

/-- The name that a setting goes by in files. -/
def name : Field → String
  | .surface => "surface"
  | .cellWidth => "cell_width"
  | .lineHeight => "line_height"
  | .textColor => "text_color"
  | .errorColor => "error_color"

/-- What a setting can be set to. -/
def Value : Field → Type
  | .surface => String
  | .cellWidth => Binary64
  | .lineHeight => Binary64
  | .textColor => Option Color
  | .errorColor => Option Color

def get : (field : Field) → Settings → field.Value
  | .surface, settings => settings.surface
  | .cellWidth, settings => settings.cellWidth
  | .lineHeight, settings => settings.lineHeight
  | .textColor, settings => settings.textColor
  | .errorColor, settings => settings.errorColor

def put : (field : Field) → field.Value → Settings → Settings
  | .surface, v, settings => { settings with surface := v }
  | .cellWidth, v, settings => { settings with cellWidth := v }
  | .lineHeight, v, settings => { settings with lineHeight := v }
  | .textColor, v, settings => { settings with textColor := v }
  | .errorColor, v, settings => { settings with errorColor := v }

/-- Reads a value for a setting. -/
def read : (field : Field) → String → Except Fault field.Value
  | .surface, text => if text = "" then .error .emptySurface else .ok text
  | .cellWidth, text => readSize cellWidth.name text
  | .lineHeight, text => readSize lineHeight.name text
  | .textColor, text => readColor text
  | .errorColor, text => readColor text

/-- The setting of a name. -/
def named? (name : String) : Option Field :=
  [surface, cellWidth, lineHeight, textColor, errorColor].find? fun field => field.name == name

/-- No two settings have one name. -/
theorem name_injective : Function.Injective name := by
  intro field other h
  cases field <;> cases other <;> first | rfl | exact absurd h (by decide)

/-- A setting is found by its name. -/
theorem named?_name (field : Field) : named? field.name = some field := by
  cases field <;> decide

theorem name_of_named? {name : String} {field : Field} (h : named? name = some field) :
    field.name = name := by
  simpa using List.find?_some h

/-- What has been written to a place is there. -/
@[simp] theorem get_put (field : Field) (v : field.Value) (settings : Settings) :
    field.get (field.put v settings) = v := by
  cases field <;> rfl

theorem get_put_of_ne {field other : Field} (h : other ≠ field) (v : field.Value)
    (settings : Settings) : other.get (field.put v settings) = other.get settings := by
  cases field <;> cases other <;> first | rfl | exact absurd rfl h

/-- Writes to two places can be made in either order. -/
theorem put_comm {field other : Field} (h : other ≠ field) (v : field.Value) (w : other.Value)
    (settings : Settings) :
    other.put w (field.put v settings) = field.put v (other.put w settings) := by
  cases field <;> cases other <;> first | rfl | exact absurd rfl h

end Field

/-! ## Assignments as readings and writings -/

/-- A setting and the value that it is set to. -/
structure Write where
  field : Field
  value : field.Value

namespace Write

/-- The settings with a value written to its place. -/
def made (w : Write) (settings : Settings) : Settings := w.field.put w.value settings

/-- What an assignment writes, whatever there is. -/
def read (name text : String) : Except Fault Write :=
  match Field.named? name with
  | none => .error (.unknownSetting name)
  | some field => (field.read text).map (Write.mk field)

/-- A write goes to the place with the name that was given, and what it writes is read from the text
that was given. The settings have no part in it. -/
theorem name_of_read {name text : String} {w : Write} (h : read name text = .ok w) :
    w.field.name = name ∧ w.field.read text = .ok w.value := by
  rw [read] at h
  split at h
  · exact absurd h (by simp)
  · rename_i field hfield
    obtain ⟨v, hv, rfl⟩ := map_eq_ok_iff.1 h
    exact ⟨Field.name_of_named? hfield, hv⟩

/-- Two writes that were read can be made in either order, if they are for different settings. -/
theorem made_comm {w other : Write} (h : other.field ≠ w.field) (settings : Settings) :
    other.made (w.made settings) = w.made (other.made settings) :=
  Field.put_comm h _ _ settings

end Write

/-- An assignment to one of the five names reads the text as a value of that setting, and then
writes it to its place. -/
theorem assign_name (settings : Settings) (field : Field) (text : String) :
    settings.assign field.name text =
      (field.read text).map fun v => field.put v settings := by
  cases field with
  | surface =>
    change (if text = "" then _ else _) = _
    rw [Field.read]
    split
    · rfl
    · rfl
  | cellWidth => rfl
  | lineHeight => rfl
  | textColor => rfl
  | errorColor => rfl

/-- An assignment to any other name fails, whatever its text is. -/
theorem assign_of_unknown (settings : Settings) {name : String}
    (h : ∀ field : Field, field.name ≠ name) (text : String) :
    settings.assign name text = .error (.unknownSetting name) := by
  have hsurface : name ≠ "surface" := (h .surface).symm
  have hcellWidth : name ≠ "cell_width" := (h .cellWidth).symm
  have hlineHeight : name ≠ "line_height" := (h .lineHeight).symm
  have htextColor : name ≠ "text_color" := (h .textColor).symm
  have herrorColor : name ≠ "error_color" := (h .errorColor).symm
  rw [assign, if_neg hsurface, if_neg hcellWidth, if_neg hlineHeight, if_neg htextColor,
    if_neg herrorColor]

/-- **An assignment reads and then writes.** What is read does not depend on the settings, and
writing cannot fail. -/
theorem assign_eq_map (settings : Settings) (name text : String) :
    settings.assign name text = (Write.read name text).map fun w => w.made settings := by
  rcases hfield : Field.named? name with _ | field
  · rw [Write.read, hfield, assign_of_unknown]
    · rfl
    · rintro field rfl
      rw [Field.named?_name] at hfield
      exact absurd hfield (by simp)
  · obtain rfl := Field.name_of_named? hfield
    rw [Write.read, hfield, assign_name]
    dsimp only
    rcases field.read text with fault | v
    · rfl
    · rfl

/-! ## Assignments in place -/

/-- Makes an assignment in place. -/
def update (name text : String) : ExceptT Fault (StateM Settings) Unit := do
  match Field.named? name with
  | none => throw (.unknownSetting name)
  | some field =>
    let v ← MonadExcept.ofExcept (field.read text)
    modify (field.put v)

/-- Makes assignments in place, one after the other, and says of each whether it failed. -/
def updateAll (updates : List (String × String)) : StateM Settings (List (Except Fault Unit)) :=
  updates.mapM fun (name, text) => (update name text).run

/-- An update leaves the settings of a successful assignment, or those that were there before a
failed one. -/
theorem run_update (name text : String) (settings : Settings) :
    (update name text).run.run settings =
      match settings.assign name text with
      | .ok next => (.ok (), next)
      | .error fault => (.error fault, settings) := by
  rw [assign_eq_map, update, Write.read]
  rcases Field.named? name with _ | field
  · rfl
  · dsimp only
    rcases field.read text with fault | v
    · rfl
    · rfl

/-- Updates are made one after the other, and a failed one does not keep the next from being made.
-/
theorem run_updateAll_cons (name text : String) (rest : List (String × String))
    (settings : Settings) :
    (updateAll ((name, text) :: rest)).run settings =
      let first := (update name text).run.run settings
      let others := (updateAll rest).run first.2
      (first.1 :: others.1, others.2) := by
  rw [updateAll, List.mapM_cons]
  rfl

/-- A failed update leaves everything as it was. -/
theorem update_of_error {settings : Settings} {name text : String} {fault : Fault}
    (h : settings.assign name text = .error fault) :
    (update name text).run.run settings = (.error fault, settings) := by
  rw [run_update, h]

/-- A successful update leaves what the assignment gives. -/
theorem update_of_ok {settings next : Settings} {name text : String}
    (h : settings.assign name text = .ok next) :
    (update name text).run.run settings = (.ok (), next) := by
  rw [run_update, h]

/-- The settings behind a reading: with its value written, or as they are if it failed. -/
def settle (settings : Settings) : Except Fault Write → Settings
  | .ok w => w.made settings
  | .error _ => settings

/-- An update fails or not by what is read, and settles it. -/
theorem run_update_eq_settle (name text : String) (settings : Settings) :
    (update name text).run.run settings =
      ((Write.read name text).map fun _ => (), settings.settle (Write.read name text)) := by
  rw [run_update, assign_eq_map]
  rcases Write.read name text with fault | w
  · rfl
  · rfl

/-- Two updates settle what is read for the first, and then what is read for the second. Neither
reading sees what the other has written. -/
theorem run_updateAll_pair (name text name' text' : String) (settings : Settings) :
    (updateAll [(name, text), (name', text')]).run settings =
      ([(Write.read name text).map fun _ => (), (Write.read name' text').map fun _ => ()],
        (settings.settle (Write.read name text)).settle (Write.read name' text')) := by
  simp only [run_updateAll_cons, run_update_eq_settle]
  rfl

/-! ## What updates keep -/

/-- An update keeps settings usable. If it fails they are the same, and if not, its value has been
checked before it was written. -/
theorem IsUsable.update {settings : Settings} (husable : settings.IsUsable) (name text : String) :
    ((update name text).run.run settings).2.IsUsable := by
  rw [run_update]
  rcases hassign : settings.assign name text with fault | next
  · exact husable
  · exact husable.assign hassign

/-- And so do any number of updates. -/
theorem IsUsable.updateAll {settings : Settings} (husable : settings.IsUsable)
    (updates : List (String × String)) : ((updateAll updates).run settings).2.IsUsable := by
  induction updates generalizing settings with
  | nil => exact husable
  | cons first rest ih =>
    obtain ⟨name, text⟩ := first
    rw [run_updateAll_cons]
    exact ih (husable.update name text)

/-- A size can be divided by when it is finite and above zero. Both are needed, since a quotient by
zero or by an infinity would not be on any row. -/
theorem isUsableSize_iff {x : Binary64} :
    isUsableSize x = true ↔ x.isFinite = true ∧ Binary64.zero.compare? x = some .lt := by
  cases x with
  | nan => decide
  | infinity negative => cases negative <;> decide
  | finite negative magnitude =>
    have hcompare : Binary64.zero.compare? (.finite negative magnitude) =
        some (compare 0 (if negative then -(magnitude.val : Int) else magnitude.val)) := rfl
    rw [hcompare, Option.some.injEq, Int.compare_eq_lt]
    cases negative with
    | true => simp [isUsableSize, Binary64.isFinite, Binary64.isNegative]
    | false => simp [isUsableSize, Binary64.isFinite, Binary64.isNegative, Binary64.isZero]

/-! ## Updates of settings that are there -/

/-- The settings can be drawn with: there is a surface to look for, and both sizes can be divided
by. -/
structure IsDrawable (settings : Settings) : Prop where
  surface_ne : settings.surface ≠ ""
  cellWidth_finite : settings.cellWidth.isFinite = true
  cellWidth_pos : Binary64.zero.compare? settings.cellWidth = some .lt
  lineHeight_finite : settings.lineHeight.isFinite = true
  lineHeight_pos : Binary64.zero.compare? settings.lineHeight = some .lt

/-- Usable settings have what drawing needs of them: sizes that one can divide by, and a name for
the surface. -/
theorem IsUsable.isDrawable {settings : Settings} (h : settings.IsUsable) :
    settings.IsDrawable := by
  obtain ⟨hwidth, hwidth'⟩ := isUsableSize_iff.1 h.cellWidth
  obtain ⟨hheight, hheight'⟩ := isUsableSize_iff.1 h.lineHeight
  exact ⟨h.surface_ne, hwidth, hwidth', hheight, hheight'⟩

/-- An assignment to the settings can be made in place: it is made as a whole or not at all, it
touches only the setting that it names, and it does not matter whether another setting is assigned
before it or after it. -/
structure CanUpdate (settings : Settings) : Prop where
  failed : ∀ name text fault, settings.assign name text = .error fault →
    (update name text).run.run settings = (.error fault, settings)
  succeeded : ∀ name text next, settings.assign name text = .ok next →
    (update name text).run.run settings = (.ok (), next) ∧
      ∃ field : Field, field.name = name ∧ field.read text = .ok (field.get next) ∧
        ∀ other : Field, other ≠ field → other.get next = other.get settings
  swapped : ∀ name text name' text', name ≠ name' → ∃ outcome outcome' last,
    (updateAll [(name, text), (name', text')]).run settings = ([outcome, outcome'], last) ∧
      (updateAll [(name', text'), (name, text)]).run settings = ([outcome', outcome], last)

/-- What an assignment that succeeds has written is there, and nothing else is different. The
setting is the one with the given name, and its value is what the text is read as. -/
theorem get_of_assign {settings next : Settings} {name text : String}
    (h : settings.assign name text = .ok next) :
    ∃ field : Field, field.name = name ∧ field.read text = .ok (field.get next) ∧
      ∀ other : Field, other ≠ field → other.get next = other.get settings := by
  rw [assign_eq_map] at h
  obtain ⟨w, hw, rfl⟩ := map_eq_ok_iff.1 h
  obtain ⟨hname, hread⟩ := Write.name_of_read hw
  refine ⟨w.field, hname, ?_, fun other hother => Field.get_put_of_ne hother _ _⟩
  rw [hread, Write.made, Field.get_put]

/-- What is read for two settings is written to two places. So two updates of different settings can
be made in either order, whether they succeed or fail. -/
theorem settle_comm (settings : Settings) {name name' : String} (hne : name ≠ name')
    (text text' : String) :
    (settings.settle (Write.read name text)).settle (Write.read name' text') =
      (settings.settle (Write.read name' text')).settle (Write.read name text) := by
  rcases hfirst : Write.read name text with fault | w
  · rfl
  · rcases hsecond : Write.read name' text' with fault' | w'
    · rfl
    · have hfield : w'.field ≠ w.field := by
        intro hsame
        apply hne
        rw [← (Write.name_of_read hfirst).1, ← (Write.name_of_read hsecond).1, hsame]
      exact Write.made_comm hfield settings

/-- All that is said of further updates holds of all settings, not only of those that can be
reached. -/
theorem canUpdate (settings : Settings) : settings.CanUpdate where
  failed _ _ _ := update_of_error
  succeeded _ _ _ h := ⟨update_of_ok h, get_of_assign h⟩
  swapped name text name' text' hne := by
    refine ⟨_, _, _, run_updateAll_pair name text name' text' settings, ?_⟩
    rw [run_updateAll_pair, settle_comm settings hne]

/-- **Settings are always such that they can be drawn with and updated**, whatever was in their file
and whatever updates have been made since, successfully or not. -/
theorem reachable_settings (text : String) (updates : List (String × String)) :
    ((updateAll updates).run (ofText text).1).2.IsDrawable ∧
      ((updateAll updates).run (ofText text).1).2.CanUpdate :=
  ⟨((isUsable_ofText text).updateAll updates).isDrawable, canUpdate _⟩

end Settings

end CanvasScript
