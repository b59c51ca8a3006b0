/-
Interpreting scripts for targets, one call after the other.

A call looks up its target before anything else and starts cold: no binding, no count of drawn
lines and no command comes from an earlier call. So all that two calls can share is the surface of
their target, and there the second only adds to what the first has drawn. A call for a target that
is not there changes nothing, and no call makes a target appear or disappear.

What a single call does to one target is said for surfaces of any kind. Sequences of calls are
followed on recordings, where the whole history of a target is what it shows. There the comparison
is with `coldCalls`, the draw calls in the run of a fresh interpreter. No surface and no target has
a part in it, so that it would not do for a call to draw nothing, or to draw on another surface.
-/
import CanvasScript.Script.Interpreter

set_option autoImplicit false

namespace CanvasScript

/-! ## Cold runs -/

/-- The draw calls in the run of a fresh interpreter. -/
def coldCalls (source : String) : List DrawCall := (Interpreter.fresh.run source).2.1.calls

/-- What a fresh interpreter counts. -/
def coldReport (source : String) : Report := (Interpreter.fresh.run source).2.2

/-! ## One call -/

section

variable {σ : Type} [Surface σ]

/-- The surface of the target takes the draw calls of a cold run, and no other surface takes
any. -/
theorem get?_targets_interpret (targets : Targets σ) (target source other : String) :
    (interpret targets target source).targets.get? other =
      if other = target then
        (targets.get? target).map fun surface => (drawAll surface (coldCalls source)).1
      else targets.get? other := by
  rw [interpret]
  rcases hregistered : targets.get? target with _ | surface
  · by_cases hsame : other = target
    · rw [if_pos hsame, hsame]
      exact hregistered
    · rw [if_neg hsame]
  · dsimp only
    rw [Keyed.get?_insert]
    rfl

/-- Whether a call succeeds depends on its target alone, and what it reports on its script
alone. -/
theorem outcome_interpret (targets : Targets σ) (target source : String) :
    (interpret targets target source).outcome =
      if targets.contains target then .ok (coldReport source)
      else .error (.surfaceUnavailable target) := by
  rw [interpret, Keyed.contains]
  rcases targets.get? target with _ | surface
  · rfl
  · rfl

/-- The same targets are there after a call. -/
theorem keys_targets_interpret (targets : Targets σ) (target source : String) :
    (interpret targets target source).targets.keys = targets.keys := by
  rw [interpret]
  rcases hregistered : targets.get? target with _ | surface
  · rfl
  · -- the surface goes back under a name that is there already
    have hpresent : target ∈ targets.keys :=
      List.mem_map.2 ⟨(target, surface), Keyed.mem_entries_of_get? hregistered, rfl⟩
    dsimp only
    rw [Keyed.keys_insert, if_pos hpresent]

end

/-- What a call does to targets that are recordings. -/
structure Isolated (before : Targets Recording) (target source : String)
    (call : Interpretation Recording) : Prop where
  /-- Without its target a call fails, and changes nothing. -/
  unregistered : before.get? target = none →
    call.outcome = .error (.surfaceUnavailable target) ∧ call.targets = before
  /-- With it a call succeeds, whatever the target has recorded, and adds a cold run to that. So an
  empty recording holds a cold run afterwards, and nothing else. -/
  registered : ∀ record, before.get? target = some record →
    call.outcome = .ok (coldReport source) ∧
      call.targets.get? target = some ⟨record.calls ++ coldCalls source⟩
  others : ∀ other, other ≠ target → call.targets.get? other = before.get? other
  keys_eq : call.targets.keys = before.keys

theorem isolated_interpret (before : Targets Recording) (target source : String) :
    Isolated before target source (interpret before target source) := by
  refine ⟨?_, ?_, ?_, keys_targets_interpret before target source⟩
  · intro hnone
    rw [interpret, hnone]
    exact ⟨rfl, rfl⟩
  · intro record hrecord
    have hpresent : before.contains target = true := by
      rw [Keyed.contains, hrecord]
      rfl
    refine ⟨?_, ?_⟩
    · rw [outcome_interpret, if_pos hpresent]
    · rw [get?_targets_interpret, if_pos rfl, hrecord, Option.map_some, Recording.drawAll_eq]
  · intro other hother
    rw [get?_targets_interpret, if_neg hother]

/-! ## Calls one after the other -/

/-- A script and the target that it is interpreted for. -/
structure Request where
  target : String
  source : String

/-- Interprets scripts one after the other. What each call returns is listed in order. -/
def interpretAll : Targets Recording → List Request →
    Targets Recording × List (Except ScriptError Report)
  | targets, [] => (targets, [])
  | targets, request :: more =>
    let call := interpret targets request.target request.source
    let (last, later) := interpretAll call.targets more
    (last, call.outcome :: later)

theorem interpretAll_cons (targets : Targets Recording) (request : Request)
    (more : List Request) :
    interpretAll targets (request :: more) =
      let call := interpret targets request.target request.source
      ((interpretAll call.targets more).1, call.outcome :: (interpretAll call.targets more).2) :=
  rfl

/-- The draw calls of cold runs of the scripts that are for a target. -/
def callsFor (target : String) (requests : List Request) : List DrawCall :=
  (requests.filter fun request => request.target = target).flatMap fun request =>
    coldCalls request.source

theorem callsFor_cons (target : String) (request : Request) (more : List Request) :
    callsFor target (request :: more) =
      if request.target = target then
        coldCalls request.source ++ callsFor target more
      else callsFor target more := by
  by_cases hfor : request.target = target
  · simp [callsFor, hfor]
  · simp [callsFor, hfor]

/-- What calls one after the other return, and what targets have recorded after them. -/
structure Served (targets : Targets Recording) (requests : List Request)
    (after : Targets Recording) (outcomes : List (Except ScriptError Report)) : Prop where
  /-- A call fails exactly when its target was not there to begin with. -/
  outcomes_eq : outcomes = requests.map fun request =>
    if targets.contains request.target then .ok (coldReport request.source)
    else .error (.surfaceUnavailable request.target)
  /-- A target records the cold runs of the scripts that are for it, and those only. -/
  records : ∀ target, after.get? target = (targets.get? target).map fun record =>
    ⟨record.calls ++ callsFor target requests⟩
  keys_eq : after.keys = targets.keys

/-- A target is there after a call exactly when it was there before. -/
theorem contains_targets_interpret (targets : Targets Recording) (target source other : String) :
    (interpret targets target source).targets.contains other = targets.contains other := by
  rw [Keyed.contains, Keyed.contains, get?_targets_interpret]
  by_cases hsame : other = target
  · rw [if_pos hsame, hsame, Option.isSome_map]
  · rw [if_neg hsame]

theorem served_interpretAll (targets : Targets Recording) (requests : List Request) :
    Served targets requests (interpretAll targets requests).1
      (interpretAll targets requests).2 := by
  -- the first call leaves targets of the same names, and the induction goes on from these
  induction requests generalizing targets with
  | nil =>
    refine ⟨rfl, ?_, rfl⟩
    intro target
    simp [interpretAll, callsFor]
  | cons request more ih =>
    obtain ⟨houtcomes, hrecords, hkeys⟩ :=
      ih (interpret targets request.target request.source).targets
    refine ⟨?_, ?_, ?_⟩
    · rw [interpretAll_cons, List.map_cons]
      dsimp only
      rw [outcome_interpret, houtcomes]
      simp only [contains_targets_interpret]
    · intro target
      rw [interpretAll_cons]
      dsimp only
      -- the first call adds to its own target, the later ones to what it leaves
      rw [hrecords, get?_targets_interpret, callsFor_cons]
      by_cases hfor : request.target = target
      · rw [if_pos hfor.symm, if_pos hfor, Option.map_map, hfor]
        simp only [Function.comp_def, Recording.drawAll_eq, List.append_assoc]
      · rw [if_neg (Ne.symm hfor), if_neg hfor]
    · rw [interpretAll_cons, ← keys_targets_interpret targets request.target request.source]
      exact hkeys

/-- **A call changes the recording of its own target and no other**, whatever calls came before it.
What it adds there is what the script draws in a fresh interpreter, so no call can be told from the
first one by what it adds. -/
theorem interpret_isolated (targets : Targets Recording) (earlier : List Request)
    (target source : String) :
    let (before, outcomes) := interpretAll targets earlier
    Served targets earlier before outcomes ∧
      Isolated before target source (interpret before target source) :=
  ⟨served_interpretAll targets earlier, isolated_interpret _ target source⟩

end CanvasScript
