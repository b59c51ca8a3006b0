/-
What executing lines comes to when the commands of the language are the only ones.

A line then does one of three things: it fails, it shows a text, or it binds a name and
takes some of the lines after it. Which of them depends on the line, on the lines after it
and on the bindings. It does not depend on the lines before it, although the brace index that
the command gets is made from all lines, nor on the index of the line. `effectOf` is that
function, and `executeLine_builtin` says that a line does exactly what its effect says.

A whole run is the list of the effects of its lines, which `effects` computes by a recursion
over the lines that remain, and `replay` makes the run out of that list again. What a run
leaves, draws and counts is therefore a matter of lists.
-/
import CanvasScript.Proofs.Gathering
import CanvasScript.Script.Interpreter

set_option autoImplicit false

namespace CanvasScript

/-! ## Bindings look at the lines after their own -/

namespace Builtin

/-- The literal of a binding is gathered from the lines behind it. Those in front of it have a part
in the brace index, but not in this. -/
theorem wholeLiteral_eq_fromRest (line : String) (lines : List String) (index : Nat)
    (value : List Char) :
    wholeLiteral ⟨line, lines, .ofLines lines, index⟩ value =
      if Literal.startsObject value then
        Gathered.fromRest (String.ofList value) line (lines.drop (index + 1))
      else .ok ⟨String.ofList value, 0⟩ := by
  rw [wholeLiteral]
  by_cases hobject : Literal.startsObject value = true
  · rw [if_pos hobject, if_pos hobject]
    exact Gathered.ofLines_eq_fromRest _ _ _ _
  · rw [if_neg hobject, if_neg hobject]

/-- A binding is read exactly when its pattern, its literal and its value are. This opens the chain
of the three once, so that what follows need not go through it again. -/
theorem readBinding_eq_ok_iff {input : CommandInput} {vars : Bindings} {name : String}
    {v : Value} {consumed : Nat} :
    readBinding input vars = .ok (name, v, consumed) ↔
      ∃ word value literal,
        Pattern.binding? input.line.toList = some (word, value) ∧
        wholeLiteral input value = .ok literal ∧
        Literal.readValue vars input.line literal.text.toList = .ok v ∧
        String.ofList word = name ∧ literal.consumed = consumed := by
  rw [readBinding]
  rcases hpattern : Pattern.binding? input.line.toList with _ | ⟨word, value⟩
  · simp
  · dsimp only
    constructor
    · intro h
      rcases hliteral : wholeLiteral input value with fault | literal
      · rw [hliteral] at h
        simp [Except.bind] at h
      · rw [hliteral] at h
        rcases hvalue : Literal.readValue vars input.line literal.text.toList with fault | w
        · simp [Except.bind, Except.map, hvalue] at h
        · simp only [Except.bind, Except.map, hvalue, Except.ok.injEq, Prod.mk.injEq] at h
          obtain ⟨rfl, rfl, rfl⟩ := h
          exact ⟨word, value, literal, rfl, hliteral, hvalue, rfl, rfl⟩
    · rintro ⟨word', value', literal, hsame, hliteral, hvalue, rfl, rfl⟩
      simp only [Option.some.injEq, Prod.mk.injEq] at hsame
      obtain ⟨rfl, rfl⟩ := hsame
      rw [hliteral]
      simp only [Except.bind, Except.map, hvalue]

end Builtin

/-! ## Effects -/

/-- What a line comes to. -/
inductive LineEffect where
  /-- It fails. -/
  | fails (fault : ScriptError)
  /-- It shows a text. -/
  | shows (text : String)
  /-- It binds a name and takes some of the lines after it. -/
  | binds (name : String) (v : Value) (consumed : Nat)

namespace LineEffect

/-- The lines taken after the line itself. -/
def consumed : LineEffect → Nat
  | .binds _ _ consumed => consumed
  | _ => 0

/-- The bindings afterwards. -/
def varsAfter (vars : Bindings) : LineEffect → Bindings
  | .binds name v _ => vars.insert name v
  | _ => vars

/-- The texts drawn, the error line included. -/
def drawn : LineEffect → List Emission
  | .fails fault => [errorLine fault]
  | .shows text => [⟨text, Color.text⟩]
  | .binds _ _ _ => []

def isFailure : LineEffect → Bool
  | .fails _ => true
  | _ => false

/-- What is logged after the line itself. -/
def events (index : Nat) : LineEffect → List Event
  | .fails fault => [.lineFailed index fault]
  | .shows _ => []
  | .binds name v consumed => [.bound name v.kind consumed]

/-- All of it together. -/
def result (index : Nat) (line : String) (vars : Bindings) (effect : LineEffect) : LineResult :=
  ⟨effect.drawn, effect.varsAfter vars, .dispatched index line :: effect.events index,
    effect.consumed, effect.isFailure⟩

end LineEffect

/-- A line as the first of the lines from it on. -/
def CommandInput.front (line : String) (rest : List String) : CommandInput :=
  ⟨line, line :: rest, .ofLines (line :: rest), 0⟩

/-- The effect of a line with the lines after it. -/
def effectOf (vars : Bindings) (line : String) (rest : List String) : LineEffect :=
  if keyword? line = some "set" then
    match Builtin.readBinding (.front line rest) vars with
    | .error fault => .fails fault
    | .ok (name, v, consumed) => .binds name v consumed
  else if keyword? line = some "display" then
    match Builtin.readDrawing line vars with
    | .error fault => .fails fault
    | .ok text => .shows text
  else .fails (.unknownCommand line)

/-- So a binding in the middle of a script is read as if it were the first line. Lines before it are
in the index of braces, but no literal reaches back to them. -/
theorem readBinding_eq_front (line : String) (lines : List String) (index : Nat)
    (vars : Bindings) :
    Builtin.readBinding ⟨line, lines, .ofLines lines, index⟩ vars =
      Builtin.readBinding (.front line (lines.drop (index + 1))) vars := by
  have hliteral : ∀ value, Builtin.wholeLiteral ⟨line, lines, .ofLines lines, index⟩ value =
      Builtin.wholeLiteral (.front line (lines.drop (index + 1))) value := by
    intro value
    rw [CommandInput.front, Builtin.wholeLiteral_eq_fromRest, Builtin.wholeLiteral_eq_fromRest]
    rfl
  simp only [Builtin.readBinding, hliteral]
  rfl

/-- There are two commands, each under its word. -/
theorem Builtin.get?_commands (keyword : String) :
    Builtin.commands.get? keyword =
      if keyword = "display" then some Builtin.display
      else if keyword = "set" then some Builtin.set else none := by
  simp [Builtin.commands, Keyed.ofList, Keyed.insertAll]

/-- **A line does what its effect says**, at any place in any list of lines. The effect is made from
the line and the lines after it, with no table of commands and no index, so runs can be computed
line by line. -/
theorem executeLine_builtin (line : String) (lines : List String) (index : Nat)
    (session : Session) :
    executeLine Builtin.commands ⟨line, lines, .ofLines lines, index⟩ session =
      (effectOf session.vars line (lines.drop (index + 1))).result index line session.vars := by
  rw [executeLine, dispatch, effectOf]
  rcases hkeyword : keyword? line with _ | keyword
  · rfl
  · -- only the two keywords have a command, and both commands are read off the effect
    rw [Option.bind_some, Builtin.get?_commands]
    by_cases hset : keyword = "set"
    · subst hset
      rw [if_neg (by decide), if_pos rfl, if_pos rfl]
      dsimp only
      rw [Builtin.set, readBinding_eq_front]
      rcases Builtin.readBinding (.front line (lines.drop (index + 1))) session.vars with
        fault | ⟨name, v, consumed⟩
      · rfl
      · rfl
    · rw [if_neg (fun h => hset (Option.some.inj h))]
      by_cases hdisplay : keyword = "display"
      · subst hdisplay
        rw [if_pos rfl, if_pos rfl]
        dsimp only
        rw [Builtin.display]
        rcases Builtin.readDrawing line session.vars with fault | text
        · rfl
        · rfl
      · rw [if_neg hdisplay, if_neg hset, if_neg (fun h => hdisplay (Option.some.inj h))]
        rfl

/-! ## Kinds of lines -/

/-- A line binds exactly if its keyword is that of bindings and the binding can be read. -/
theorem effectOf_eq_binds_iff {vars : Bindings} {line name : String} {rest : List String}
    {v : Value} {consumed : Nat} :
    effectOf vars line rest = .binds name v consumed ↔
      keyword? line = some "set" ∧
        Builtin.readBinding (.front line rest) vars = .ok (name, v, consumed) := by
  rw [effectOf]
  by_cases hset : keyword? line = some "set"
  · rw [if_pos hset]
    rcases Builtin.readBinding (.front line rest) vars with fault | ⟨word, w, taken⟩
    · simp
    · simp [hset]
  · rw [if_neg hset]
    by_cases hdisplay : keyword? line = some "display"
    · rw [if_pos hdisplay]
      rcases Builtin.readDrawing line vars with fault | text
      · simp [hset]
      · simp [hset]
    · rw [if_neg hdisplay]
      simp [hset]

/-- A line shows a text exactly if its keyword is that of drawings and the drawing can be read. -/
theorem effectOf_eq_shows_iff {vars : Bindings} {line text : String} {rest : List String} :
    effectOf vars line rest = .shows text ↔
      keyword? line = some "display" ∧ Builtin.readDrawing line vars = .ok text := by
  rw [effectOf]
  by_cases hset : keyword? line = some "set"
  · have hdisplay : keyword? line ≠ some "display" := by
      rw [hset]
      decide
    rw [if_pos hset]
    rcases Builtin.readBinding (.front line rest) vars with fault | ⟨word, w, taken⟩
    · simp [hdisplay]
    · simp [hdisplay]
  · rw [if_neg hset]
    by_cases hdisplay : keyword? line = some "display"
    · rw [if_pos hdisplay]
      rcases Builtin.readDrawing line vars with fault | shown
      · simp
      · simp [hdisplay]
    · rw [if_neg hdisplay]
      simp [hdisplay]

/-! ## The lines that an effect takes -/

/-- The literal of a binding is gathered from the lines after its own, and takes as many of
them as the binding. -/
theorem readBinding_front_eq_ok_iff {line name : String} {rest : List String} {vars : Bindings}
    {v : Value} {consumed : Nat} :
    Builtin.readBinding (.front line rest) vars = .ok (name, v, consumed) ↔
      ∃ word value literal,
        Pattern.binding? line.toList = some (word, value) ∧
        (if Literal.startsObject value then Gathered.fromRest (String.ofList value) line rest
          else .ok ⟨String.ofList value, 0⟩) = Except.ok literal ∧
        Literal.readValue vars line literal.text.toList = .ok v ∧
        String.ofList word = name ∧ literal.consumed = consumed := by
  rw [Builtin.readBinding_eq_ok_iff]
  simp only [CommandInput.front, Builtin.wholeLiteral_eq_fromRest]
  rfl

/-- A line takes only lines that are there. So what remains after it is shorter than what remained
before, which is why a run ends. -/
theorem consumed_effectOf_le (vars : Bindings) (line : String) (rest : List String) :
    (effectOf vars line rest).consumed ≤ rest.length := by
  rcases heffect : effectOf vars line rest with fault | text | ⟨name, v, consumed⟩
  · exact Nat.zero_le _
  · exact Nat.zero_le _
  · obtain ⟨-, hread⟩ := effectOf_eq_binds_iff.1 heffect
    obtain ⟨word, value, literal, -, hliteral, -, -, rfl⟩ := readBinding_front_eq_ok_iff.1 hread
    by_cases hobject : Literal.startsObject value = true
    · rw [if_pos hobject] at hliteral
      exact Gathered.consumed_le_of_fromRest hliteral
    · rw [if_neg hobject, Except.ok.injEq] at hliteral
      rw [← hliteral]
      exact Nat.zero_le _

/-- Of the lines after it, a line that does not fail needs only those that it takes. A line that
fails may need more: it can have been looking for a brace in all of them. -/
theorem effectOf_take_append {vars : Bindings} {line : String} {rest : List String}
    (hok : (effectOf vars line rest).isFailure = false) (more : List String) :
    effectOf vars line (rest.take (effectOf vars line rest).consumed ++ more) =
      effectOf vars line rest := by
  rcases heffect : effectOf vars line rest with fault | text | ⟨name, v, consumed⟩
  · rw [heffect] at hok
    simp [LineEffect.isFailure] at hok
  · -- a drawing looks at its own line only
    rw [effectOf_eq_shows_iff] at heffect ⊢
    exact heffect
  · obtain ⟨hset, hread⟩ := effectOf_eq_binds_iff.1 heffect
    obtain ⟨word, value, literal, hpattern, hliteral, hvalue, hname, rfl⟩ :=
      readBinding_front_eq_ok_iff.1 hread
    rw [effectOf_eq_binds_iff, readBinding_front_eq_ok_iff]
    -- of all that a binding reads, only its literal depends on the lines after it
    refine ⟨hset, word, value, literal, hpattern, ?_, hvalue, hname, rfl⟩
    by_cases hobject : Literal.startsObject value = true
    · rw [if_pos hobject] at hliteral ⊢
      exact Gathered.fromRest_take_append hliteral more
    · rw [if_neg hobject] at hliteral ⊢
      exact hliteral

/-- A line that fails leaves the bindings alone and takes no lines. -/
theorem LineEffect.of_isFailure {effect : LineEffect} (h : effect.isFailure = true)
    (vars : Bindings) : effect.varsAfter vars = vars ∧ effect.consumed = 0 := by
  rcases effect with fault | text | ⟨name, v, consumed⟩
  · exact ⟨rfl, rfl⟩
  · simp [isFailure] at h
  · simp [isFailure] at h

end CanvasScript
