/-
Which lines in the form of a binding are executed as one.

Two places look at how such a line begins. Its pattern asks for the word of bindings and a blank,
and there are twenty-five blanks. The keyword of a line is decided before that, and for a line
without a parenthesis it is the word of bindings only in front of a space. So the pattern accepts
lines that are never shown to it: with a tab behind the word, or any other blank that is no space,
a line has no keyword and is unknown.

`dispatch_binding` says this in both directions. A line with a space goes to the command for
bindings, and if that fails, it is for the value of the line and not for the line itself.
-/
import CanvasScript.Proofs.CommandLines
import CanvasScript.Proofs.LiteralReading

set_option autoImplicit false

namespace CanvasScript

/-! ## Why a binding fails -/

/-- Whether a cause lies in the value of a binding. -/
def ScriptError.isAboutValue : ScriptError → Bool
  | .malformedObject _ => true
  | .invalidPair _ => true
  | .invalidValue _ => true
  | _ => false

namespace Literal

variable {vars : Bindings} {line : String} {fault : ScriptError}

theorem isAboutValue_of_readEntry {pair : List Char} (h : readEntry vars line pair = .error fault) :
    fault.isAboutValue = true := by
  rw [readEntry] at h
  split at h
  · obtain rfl := Except.error.inj h
    rfl
  · dsimp only at h
    split at h
    · obtain rfl := Except.error.inj h
      rfl
    · split at h
      · exact absurd h (by simp)
      · obtain rfl := Except.error.inj h
        rfl

theorem isAboutValue_of_readEntries {pairs : List (List Char)}
    (h : readEntries vars line pairs = .error fault) : fault.isAboutValue = true := by
  induction pairs with
  | nil => exact absurd h (by simp [readEntries])
  | cons pair rest ih =>
    rw [readEntries] at h
    split at h
    · rename_i first hfirst
      obtain rfl := Except.error.inj h
      exact isAboutValue_of_readEntry hfirst
    · exact ih (map_eq_error_iff.1 h)

theorem isAboutValue_of_readValue {text : List Char} (h : readValue vars line text = .error fault) :
    fault.isAboutValue = true := by
  rw [readValue] at h
  split at h
  · rw [map_eq_error_iff, readObject] at h
    split at h
    · obtain rfl := Except.error.inj h
      rfl
    · exact isAboutValue_of_readEntries (map_eq_error_iff.1 h)
  · split at h
    · exact absurd h (by simp)
    · obtain rfl := Except.error.inj h
      rfl

end Literal

/-- Gathering fails for one cause, whatever index of braces it is given. -/
theorem Gathered.eq_malformedObject_of_ofLines {value line : String} {lines : List String}
    {braces : BraceIndex} {index : Nat} {fault : ScriptError}
    (h : ofLines value line lines braces index = .error fault) : fault = .malformedObject line := by
  rw [ofLines] at h
  split at h
  · exact absurd h (by simp)
  · split at h
    · exact (Except.error.inj h).symm
    · split at h
      · exact absurd h (by simp)
      · exact (Except.error.inj h).symm

namespace Builtin

/-- A line that has the pattern of a binding can only fail for its value. The three ways to fail are
that it has not the pattern, that its literal cannot be put together, and that the value cannot be
read; the first is ruled out. -/
theorem isAboutValue_of_readBinding {input : CommandInput} {vars : Bindings} {fault : ScriptError}
    (hform : (Pattern.binding? input.line.toList).isSome = true)
    (h : readBinding input vars = .error fault) : fault.isAboutValue = true := by
  obtain ⟨⟨word, value⟩, hpattern⟩ := Option.isSome_iff_exists.1 hform
  rw [readBinding, hpattern] at h
  rcases bind_eq_error_iff.1 h with hliteral | ⟨literal, -, hvalue⟩
  · rw [wholeLiteral] at hliteral
    split at hliteral
    · rw [Gathered.eq_malformedObject_of_ofLines hliteral]
      rfl
    · exact absurd hliteral (by simp)
  · exact Literal.isAboutValue_of_readValue (map_eq_error_iff.1 hvalue)

theorem set_eq_error_iff {input : CommandInput} {session : Session} {fault : ScriptError} :
    (set input session).outcome = .error fault ↔ readBinding input session.vars = .error fault := by
  rw [set]
  rcases readBinding input session.vars with other | ⟨name, v, consumed⟩
  · simp [Reply.failure]
  · simp

end Builtin

/-! ## Where the line goes -/

/-- A line in the form of a binding that has no parenthesis, before which everything would be the
keyword. -/
structure HasBindingForm (line : String) : Prop where
  matches_pattern : (Pattern.binding? line.toList).isSome = true
  no_parenthesis : '(' ∉ line.toList

/-- The command for bindings gets the line wherever it stands, and fails only for its value. -/
structure IsExecutedAsBinding (table : CommandTable) (line : String) : Prop where
  keyword_eq : keyword? line = some "set"
  dispatch_eq : ∀ lines braces index session,
    dispatch table ⟨line, lines, braces, index⟩ session =
      Builtin.set ⟨line, lines, braces, index⟩ session
  isAboutValue : ∀ lines braces index session fault,
    (dispatch table ⟨line, lines, braces, index⟩ session).outcome = .error fault →
      fault.isAboutValue = true

/-- No command gets the line, and it does nothing but fail. -/
structure IsUnknownLine (table : CommandTable) (line : String) : Prop where
  keyword_eq : keyword? line = none
  dispatch_eq : ∀ lines braces index session,
    dispatch table ⟨line, lines, braces, index⟩ session =
      .failure session (.unknownCommand line)

/-- **A line in the form of a binding is executed as one exactly when a space comes behind its first
word.** With another blank there it is unknown, although its pattern is that of a binding: the
keyword is looked up with its space, and the pattern takes any blank. Both sides are said of every
stream and session, as neither is looked at. -/
theorem dispatch_binding {table : CommandTable} (hbuiltins : table.HasBuiltins) {line : String}
    (hform : HasBindingForm line) :
    ("set ".toList <+: line.toList → IsExecutedAsBinding table line) ∧
      (¬ "set ".toList <+: line.toList → IsUnknownLine table line) := by
  -- without a parenthesis, only the prefix of the line can give a keyword
  have hkeyword := keyword?_of_no_parenthesis hform.no_parenthesis
  refine ⟨fun hspace => ?_, fun hspace => ?_⟩
  · rw [if_pos hspace] at hkeyword
    have hdispatch : ∀ lines braces index session,
        dispatch table ⟨line, lines, braces, index⟩ session =
          Builtin.set ⟨line, lines, braces, index⟩ session := by
      intro lines braces index session
      rw [dispatch, hkeyword, Option.bind_some, hbuiltins.set]
    refine ⟨hkeyword, hdispatch, fun lines braces index session fault hfault => ?_⟩
    rw [hdispatch, Builtin.set_eq_error_iff] at hfault
    refine Builtin.isAboutValue_of_readBinding ?_ hfault
    exact hform.matches_pattern
  · rw [if_neg hspace] at hkeyword
    refine ⟨hkeyword, fun lines braces index session => ?_⟩
    rw [dispatch, hkeyword]
    rfl

/-- A space and then a tab behind the word of bindings, or only the tab. -/
theorem dispatch_binding_with_tab :
    HasBindingForm "set \tx = 1" ∧ HasBindingForm "set\tx = 1" ∧
      IsExecutedAsBinding Builtin.commands "set \tx = 1" ∧
      IsUnknownLine Builtin.commands "set\tx = 1" := by
  have hspaced : HasBindingForm "set \tx = 1" := ⟨by decide, by decide⟩
  have htabbed : HasBindingForm "set\tx = 1" := ⟨by decide, by decide⟩
  exact ⟨hspaced, htabbed,
    (dispatch_binding Builtin.hasBuiltins_commands hspaced).1 (by decide),
    (dispatch_binding Builtin.hasBuiltins_commands htabbed).2 (by decide)⟩

/-- Not every trimmed line in the form of a binding has the keyword of one. -/
theorem not_keyword?_of_bindingForm :
    ¬ ∀ line, Text.trimmed line = line → HasBindingForm line → keyword? line = some "set" := by
  intro h
  have hnone : keyword? "set\tx = 1" = none := by decide
  rw [h "set\tx = 1" (by decide) ⟨by decide, by decide⟩] at hnone
  exact absurd hnone (by decide)

end CanvasScript
