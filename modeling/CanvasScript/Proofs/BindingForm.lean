/-
How a line is cut into the parts of a binding.

A binding is its word, blanks, a name, blanks or none, an equals sign, and a rest that is blanks or
none and then a value on one line. No blank can stand in a name and neither a blank nor a name holds
an equals sign, so a line has only one name and one rest, if it has any. Where the value begins is
left open: blanks in front of it can as well be its first characters, and in a rest of nothing but
blanks at least the last one has to be the value. That does not matter, because the value is taken
without the blanks at its ends, and this is the whole rest without them.

`set_recognised` says so of the command for bindings. It is an equivalence where it says which lines
the command takes, since a pattern that takes no line at all would satisfy everything else there.
-/
import CanvasScript.Proofs.BindingDispatch

set_option autoImplicit false

namespace CanvasScript

/-! ## Blanks up to another character -/

theorem Text.trimStart_eq_iff {text rest : List Char} :
    trimStart text = rest ↔
      Ends isBlank rest ∧ ∃ gap, text = gap ++ rest ∧ ∀ c ∈ gap, isBlank c = true := by
  constructor
  · rintro rfl
    exact ⟨ends_dropWhile isBlank text, text.takeWhile isBlank,
      List.takeWhile_append_dropWhile.symm, fun c hc => List.mem_takeWhile_imp hc⟩
  · rintro ⟨hends, gap, rfl, hgap⟩
    exact dropWhile_append_of_ends hgap hends

namespace Pattern

/-- What stands behind blanks is found if there is at least one of them, and it begins with none. -/
theorem afterBlanks?_eq_some_iff {text rest : List Char} :
    afterBlanks? text = some rest ↔
      Ends Text.isBlank rest ∧
        ∃ gap, text = gap ++ rest ∧ gap ≠ [] ∧ ∀ c ∈ gap, Text.isBlank c = true := by
  rcases text with _ | ⟨c, text⟩
  · simp [afterBlanks?]
  · rcases hc : Text.isBlank c with _ | _
    · rw [afterBlanks?, hc, if_neg (by decide)]
      simp only [reduceCtorEq, false_iff, not_and, not_exists]
      -- a gap would begin with the first character, which is not blank
      rintro - gap htext hne hgap
      obtain ⟨d, more, rfl⟩ := List.exists_cons_of_ne_nil hne
      obtain rfl : c = d := (List.cons.inj htext).1
      rw [hgap c List.mem_cons_self] at hc
      exact absurd hc (by decide)
    · rw [afterBlanks?, hc, if_pos rfl, Option.some.injEq, Text.trimStart_eq_iff]
      refine and_congr_right fun _ => ⟨?_, ?_⟩
      · rintro ⟨gap, rfl, hgap⟩
        refine ⟨c :: gap, rfl, List.cons_ne_nil _ _, ?_⟩
        simpa [hc] using hgap
      · rintro ⟨gap, htext, hne, hgap⟩
        obtain ⟨d, more, rfl⟩ := List.exists_cons_of_ne_nil hne
        exact ⟨more, (List.cons.inj htext).2, fun d hd => hgap d (List.mem_cons_of_mem _ hd)⟩

/-! ## The name and the rest -/

/-- A line is the word of bindings, blanks, a name, blanks or none, an equals sign and a rest. -/
structure Assigns (line name rest : List Char) : Prop where
  line_eq : ∃ gap gap', line = "set".toList ++ (gap ++ (name ++ (gap' ++ '=' :: rest))) ∧
    gap ≠ [] ∧ (∀ c ∈ gap, Text.isBlank c = true) ∧ ∀ c ∈ gap', Text.isBlank c = true
  name_ne : name ≠ []
  name_word : ∀ c ∈ name, Lexer.isNameChar c = true

/-- The name of a line and what is behind its equals sign, whatever that is. -/
def assigned? (line : List Char) : Option (List Char × List Char) :=
  (Text.after? "set".toList line).bind fun behind =>
    (afterBlanks? behind).bind fun named =>
      if named.takeWhile Lexer.isNameChar = [] then none
      else
        (Text.after? ['='] (Text.trimStart (named.dropWhile Lexer.isNameChar))).map fun rest =>
          (named.takeWhile Lexer.isNameChar, rest)

/-- The form of a binding is looked for in two steps, up to the equals sign and then behind it. -/
theorem binding?_eq_bind (line : List Char) :
    binding? line =
      (assigned? line).bind fun (name, rest) =>
        (boundValue? rest).map fun value => (name, value) := by
  unfold binding? assigned?
  simp only [Option.bind_eq_bind, Option.bind_assoc]
  refine Option.bind_congr fun behind _ => Option.bind_congr fun named _ => ?_
  by_cases hname : named.takeWhile Lexer.isNameChar = []
  · simp [hname]
  · rw [if_neg hname, Option.bind_map]
    simp [hname, Option.map_eq_bind]

theorem ends_isNameChar_gap {gap rest : List Char} (hgap : ∀ c ∈ gap, Text.isBlank c = true) :
    Ends Lexer.isNameChar (gap ++ '=' :: rest) := by
  rcases gap with _ | ⟨c, gap⟩
  · exact .cons (by decide) _
  · exact .cons (Lexer.not_isNameChar_of_isBlank c (hgap c List.mem_cons_self)) _

/-- The first step finds the one way in which a line can be cut at an equals sign behind a name.
There is only one, because a name goes on as long as there are word characters: neither the blanks
before it nor those behind it can be shared out in another way. -/
theorem assigned?_eq_some_iff {line name rest : List Char} :
    assigned? line = some (name, rest) ↔ Assigns line name rest := by
  constructor
  · intro h
    simp only [assigned?, Option.bind_eq_some_iff, Text.after?_eq_some_iff,
      afterBlanks?_eq_some_iff, Option.ite_none_left_eq_some, Option.map_eq_some_iff,
      Prod.mk.injEq] at h
    obtain ⟨behind, rfl, named, ⟨-, gap, rfl, hne, hgap⟩, hname, rest, htrim, rfl, rfl⟩ := h
    obtain ⟨-, gap', hbehind, hgap'⟩ := Text.trimStart_eq_iff.1 htrim
    -- name, gap and equals sign are put together again to the text that they were cut from
    have hnamed : named = named.takeWhile Lexer.isNameChar ++ (gap' ++ '=' :: rest) := by
      rw [← List.singleton_append, ← hbehind, List.takeWhile_append_dropWhile]
    exact ⟨⟨gap, gap', by rw [← hnamed], hne, hgap, hgap'⟩, hname,
      fun c hc => List.mem_takeWhile_imp hc⟩
  · rintro ⟨⟨gap, gap', rfl, hne, hgap, hgap'⟩, hname, hword⟩
    have hends : Ends Lexer.isNameChar (gap' ++ '=' :: rest) := ends_isNameChar_gap hgap'
    have hblanks : afterBlanks? (gap ++ (name ++ (gap' ++ '=' :: rest))) =
        some (name ++ (gap' ++ '=' :: rest)) := by
      refine afterBlanks?_eq_some_iff.2 ⟨?_, gap, rfl, hne, hgap⟩
      obtain ⟨first, more, rfl⟩ := List.exists_cons_of_ne_nil hname
      exact .cons (Lexer.isBlank_eq_false_of_isNameChar (hword first List.mem_cons_self)) _
    have htrim : Text.trimStart (gap' ++ '=' :: rest) = '=' :: rest :=
      Text.trimStart_eq_iff.2 ⟨.cons (by decide) _, gap', rfl, hgap'⟩
    rw [assigned?, Text.after?_eq_some_iff.2 rfl, Option.bind_some, hblanks, Option.bind_some,
      takeWhile_append_of_ends hword hends, dropWhile_append_of_ends hword hends, htrim,
      if_neg hname]
    rfl

/-- A line has one name and one rest at most. -/
theorem Assigns.unique {line name rest name' rest' : List Char} (h : Assigns line name rest)
    (h' : Assigns line name' rest') : name' = name ∧ rest' = rest := by
  have hsame := (assigned?_eq_some_iff.2 h').symm.trans (assigned?_eq_some_iff.2 h)
  exact Prod.mk.inj (Option.some.inj hsame)

/-! ## The value -/

/-- A rest is blanks or none, and then a value on one line. -/
structure Carries (rest lead value : List Char) : Prop where
  rest_eq : rest = lead ++ value
  lead_blank : ∀ c ∈ lead, Text.isBlank c = true
  value_ne : value ≠ []
  no_lineFeed : '\n' ∉ value

/-- Wherever the value is taken to begin, it is the same without the blanks around it. -/
theorem Carries.trim_eq {rest lead value : List Char} (h : Carries rest lead value) :
    Text.trim value = Text.trim rest := by
  rw [h.rest_eq, Text.trim, Text.trim, Text.trimStart_append_of_blanks h.lead_blank]

/-- In a rest of nothing but blanks the value is at least the last one, which is no line feed. The
blanks before it can all be taken for those in front of the value. -/
theorem exists_carries_of_blanks {rest : List Char} (hblank : ∀ c ∈ rest, Text.isBlank c = true) :
    (∃ lead value, Carries rest lead value) ↔ rest ≠ [] ∧ rest.getLast? ≠ some '\n' := by
  constructor
  · rintro ⟨lead, value, rfl, -, hne, hclear⟩
    refine ⟨by simp [hne], fun hlast => hclear ?_⟩
    rw [List.getLast?_append_of_ne_nil _ hne] at hlast
    exact List.mem_of_getLast? hlast
  · rintro ⟨hne, hlast⟩
    refine ⟨rest.dropLast, [rest.getLast hne], (List.dropLast_append_getLast hne).symm,
      fun c hc => hblank c ((List.dropLast_sublist rest).subset hc), List.cons_ne_nil _ _, ?_⟩
    rw [List.getLast?_eq_some_getLast hne] at hlast
    simpa [eq_comm] using hlast

/-- In any other rest the value can begin with the first character that is not blank. -/
theorem exists_carries_of_filled {rest : List Char} (hfilled : Text.trimStart rest ≠ []) :
    (∃ lead value, Carries rest lead value) ↔ '\n' ∉ Text.trimStart rest := by
  constructor
  · rintro ⟨lead, value, rfl, hlead, -, hclear⟩
    rw [Text.trimStart_append_of_blanks hlead]
    exact fun hmem => hclear ((Text.trimStart_sublist value).subset hmem)
  · intro hclear
    exact ⟨rest.takeWhile Text.isBlank, Text.trimStart rest,
      List.takeWhile_append_dropWhile.symm, fun c hc => List.mem_takeWhile_imp hc, hfilled, hclear⟩

/-- The second finds a value wherever there is one, and its characters are those of the whole rest
without the blanks around it. Where the value is taken to begin makes no difference to that. -/
theorem boundValue?_eq_some_iff {rest value : List Char} :
    boundValue? rest = some value ↔
      (∃ lead text, Carries rest lead text) ∧ value = Text.trim rest := by
  rcases hstart : Text.trimStart rest with _ | ⟨c, more⟩
  · -- nothing but blanks: the value is one of them, if the last is not a line feed
    have hblank : ∀ c ∈ rest, Text.isBlank c = true := List.dropWhile_eq_nil_iff.1 hstart
    rw [boundValue?, hstart, exists_carries_of_blanks hblank, Text.trim_blanks hblank]
    by_cases hnone : rest = [] ∨ rest.getLast? = some '\n'
    · rw [if_pos (by simpa using hnone)]
      rcases hnone with rfl | hlast
      · simp
      · simp [hlast]
    · rw [if_neg (by simpa using hnone)]
      rw [not_or] at hnone
      simp [hnone, eq_comm]
  · -- something else: the value begins with the first that is not blank, at the latest
    have hfilled : Text.trimStart rest ≠ [] := by
      rw [hstart]
      exact List.cons_ne_nil _ _
    rw [boundValue?, exists_carries_of_filled hfilled, Text.trim, hstart]
    dsimp only
    by_cases hclear : '\n' ∈ c :: more
    · rw [if_pos (by simpa using hclear)]
      simp [hclear]
    · rw [if_neg (by simpa using hclear)]
      simp [hclear, eq_comm]

/-! ## The binding -/

/-- A line is a binding of a name to the value in a rest. -/
structure IsBinding (line name rest : List Char) : Prop where
  assigns : Assigns line name rest
  carries : ∃ lead value, Carries rest lead value

/-- So a line has a name and a value exactly if it is a binding, and which they are does not depend
on where the value is taken to begin. -/
theorem binding?_eq_some_iff {line name value : List Char} :
    binding? line = some (name, value) ↔
      ∃ rest, IsBinding line name rest ∧ value = Text.trim rest := by
  rw [binding?_eq_bind, Option.bind_eq_some_iff]
  constructor
  · rintro ⟨⟨word, rest⟩, hassigned, hvalue⟩
    obtain ⟨text, hbound, heq⟩ := Option.map_eq_some_iff.1 hvalue
    obtain ⟨rfl, rfl⟩ := Prod.mk.inj heq
    obtain ⟨hcarries, htext⟩ := boundValue?_eq_some_iff.1 hbound
    exact ⟨rest, ⟨assigned?_eq_some_iff.1 hassigned, hcarries⟩, htext⟩
  · rintro ⟨rest, ⟨hassigns, hcarries⟩, hvalue⟩
    have hbound := boundValue?_eq_some_iff.2 ⟨hcarries, hvalue⟩
    exact ⟨(name, rest), assigned?_eq_some_iff.2 hassigns, by simp [hbound]⟩

end Pattern

namespace Builtin

/-- The binding of a name to a value, when the value can be read. -/
def bindingOf (input : CommandInput) (vars : Bindings) (name value : List Char) :
    Except ScriptError (String × Value × Nat) :=
  (wholeLiteral input value).bind fun literal =>
    (Literal.readValue vars input.line literal.text.toList).map fun v =>
      (String.ofList name, v, literal.consumed)

/-- What the command does with a line goes through its name and value alone. -/
theorem readBinding_of_binding? {input : CommandInput} {name value : List Char}
    (h : Pattern.binding? input.line.toList = some (name, value)) (vars : Bindings) :
    readBinding input vars = bindingOf input vars name value := by
  rw [readBinding, h]
  rfl

/-- The command refuses a line for its form exactly when the line does not have the pattern. All
other faults of a binding are about its value. -/
theorem refuses_form_iff {input : CommandInput} {session : Session} :
    (∃ text, (set input session).outcome = .error (.invalidSetSyntax text)) ↔
      Pattern.binding? input.line.toList = none := by
  constructor
  · rintro ⟨text, hfault⟩
    by_contra hform
    have habout := isAboutValue_of_readBinding (Option.isSome_iff_ne_none.2 hform)
      (set_eq_error_iff.1 hfault)
    simp [ScriptError.isAboutValue] at habout
  · intro hform
    refine ⟨input.line, set_eq_error_iff.2 ?_⟩
    rw [readBinding, hform]

/-- What the command for bindings does with a line that is a binding of a name to the value in a
rest. -/
structure ReadsAs (input : CommandInput) (session : Session) (name rest : List Char) : Prop where
  unique : ∀ name' rest', Pattern.IsBinding input.line.toList name' rest' →
    name' = name ∧ rest' = rest
  readBinding_eq : readBinding input session.vars =
    bindingOf input session.vars name (Text.trim rest)
  trim_eq : ∀ lead value, Pattern.Carries rest lead value → Text.trim value = Text.trim rest

/-- **A line is refused for its form exactly when it is not a binding.** One that is a binding has
one name and one rest, and what is bound is the value of the rest without the blanks around it,
wherever in the rest the value is taken to begin. So the pattern can be read as it is written,
although it can be matched in many ways. -/
theorem set_recognised (input : CommandInput) (session : Session) :
    ((∀ text, (set input session).outcome ≠ .error (.invalidSetSyntax text)) ↔
      ∃ name rest, Pattern.IsBinding input.line.toList name rest) ∧
    ∀ name rest, Pattern.IsBinding input.line.toList name rest →
      ReadsAs input session name rest := by
  refine ⟨?_, fun name rest hbinding => ⟨?_, ?_, ?_⟩⟩
  · rw [← not_exists, refuses_form_iff, ← ne_eq, Option.ne_none_iff_exists']
    constructor
    · rintro ⟨⟨name, value⟩, hform⟩
      obtain ⟨rest, hbinding, -⟩ := Pattern.binding?_eq_some_iff.1 hform
      exact ⟨name, rest, hbinding⟩
    · rintro ⟨name, rest, hbinding⟩
      exact ⟨(name, Text.trim rest), Pattern.binding?_eq_some_iff.2 ⟨rest, hbinding, rfl⟩⟩
  · exact fun name' rest' hbinding' => hbinding.assigns.unique hbinding'.assigns
  · exact readBinding_of_binding? (Pattern.binding?_eq_some_iff.2 ⟨rest, hbinding, rfl⟩) _
  · exact fun lead value hcarries => hcarries.trim_eq

/-- Line feeds are blanks like others up to the value, but a value cannot be one. -/
theorem set_recognised_with_lineFeeds :
    let input : CommandInput := ⟨"set\n x9\t=\n 1 ", [], .ofLines [], 0⟩
    let refused : CommandInput := ⟨"set x9 = \n", [], .ofLines [], 0⟩
    Pattern.IsBinding input.line.toList "x9".toList "\n 1 ".toList ∧
      ReadsAs input .fresh "x9".toList "\n 1 ".toList ∧
      ¬ ∃ name rest, Pattern.IsBinding refused.line.toList name rest := by
  intro input refused
  have hbinding : Pattern.IsBinding input.line.toList "x9".toList "\n 1 ".toList :=
    ⟨⟨⟨"\n ".toList, "\t".toList, by decide, by decide, List.all_eq_true.1 (by decide),
      List.all_eq_true.1 (by decide)⟩, by decide, List.all_eq_true.1 (by decide)⟩,
      "\n ".toList, "1 ".toList, by decide, List.all_eq_true.1 (by decide), by decide, by decide⟩
  have hrefused : (set refused .fresh).outcome = .error (.invalidSetSyntax refused.line) := by
    decide
  exact ⟨hbinding, (set_recognised input .fresh).2 _ _ hbinding,
    fun hform => (set_recognised refused .fresh).1.2 hform _ hrefused⟩

end Builtin

end CanvasScript
