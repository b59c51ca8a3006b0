/-
Cutting text at a character: at the first one of a class, at the last one, and at all.

A cut takes the character itself away and keeps the two sides, and it fails when there is
no such character. The lemmas below say both things as equations on the whole text, so a
proof about a format never has to look at positions.
-/

set_option autoImplicit false

namespace CanvasScript.Text

/-- The two sides of the first character of a class. -/
def cutFirst? (isCut : Char → Bool) : List Char → Option (List Char × List Char)
  | [] => none
  | c :: text =>
    if isCut c then some ([], text)
    else (cutFirst? isCut text).map fun (before, after) => (c :: before, after)

/-- The two sides of the last character of a class. -/
def cutLast? (isCut : Char → Bool) (text : List Char) : Option (List Char × List Char) :=
  (cutFirst? isCut text.reverse).map fun (after, before) => (before.reverse, after.reverse)

/-- The text after a given beginning, when the text begins that way. -/
def after? : List Char → List Char → Option (List Char)
  | [], text => some text
  | _ :: _, [] => none
  | c :: start, d :: text => if c = d then after? start text else none

/-- The text before a given character at its very end. -/
def beforeFinal? (final : Char) (text : List Char) : Option (List Char) :=
  match text.reverse with
  | [] => none
  | c :: before => if c = final then some before.reverse else none

/-- A text begins with a given one exactly when it is that one and what follows it. -/
theorem after?_eq_some_iff {start text rest : List Char} :
    after? start text = some rest ↔ text = start ++ rest := by
  induction start generalizing text with
  | nil => simp [after?, eq_comm]
  | cons c start ih =>
    cases text with
    | nil => simp [after?]
    | cons d text =>
      by_cases h : c = d
      · subst h
        simp [after?, ih]
      · simp [after?, h, Ne.symm h]

/-- A text has a final character exactly when it is the part before it and that character. -/
theorem beforeFinal?_eq_some_iff {final : Char} {text before : List Char} :
    beforeFinal? final text = some before ↔ text = before ++ [final] := by
  unfold beforeFinal?
  cases h : text.reverse with
  | nil => simp [List.reverse_eq_nil_iff.1 h]
  | cons c rest =>
    have htext : text = rest.reverse ++ [c] := by
      rw [← List.reverse_reverse text, h, List.reverse_cons]
    rw [htext]
    by_cases hc : c = final
    · subst hc
      simp
    · simp only [hc, if_false, reduceCtorEq, false_iff]
      intro heq
      exact hc (by simpa using (List.append_inj' heq rfl).2)

/-- The sides of a first cut and the character between them are the whole text, and the
side before has no character of the class. -/
theorem cutFirst?_eq_some {isCut : Char → Bool} {text before after : List Char}
    (h : cutFirst? isCut text = some (before, after)) :
    (∃ c, isCut c = true ∧ text = before ++ c :: after) ∧ ∀ c ∈ before, isCut c = false := by
  induction text generalizing before with
  | nil => simp [cutFirst?] at h
  | cons d text ih =>
    rw [cutFirst?] at h
    by_cases hd : isCut d = true
    · rw [if_pos hd, Option.some.injEq, Prod.mk.injEq] at h
      obtain ⟨rfl, rfl⟩ := h
      exact ⟨⟨d, hd, rfl⟩, by simp⟩
    · rw [if_neg hd, Option.map_eq_some_iff] at h
      obtain ⟨⟨front, back⟩, hcut, heq⟩ := h
      rw [Prod.mk.injEq] at heq
      obtain ⟨rfl, rfl⟩ := heq
      obtain ⟨⟨c, hc, rfl⟩, hfront⟩ := ih hcut
      refine ⟨⟨c, hc, rfl⟩, ?_⟩
      intro x hx
      rcases List.mem_cons.1 hx with rfl | hx
      · simpa using hd
      · exact hfront x hx

/-- A first cut fails exactly when there is no character of the class. -/
theorem cutFirst?_eq_none_iff {isCut : Char → Bool} {text : List Char} :
    cutFirst? isCut text = none ↔ ∀ c ∈ text, isCut c = false := by
  induction text with
  | nil => simp [cutFirst?]
  | cons d text ih =>
    by_cases hd : isCut d = true
    · simp [cutFirst?, hd]
    · simp [cutFirst?, hd, ih]

/-- Text before the first character of a class can be put in front of a cut. -/
theorem cutFirst?_append {isCut : Char → Bool} {before after : List Char} {c : Char}
    (hbefore : ∀ x ∈ before, isCut x = false) (hc : isCut c = true) :
    cutFirst? isCut (before ++ c :: after) = some (before, after) := by
  induction before with
  | nil => simp [cutFirst?, hc]
  | cons d before ih =>
    have hd : isCut d = false := hbefore d (by simp)
    have htail : ∀ x ∈ before, isCut x = false := fun x hx => hbefore x (by simp [hx])
    simp [cutFirst?, hd, ih htail]

end CanvasScript.Text
