/-
What equality sees of values, and that a text shows no more.

Equality looks at a value through a view: of a number it sees the place on the line, where the two
zeros fall together, and all else as it is. Two values are equal when they have one view, and a
value with a `nan` in it has none. So equality is symmetric and transitive by what it is, and the
only values that are not equal to themselves are those with a `nan`.

The other half is that a text shows no more than the view. For numbers this is so because a zero is
written without its sign, and for objects because text and view both follow the entries in their
order. Equal values are therefore drawn alike and make the same concatenations.

Views are not part of the library's definitions, which compare values kind by kind. That the
comparison is by views is proved first, for numbers, scalars, entries and values in turn
(`same_iff_seenAlike`), and everything else about equality follows from what views are. A value that
is equal to everything, or to nothing, would not pass this: two values are equal exactly if their
views are there and are the same.
-/
import CanvasScript.Script.Builtin

set_option autoImplicit false

namespace CanvasScript

/-! ## Views -/

/-- To have a view, and one and the same. -/
def SeenAlike {α β : Type} (view? : α → Option β) (a b : α) : Prop :=
  (view? a).isSome = true ∧ view? a = view? b

namespace SeenAlike

variable {α β : Type} {view? : α → Option β} {a b c : α}

theorem symm (h : SeenAlike view? a b) : SeenAlike view? b a := ⟨h.2 ▸ h.1, h.2.symm⟩

theorem trans (hab : SeenAlike view? a b) (hbc : SeenAlike view? b c) : SeenAlike view? a c :=
  ⟨hab.1, hab.2.trans hbc.2⟩

/-- A value is seen like itself exactly if it is seen at all. -/
theorem self_iff : SeenAlike view? a a ↔ (view? a).isSome = true := and_iff_left rfl

end SeenAlike

/-! ## Numbers -/

namespace Binary64

/-- Numbers are compared by their places. There is none for a `nan`, which is why it is not equal to
itself. -/
theorem same_iff_seenAlike {x y : Binary64} : x.same y = true ↔ SeenAlike place? x y := by
  rw [same, compare?, SeenAlike]
  rcases x.place? with _ | p
  · simp
  · rcases y.place? with _ | q
    · simp
    · simp

/-- Every number but a `nan` has a place. -/
theorem isSome_place? {x : Binary64} : x.place?.isSome = true ↔ x ≠ .nan := by
  cases x with
  | nan => simp [place?]
  | infinity negative => simp [place?]
  | finite negative magnitude => simp [place?]

/-- A place other than zero has its sign and its distance from zero. -/
theorem signed_inj {a b : Bool} {m n : Nat}
    (h : (if a then -(m : Int) else m) = if b then -(n : Int) else n) :
    m = n ∧ (m = 0 ∨ a = b) := by
  cases a with
  | false => cases b with
    | false => simp at h ⊢; omega
    | true => simp at h ⊢; omega
  | true => cases b with
    | false => simp at h ⊢; omega
    | true => simp at h ⊢; omega

/-- Only zeros share a place with another number. A place is a distance from zero with a sign, and
zero is the one distance for which the sign is lost. -/
theorem eq_or_isZero_of_seenAlike {x y : Binary64} (h : SeenAlike place? x y) :
    x = y ∨ (x.isZero = true ∧ y.isZero = true) := by
  obtain ⟨place, hx⟩ := Option.isSome_iff_exists.1 h.1
  have hy : y.place? = some place := h.2 ▸ hx
  cases x with
  | nan => exact absurd hx (by simp [place?])
  | infinity a =>
    rw [place?, Option.some.injEq] at hx
    cases y with
    | nan => exact absurd hy (by simp [place?])
    | infinity b =>
      rw [place?, Option.some.injEq] at hy
      obtain ⟨-, hsign⟩ := signed_inj (hx.trans hy.symm)
      exact .inl (congrArg infinity (hsign.resolve_left (Nat.ne_of_gt positions_pos)))
    | finite b n =>
      rw [place?, Option.some.injEq] at hy
      -- the place of an infinity is behind those of all finite numbers
      obtain ⟨hplace, -⟩ := signed_inj (hx.trans hy.symm)
      exact absurd hplace.symm (Nat.ne_of_lt n.isLt)
  | finite a m =>
    rw [place?, Option.some.injEq] at hx
    cases y with
    | nan => exact absurd hy (by simp [place?])
    | infinity b =>
      rw [place?, Option.some.injEq] at hy
      obtain ⟨hplace, -⟩ := signed_inj (hx.trans hy.symm)
      exact absurd hplace (Nat.ne_of_lt m.isLt)
    | finite b n =>
      rw [place?, Option.some.injEq] at hy
      obtain ⟨hplace, hsign⟩ := signed_inj (hx.trans hy.symm)
      rcases hsign with hzero | rfl
      · exact .inr ⟨by simp [isZero, hzero], by simp [isZero, ← hplace, hzero]⟩
      · exact .inl (congrArg _ (Fin.ext hplace))

/-- Both zeros are written without a sign. -/
theorem text_of_isZero {x : Binary64} (h : x.isZero = true) : x.text = "0" := by
  cases x with
  | nan => exact absurd h (by simp [isZero])
  | infinity negative => exact absurd h (by simp [isZero])
  | finite negative magnitude =>
    rw [text, textChars, if_pos (by simpa [isZero] using h)]

/-- Numbers at one place are written alike: they are the same number, or they are the two zeros. -/
theorem text_eq_of_seenAlike {x y : Binary64} (h : SeenAlike place? x y) : x.text = y.text := by
  rcases eq_or_isZero_of_seenAlike h with rfl | ⟨hx, hy⟩
  · rfl
  · rw [text_of_isZero hx, text_of_isZero hy]

/-- Numbers are equal when neither is a `nan` and they are the same or both zeros. -/
theorem same_iff {x y : Binary64} :
    x.same y = true ↔
      x ≠ .nan ∧ y ≠ .nan ∧ (x = y ∨ (x.isZero = true ∧ y.isZero = true)) := by
  rw [same_iff_seenAlike]
  constructor
  · intro h
    refine ⟨?_, ?_, eq_or_isZero_of_seenAlike h⟩
    · exact isSome_place?.1 (SeenAlike.self_iff.1 (h.trans h.symm))
    · exact isSome_place?.1 (SeenAlike.self_iff.1 (h.symm.trans h))
  · rintro ⟨hx, -, rfl | ⟨hzero, hzero'⟩⟩
    · exact SeenAlike.self_iff.2 (isSome_place?.2 hx)
    · -- both zeros are at the place zero, whatever their signs
      have hplace : ∀ {z : Binary64}, z.isZero = true → z.place? = some 0 := by
        intro z hz
        cases z with
        | nan => exact absurd hz (by simp [isZero])
        | infinity negative => exact absurd hz (by simp [isZero])
        | finite negative magnitude => simp_all [isZero, place?]
      exact ⟨by rw [hplace hzero, Option.isSome_some], (hplace hzero).trans (hplace hzero').symm⟩

end Binary64

/-! ## Scalars -/

/-- What equality sees of a scalar. -/
inductive ScalarView where
  | number (place : Int)
  | boolean (b : Bool)
  | string (s : String)
  deriving DecidableEq

namespace Scalar

def view? : Scalar → Option ScalarView
  | .number x => x.place?.map .number
  | .boolean b => some (.boolean b)
  | .string s => some (.string s)

/-- The number that a scalar is. -/
def number? : Scalar → Option Binary64
  | .number x => some x
  | _ => none

/-- A number is seen as a number, if it is seen at all. -/
theorem view?_number_ne (x : Binary64) {view : ScalarView} (h : ∀ place, view ≠ .number place) :
    view? (.number x) ≠ some view := by
  rw [view?]
  rcases x.place? with _ | place
  · simp
  · simpa using (h place).symm

/-- Scalars are compared by their views. Scalars of two kinds are never seen alike, since the view
keeps the kind. -/
theorem same_iff_seenAlike {s t : Scalar} : s.same t = true ↔ SeenAlike view? s t := by
  cases s with
  | number x =>
    cases t with
    | number y =>
      have hview : ∀ p q, ScalarView.number p = .number q → p = q := fun _ _ => by simp
      rw [same, Binary64.same_iff_seenAlike, SeenAlike, SeenAlike, view?, view?,
        Option.isSome_map, Option.map_inj_right hview]
    | boolean b => simpa [same] using fun h => view?_number_ne x (by simp) h.2
    | string s => simpa [same] using fun h => view?_number_ne x (by simp) h.2
  | boolean a =>
    cases t with
    | number y => simpa [same] using fun h => view?_number_ne y (by simp) h.2.symm
    | boolean b => simp [same, SeenAlike, view?]
    | string s => simp [same, SeenAlike, view?]
  | string s =>
    cases t with
    | number y => simpa [same] using fun h => view?_number_ne y (by simp) h.2.symm
    | boolean b => simp [same, SeenAlike, view?]
    | string t => simp [same, SeenAlike, view?]

/-- A scalar is seen unless it is a `nan`. -/
theorem isSome_view? {s : Scalar} : s.view?.isSome = true ↔ s.number? ≠ some .nan := by
  cases s with
  | number x => simp [view?, number?, Binary64.isSome_place?]
  | boolean b => simp [view?, number?]
  | string s => simp [view?, number?]

/-- Scalars that are seen alike are of one kind and have one text. -/
theorem shown_of_seenAlike {s t : Scalar} (h : SeenAlike view? s t) :
    s.kind = t.kind ∧ s.text = t.text := by
  rw [← same_iff_seenAlike] at h
  cases s with
  | number x =>
    cases t with
    | number y =>
      exact ⟨rfl, Binary64.text_eq_of_seenAlike (Binary64.same_iff_seenAlike.1 h)⟩
    | boolean b => exact Bool.noConfusion h
    | string s => exact Bool.noConfusion h
  | boolean a =>
    cases t with
    | number y => exact Bool.noConfusion h
    | boolean b => exact ⟨rfl, congrArg booleanText (beq_iff_eq.1 h)⟩
    | string s => exact Bool.noConfusion h
  | string s =>
    cases t with
    | number y => exact Bool.noConfusion h
    | boolean b => exact Bool.noConfusion h
    | string t => exact ⟨rfl, beq_iff_eq.1 h⟩

end Scalar

/-! ## Entries of objects -/

namespace FlatObject

/-- What equality sees of entries: the keys, and the values as it sees them. -/
def entriesView? : List (String × Scalar) → Option (List (String × ScalarView))
  | [] => some []
  | (key, s) :: rest =>
    s.view?.bind fun view => (entriesView? rest).map fun views => (key, view) :: views

theorem entriesView?_cons_ne (entry : String × Scalar) (rest : List (String × Scalar)) :
    entriesView? (entry :: rest) ≠ some [] := by
  rw [entriesView?]
  rcases entry.2.view? with _ | view
  · simp
  · simp

/-- Objects are compared entry by entry, keys first and in their order. So objects with the same
entries in another order are not equal. -/
theorem seenAlike_cons_iff {key key' : String} {s t : Scalar}
    {rest others : List (String × Scalar)} :
    SeenAlike entriesView? ((key, s) :: rest) ((key', t) :: others) ↔
      key = key' ∧ SeenAlike Scalar.view? s t ∧ SeenAlike entriesView? rest others := by
  simp only [SeenAlike, entriesView?]
  rcases s.view? with _ | view
  · simp
  · rcases entriesView? rest with _ | views
    · simp
    · rcases t.view? with _ | view'
      · simp
      · rcases entriesView? others with _ | views'
        · simp
        · simp [and_assoc]

/-- Entries are compared by their views, from the first on. The induction is on the first list, with
the second one general. -/
theorem sameEntries_iff_seenAlike {entries others : List (String × Scalar)} :
    sameEntries entries others = true ↔ SeenAlike entriesView? entries others := by
  induction entries generalizing others with
  | nil =>
    cases others with
    | nil => simp [sameEntries, SeenAlike, entriesView?]
    | cons other others =>
      simpa [sameEntries] using fun h => entriesView?_cons_ne other others h.2.symm
  | cons entry rest ih =>
    cases others with
    | nil => simpa [sameEntries] using fun h => entriesView?_cons_ne entry rest h.2
    | cons other others =>
      rw [sameEntries, seenAlike_cons_iff, ← Scalar.same_iff_seenAlike, ← ih, Bool.and_eq_true,
        Bool.and_eq_true, beq_iff_eq, and_assoc]

/-- Entries are seen if no number among them is a `nan`. One that is not seen hides the whole
object, and this is how a `nan` makes it unequal to itself. -/
theorem isSome_entriesView? {entries : List (String × Scalar)} :
    (entriesView? entries).isSome = true ↔
      ∀ entry ∈ entries, entry.2.number? ≠ some .nan := by
  induction entries with
  | nil => simp [entriesView?]
  | cons entry rest ih =>
    rw [List.forall_mem_cons, ← ih, ← Scalar.isSome_view?, entriesView?]
    rcases entry.2.view? with _ | view
    · simp
    · simp

/-- Entries that are seen alike are written alike. Views keep the order of entries, so the texts are
compared one by one. -/
theorem entryTexts_of_seenAlike {entries others : List (String × Scalar)}
    (h : SeenAlike entriesView? entries others) :
    entries.map entryText = others.map entryText := by
  induction entries generalizing others with
  | nil =>
    cases others with
    | nil => rfl
    | cons other others => exact absurd h.2.symm (entriesView?_cons_ne other others)
  | cons entry rest ih =>
    cases others with
    | nil => exact absurd h.2 (entriesView?_cons_ne entry rest)
    | cons other others =>
      obtain ⟨hkey, hvalue, hrest⟩ := seenAlike_cons_iff.1 h
      have hentry : entryText entry = entryText other := by
        rw [entryText, entryText, hkey, (Scalar.shown_of_seenAlike hvalue).2]
      rw [List.map_cons, List.map_cons, hentry, ih hrest]

end FlatObject

/-! ## Values -/

namespace Value

/-- What equality sees of a value. -/
def view? : Value → Option (ScalarView ⊕ List (String × ScalarView))
  | .scalar s => s.view?.map .inl
  | .object o => (FlatObject.entriesView? o.entries).map .inr

/-- The numbers in a value: the value itself, or those in the entries of an object. -/
def numbers : Value → List Binary64
  | .scalar s => s.number?.toList
  | .object o => o.entries.filterMap fun entry => entry.2.number?

/-- A scalar and an object are never seen alike. -/
theorem not_seenAlike_scalar_object (s : Scalar) (o : FlatObject) :
    ¬ SeenAlike view? (.scalar s) (.object o) := by
  rintro ⟨hsome, hview⟩
  rw [view?, Option.isSome_map] at hsome
  obtain ⟨view, hs⟩ := Option.isSome_iff_exists.1 hsome
  rw [view?, view?, hs] at hview
  obtain ⟨views, -, hviews⟩ := Option.map_eq_some_iff.1 hview.symm
  exact Sum.inr_ne_inl hviews

/-- Values are compared by their views. -/
theorem same_iff_seenAlike {l r : Value} : l.same r = true ↔ SeenAlike view? l r := by
  cases l with
  | scalar s =>
    cases r with
    | scalar t =>
      rw [same, Scalar.same_iff_seenAlike, SeenAlike, SeenAlike, view?, view?, Option.isSome_map,
        Option.map_inj_right fun _ _ => Sum.inl.inj]
    | object p => exact iff_of_false Bool.false_ne_true (not_seenAlike_scalar_object s p)
  | object o =>
    cases r with
    | scalar t =>
      exact iff_of_false Bool.false_ne_true fun h => not_seenAlike_scalar_object t o h.symm
    | object p =>
      rw [same, FlatObject.sameEntries_iff_seenAlike, SeenAlike, SeenAlike, view?, view?,
        Option.isSome_map, Option.map_inj_right fun _ _ => Sum.inr.inj]

/-- A value is seen if no number in it is a `nan`, be it the value itself or an entry. -/
theorem isSome_view? {v : Value} : v.view?.isSome = true ↔ .nan ∉ v.numbers := by
  cases v with
  | scalar s =>
    rw [view?, Option.isSome_map, Scalar.isSome_view?, numbers, Option.mem_toList]
  | object o =>
    rw [view?, Option.isSome_map, FlatObject.isSome_entriesView?, numbers]
    simp

/-- Values that are seen alike are of one kind and have one text. -/
theorem shown_of_seenAlike {l r : Value} (h : SeenAlike view? l r) :
    l.kind = r.kind ∧ l.text = r.text := by
  rw [← same_iff_seenAlike] at h
  cases l with
  | scalar s =>
    cases r with
    | scalar t => exact Scalar.shown_of_seenAlike (Scalar.same_iff_seenAlike.1 h)
    | object p => exact Bool.noConfusion h
  | object o =>
    cases r with
    | scalar t => exact Bool.noConfusion h
    | object p =>
      have htexts := FlatObject.entryTexts_of_seenAlike (FlatObject.sameEntries_iff_seenAlike.1 h)
      refine ⟨rfl, ?_⟩
      rw [text, text, FlatObject.text, FlatObject.text, htexts]

end Value

/-! ## Equality in scripts -/

/-- The operator of scripts compares values in just this way, and it gives a boolean for all values.
-/
theorem StrictOp.apply_equal {l r : Value} :
    StrictOp.equal.apply l r = .ok (.boolean true) ↔ SeenAlike Value.view? l r := by
  rw [← Value.same_iff_seenAlike]
  simp [StrictOp.apply]

theorem Value.exists_string_of_kind {v : Value} (h : v.kind = .string) : ∃ s, v = .string s := by
  cases v with
  | scalar s =>
    cases s with
    | number x => exact Kind.noConfusion h
    | boolean b => exact Kind.noConfusion h
    | string s => exact ⟨s, rfl⟩
  | object o => exact Kind.noConfusion h

/-- A sum with a string puts the two texts together. So equal values, which have one text, make the
same sums with strings. -/
theorem StrictOp.apply_add_of_string {l r : Value} (h : l.kind = .string ∨ r.kind = .string) :
    StrictOp.add.apply l r = .ok (.string (l.text ++ r.text)) := by
  rcases h with hleft | hright
  · obtain ⟨s, rfl⟩ := Value.exists_string_of_kind hleft
    rfl
  · obtain ⟨t, rfl⟩ := Value.exists_string_of_kind hright
    cases l with
    | scalar s =>
      cases s with
      | number x => rfl
      | boolean b => rfl
      | string s => rfl
    | object o => rfl

/-- A line that draws the value `v`. -/
def Builtin.Draws (input : CommandInput) (session : Session) (v : Value) : Prop :=
  ∃ expr, Pattern.drawing? input.line.toList = some expr ∧
    evaluateText session.vars (String.ofList expr) = .ok v

/-- A value that a line draws is drawn as its text, in the color of texts. -/
theorem Builtin.Draws.display_eq {input : CommandInput} {session : Session} {v : Value}
    (h : Draws input session v) :
    display input session = .showing session v.text Color.text := by
  obtain ⟨expr, hpattern, hvalue⟩ := h
  have hread : readDrawing input.line session.vars = .ok v.text := by
    simp only [readDrawing, hpattern, hvalue]
  rw [display, hread]

/-- **Equal values are of one type, are drawn alike and make the same concatenations. Equality is
symmetric and transitive, the inequality operator is its negation, and the values that equal
themselves are those without a `nan`.** All of it comes from one fact: values are equal if they have
a view and it is the same one. -/
theorem equal_shown_alike (l r m : Value) :
    (StrictOp.equal.apply l r = .ok (.boolean true) →
      l.kind = r.kind ∧ l.text = r.text ∧
      (l.kind = .string ∨ m.kind = .string →
        StrictOp.add.apply l m = StrictOp.add.apply r m ∧
          StrictOp.add.apply m l = StrictOp.add.apply m r) ∧
      ∀ input other session session', Builtin.Draws input session l →
        Builtin.Draws other session' r →
          (Builtin.display input session).drawn = (Builtin.display other session').drawn) ∧
    StrictOp.equal.apply l r = StrictOp.equal.apply r l ∧
    (StrictOp.equal.apply l r = .ok (.boolean true) →
      StrictOp.equal.apply r m = .ok (.boolean true) →
        StrictOp.equal.apply l m = .ok (.boolean true)) ∧
    (∃ b, StrictOp.equal.apply l r = .ok (.boolean b) ∧
      StrictOp.notEqual.apply l r = .ok (.boolean !b)) ∧
    (StrictOp.equal.apply l l = .ok (.boolean true) ↔ .nan ∉ l.numbers) := by
  refine ⟨fun hequal => ?_, ?_, fun hleft hright => ?_, ⟨l.same r, rfl, rfl⟩, ?_⟩
  · obtain ⟨hkind, htext⟩ := Value.shown_of_seenAlike (StrictOp.apply_equal.1 hequal)
    refine ⟨hkind, htext, fun hstring => ⟨?_, ?_⟩, fun input other session session' hl hr => ?_⟩
    · rw [StrictOp.apply_add_of_string hstring, htext,
        ← StrictOp.apply_add_of_string (hkind ▸ hstring)]
    · rw [StrictOp.apply_add_of_string hstring.symm, htext,
        ← StrictOp.apply_add_of_string (hkind ▸ hstring.symm)]
    · rw [hl.display_eq, hr.display_eq, htext]
      rfl
  · -- equality of views is symmetric, and the operator answers for it
    have hsame : l.same r = r.same l := by
      rw [Bool.eq_iff_iff, Value.same_iff_seenAlike, Value.same_iff_seenAlike]
      exact ⟨SeenAlike.symm, SeenAlike.symm⟩
    rw [StrictOp.apply, StrictOp.apply, hsame]
  · rw [StrictOp.apply_equal] at hleft hright ⊢
    exact hleft.trans hright
  · rw [StrictOp.apply_equal, SeenAlike.self_iff, Value.isSome_view?]

end CanvasScript
