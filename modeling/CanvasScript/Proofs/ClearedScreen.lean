/-
Whether the texts of a terminal are on a cleared screen.

A terminal clears the screen when it opens a drawing, and that happens at the first draw call and
at no other. Whether the call succeeds is not asked: its row is noted in any case, and a terminal
with a row noted takes its drawing for open. So there is one chance to clear the screen. If the
channel does not take the clear-screen sequence then, it is never sent again, and the texts of later
calls are put on what was there before. In this the terminal falls short of what its own description
says.

The statement is an `iff`, because neither direction says enough by itself. That texts are on a
cleared screen if the first draw call could clear it does not show that anything can go wrong; that
they are not if it could not does not show that nothing else does. It is made twice, for the two
ways in which a channel may fail:

* from one operation to another, as the channels of this library do. Then a piece of output is there
  or it is not, and the screen is cleared if writes are not refused at the first draw call;
* at any character of any text, also within the opening itself. Then pieces are torn. The screen is
  cleared if the first characters of the opening arrive, which are the clear-screen sequence, even
  if the rest of it is lost and the draw call fails; and a text is there as soon as one of its own
  characters is.
-/
import CanvasScript.Proofs.TerminalSessions

set_option autoImplicit false

namespace CanvasScript

/-! ## Entries that others prepare for -/

section

variable {α : Type} {prepares shown : α → Prop}

/-- Before every entry that is shown there is one that prepares for it. -/
def Prepared (prepares shown : α → Prop) (entries : List α) : Prop :=
  ∀ before entry after, entries = before ++ entry :: after → shown entry →
    ∃ earlier ∈ before, prepares earlier

/-- If the first entry prepares, the others may be what they are. It must not be shown itself, since
nothing is before it. -/
theorem prepared_cons {first : α} (hprepares : prepares first) (hfirst : ¬ shown first)
    (rest : List α) : Prepared prepares shown (first :: rest) := by
  intro before entry after hsplit hshown
  rcases before with _ | ⟨earlier, before⟩
  · obtain ⟨rfl, -⟩ := List.cons.inj hsplit
    exact absurd hshown hfirst
  · obtain ⟨rfl, -⟩ := List.cons.inj hsplit
    exact ⟨_, List.mem_cons_self, hprepares⟩

/-- Where no entry prepares for others, none may be shown. -/
theorem prepared_iff_of_none {entries : List α} (hnone : ∀ entry ∈ entries, ¬ prepares entry) :
    Prepared prepares shown entries ↔ ∀ entry ∈ entries, ¬ shown entry := by
  constructor
  · intro hprepared entry hmem hshown
    obtain ⟨before, after, hsplit⟩ := List.append_of_mem hmem
    obtain ⟨earlier, hearlier, hprepares⟩ := hprepared before entry after hsplit hshown
    exact hnone earlier (hsplit ▸ List.mem_append_left _ hearlier) hprepares
  · intro hunshown before entry after hsplit hshown
    exact absurd hshown (hunshown entry (hsplit ▸ List.mem_append_right _ List.mem_cons_self))

end

/-! ## Pieces that arrive as a whole -/

/-- Every text has the opening somewhere before it. -/
def Piece.OnClearedScreen (pieces : List Piece) : Prop :=
  Prepared (fun piece => piece = opening) (fun piece => piece.isText = true) pieces

namespace Terminal

/-- Whether the first draw call of a sequence of operations finds that writes are not refused. -/
def OpensDrawing (terminal : Terminal) : List TerminalAct → Prop
  | [] => False
  | .draw _ :: _ => terminal.out.writeRefusal = none
  | a :: rest => (terminal.act a).OpensDrawing rest

/-- Before any draw call, an operation that is none puts nothing out and changes only the
channel. -/
theorem sent_of_untouched {terminal : Terminal} (h : terminal.lowest = none) {a : TerminalAct}
    (hother : ∀ call, a ≠ .draw call) : terminal.sent a = [] ∧ (terminal.act a).lowest = none := by
  rw [sent, lowest_act]
  cases a with
  | draw call => exact absurd rfl (hother call)
  | finish =>
    rcases terminal.out.writeRefusal with _ | why
    · simp [accepted, h]
    · exact ⟨rfl, h⟩
  | refuse =>
    rcases terminal.out.writeRefusal with _ | why
    · exact ⟨rfl, h⟩
    · exact ⟨rfl, h⟩

/-- If a terminal opens the drawing at all, that is the first of its output and is not repeated.
Before the first draw call nothing is put out, and afterwards a row is noted, which rules out
another opening. -/
theorem trace_of_untouched {terminal : Terminal} (h : terminal.lowest = none)
    (acts : List TerminalAct) :
    (terminal.OpensDrawing acts ∧
        ∃ pieces, terminal.trace acts = .opening :: pieces ∧ .opening ∉ pieces) ∨
      (¬ terminal.OpensDrawing acts ∧ .opening ∉ terminal.trace acts) := by
  induction acts generalizing terminal with
  | nil => exact .inr ⟨id, List.not_mem_nil⟩
  | cons a rest ih =>
    cases a with
    | draw call =>
      have hrest : Piece.opening ∉ (terminal.act (.draw call)).trace rest :=
        opening_not_mem_trace (by rw [lowest_act]; exact Option.some_ne_none _) rest
      rw [OpensDrawing, trace, sent]
      -- whether the opening is put out depends on the channel alone; the row is noted in either
      -- case
      rcases terminal.out.writeRefusal with _ | why
      · refine .inl ⟨rfl, ?_⟩
        rw [accepted, h]
        rcases terminal.out.flushRefusal with _ | why
        · exact ⟨_, rfl, by simpa [pieceOf] using hrest⟩
        · exact ⟨_, rfl, by simpa using hrest⟩
      · exact .inr ⟨by simp, by simpa using hrest⟩
    | finish =>
      obtain ⟨hsent, hnext⟩ := sent_of_untouched h (a := .finish) (by simp)
      rw [OpensDrawing, trace, hsent, List.nil_append]
      · exact ih hnext
      · simp
    | refuse writes flushes =>
      obtain ⟨hsent, hnext⟩ := sent_of_untouched h (a := .refuse writes flushes) (by simp)
      rw [OpensDrawing, trace, hsent, List.nil_append]
      · exact ih hnext
      · simp

/-- What of a terminal's pieces is on a cleared screen, if the channel changes between operations
only. The opening comes first or not at all, so it prepares for all texts or for none. -/
theorem onClearedScreen_trace_iff {terminal : Terminal} (h : terminal.lowest = none)
    (acts : List TerminalAct) :
    Piece.OnClearedScreen (terminal.trace acts) ↔
      terminal.OpensDrawing acts ∨ ∀ piece ∈ terminal.trace acts, piece.isText = false := by
  rw [Piece.OnClearedScreen]
  -- either the opening is at the front, or there is none and then no text may be there
  rcases trace_of_untouched h acts with ⟨hopens, pieces, htrace, -⟩ | ⟨hopens, hnone⟩
  · rw [htrace]
    refine iff_of_true (prepared_cons ?_ ?_ pieces) (.inl hopens)
    · rfl
    · -- the opening is no text
      decide
  · have hunprepared : ∀ piece ∈ terminal.trace acts, piece ≠ .opening := by
      rintro _ hmem rfl
      exact hnone hmem
    rw [prepared_iff_of_none hunprepared, or_iff_right hopens]
    simp only [Bool.not_eq_true]

end Terminal

/-! ## Pieces that may be torn -/

namespace Reception

/-- Whether the clear-screen sequence arrives when the opening is received so. -/
def Clears (r : Reception) : Prop :=
  Terminal.clear.toList <+: (r.part Terminal.opening).toList

/-- Whether no write is refused among the first characters of a text. -/
def Carries (count : Nat) : Reception → Prop
  | cut written _ => count ≤ written
  | _ => True

/-- The clear-screen sequence is the first four characters of the opening. So it arrives if these
do, whatever becomes of the others and of the flush. -/
theorem clears_iff (r : Reception) : r.Clears ↔ r.Carries 4 := by
  have hfirst : Terminal.clear.toList <+: Terminal.opening.toList := by
    rw [Terminal.opening, String.toList_append]
    exact List.prefix_append _ _
  cases r with
  | taken => exact iff_of_true hfirst trivial
  | unflushed why => exact iff_of_true hfirst trivial
  | cut written why =>
    rw [Clears, part, String.toList_ofList, List.prefix_take_iff, and_iff_right hfirst]
    exact Iff.rfl

end Reception

namespace Delivery

/-- A delivery of which the clear-screen sequence arrives. -/
def Clears (d : Delivery) : Prop := d.piece = .opening ∧ d.reception.Clears

/-- A delivery of which a character of the text of a draw call arrives: after the sequences for the
cell and the color, at least the first one. -/
def ShowsText (d : Delivery) : Prop :=
  ∃ column row color content first rest,
    d.piece = .text column row color content ∧ content.toList = first :: rest ∧
      (Terminal.move column row ++ Terminal.select color).toList ++ [first] <+:
        (d.reception.part d.piece.sequence).toList

/-- Every delivery that shows a text has one before it that clears the screen. -/
def OnClearedScreen (deliveries : List Delivery) : Prop :=
  Prepared Clears ShowsText deliveries

theorem not_showsText_opening (r : Reception) : ¬ (⟨.opening, r⟩ : Delivery).ShowsText := by
  rintro ⟨column, row, color, content, first, rest, hpiece, -⟩
  exact absurd hpiece (by simp)

end Delivery

namespace Terminal

/-- Whether no write is refused among the first four characters that the first draw call of a
sequence of operations sends. -/
def ClearsScreen : List TerminalUse → Prop
  | [] => False
  | .draw _ first _ :: _ => first.Carries 4
  | .finish _ :: rest => ClearsScreen rest

/-- After the first draw call the screen is not cleared. -/
theorem opening_not_mem_delivered {terminal : Terminal} (h : terminal.lowest ≠ none)
    (uses : List TerminalUse) : .opening ∉ (terminal.delivered uses).map Delivery.piece := by
  have hcount := terminal.count_opening_le uses
  rw [if_neg h, Nat.le_zero] at hcount
  exact List.count_eq_zero.1 hcount

/-- Nothing is sent before the first draw call, and that sends the opening before anything else. So
what is sent begins with the one opening that there is, or it is nothing at all. -/
theorem delivered_of_untouched {terminal : Terminal} (h : terminal.lowest = none)
    (uses : List TerminalUse) :
    (∃ first later, terminal.delivered uses = ⟨.opening, first⟩ :: later ∧
        .opening ∉ later.map Delivery.piece ∧ (ClearsScreen uses ↔ first.Clears)) ∨
      terminal.delivered uses = [] ∧ ¬ ClearsScreen uses := by
  induction uses with
  | nil => exact .inr ⟨rfl, id⟩
  | cons u rest ih =>
    cases u with
    | draw call first second =>
      -- after this call a row is noted, so no opening follows
      have hrest : .opening ∉ ((terminal.use (.draw call first second)).delivered rest).map
          Delivery.piece :=
        opening_not_mem_delivered (by rw [lowest_use]; exact Option.some_ne_none _) rest
      refine .inl ⟨first, ?_⟩
      rw [delivered, deliveries, h]
      rcases first.refusal with _ | why
      · exact ⟨_, rfl, by simpa [pieceOf] using hrest, first.clears_iff.symm⟩
      · exact ⟨_, rfl, hrest, first.clears_iff.symm⟩
    | finish r =>
      rw [delivered, deliveries, h, use, finishReceived_of_untouched h]
      exact ih

/-- What of a terminal's texts is on a cleared screen, if the channel may fail at any character. Of
the one opening that there is, only the part that arrived counts, and it clears the screen if the
sequence for that is in it. -/
theorem onClearedScreen_delivered_iff {terminal : Terminal} (h : terminal.lowest = none)
    (uses : List TerminalUse) :
    Delivery.OnClearedScreen (terminal.delivered uses) ↔
      ClearsScreen uses ∨ ∀ d ∈ terminal.delivered uses, ¬ d.ShowsText := by
  rw [Delivery.OnClearedScreen]
  rcases delivered_of_untouched h uses with
    ⟨first, later, hdelivered, hlater, hclears⟩ | ⟨hdelivered, hclears⟩
  · rw [hdelivered, hclears]
    by_cases hfirst : first.Clears
    · exact iff_of_true
        (prepared_cons ⟨rfl, hfirst⟩ (Delivery.not_showsText_opening first) later) (.inl hfirst)
    · -- the only opening does not clear the screen
      have hnone : ∀ d ∈ (⟨.opening, first⟩ : Delivery) :: later, ¬ d.Clears := by
        rintro d hmem ⟨hpiece, hreception⟩
        rcases List.mem_cons.1 hmem with rfl | hmem
        · exact hfirst hreception
        · exact hlater (List.mem_map.2 ⟨d, hmem, hpiece⟩)
      rw [prepared_iff_of_none hnone, or_iff_right hfirst]
  · have hnone : ∀ d ∈ terminal.delivered uses, ¬ d.Clears := by
      rw [hdelivered]
      exact fun d hmem => absurd hmem List.not_mem_nil
    rw [prepared_iff_of_none hnone, or_iff_right hclears]

/-! ## All sequences of operations -/

/-- **The texts that a terminal puts out are on a cleared screen exactly when the first draw call
could clear it, or there are none.** That holds of sequences of operations with refusals between
them, each of which is one with receptions, and of all sequences with receptions. -/
theorem onClearedScreen_iff (settings : Settings) :
    let start := ofSettings settings .fresh
    (∀ acts, (start.after acts).out.written = Piece.output (start.trace acts) ∧
      (Piece.OnClearedScreen (start.trace acts) ↔
        start.OpensDrawing acts ∨ ∀ piece ∈ start.trace acts, piece.isText = false)) ∧
    (∀ acts, ∃ writes flushes, start.after acts =
      (start.usedFor (start.usesOf acts)).act (.refuse writes flushes)) ∧
    ∀ uses, (start.usedFor uses).out.written = Delivery.output (start.delivered uses) ∧
      (Delivery.OnClearedScreen (start.delivered uses) ↔
        ClearsScreen uses ∨ ∀ d ∈ start.delivered uses, ¬ d.ShowsText) := by
  intro start
  have huntouched : start.lowest = none := rfl
  refine ⟨fun acts => ⟨?_, onClearedScreen_trace_iff huntouched acts⟩, start.exists_after_eq,
    fun uses => ⟨?_, onClearedScreen_delivered_iff huntouched uses⟩⟩
  · exact (written_after start acts).trans String.empty_append
  · exact (written_usedFor start uses).trans String.empty_append

/-- A refusal at the first draw call that is over at the second leaves the screen as it was. -/
theorem trace_of_refused_opening {terminal : Terminal} (h : terminal.lowest = none)
    (first second : DrawCall) (why : String) :
    terminal.trace [.refuse (some why) none, .draw first, .refuse none none, .draw second] =
      [terminal.pieceOf second] := by
  obtain ⟨cellWidth, lineHeight, palette, lowest, written, writes, flushes⟩ := terminal
  obtain rfl : lowest = none := h
  cases writes with
  | none => rfl
  | some earlier => rfl

/-- Not all texts of all sequences of operations are on a cleared screen. -/
theorem not_onClearedScreen :
    ¬ ∀ settings acts, Piece.OnClearedScreen ((ofSettings settings .fresh).trace acts) := by
  intro h
  have hcleared := h .default [.refuse (some "write refused") none,
    .draw ⟨"a", .ofNat 10, .ofNat 20, .text⟩, .refuse none none,
    .draw ⟨"b", .ofNat 10, .ofNat 40, .text⟩]
  rw [trace_of_refused_opening rfl] at hcleared
  obtain ⟨earlier, hearlier, -⟩ := hcleared [] _ [] rfl rfl
  exact absurd hearlier List.not_mem_nil

end Terminal

end CanvasScript
