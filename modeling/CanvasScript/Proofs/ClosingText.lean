/-
What a binding drops of the text of an object literal.

The lines of a literal are found by counting braces line by line, and its entries are what
stands between its first opening and its last closing brace. So the text behind the last closing
brace is read by nobody. On one line there is none, because a literal that takes no other lines
ends in a brace. But the line that closes a longer literal is only required to lower the depth to
zero, and whatever stands behind its last brace goes with the line and is dropped.

`set_object_text` says that this is all that is dropped: the binding is that of the literal
without the rest of its last line. That the rest need not be blank is `not_keepsText`.
-/
import CanvasScript.Proofs.LineEffect
import CanvasScript.Proofs.LiteralReading

set_option autoImplicit false

namespace CanvasScript

/-! ## The last closing brace of a text -/

/-- A character that a text holds has a last place in it. -/
theorem Text.exists_last {c : Char} {text : List Char} (h : c ∈ text) :
    ∃ front back, text = front ++ c :: back ∧ c ∉ back := by
  obtain ⟨before, after, hreverse, hnot⟩ := List.eq_append_cons_of_mem (List.mem_reverse.2 h)
  refine ⟨after.reverse, before.reverse, ?_, by simpa using hnot⟩
  rw [← List.reverse_reverse text, hreverse]
  simp

/-- The entries of a literal end at its last closing brace. -/
theorem Literal.body?_eq {inner back : List Char} (hback : '\x7d' ∉ back) :
    body? ('\x7b' :: inner ++ '\x7d' :: back) = some inner :=
  body?_eq_some_iff.2 ⟨[], back, rfl, List.not_mem_nil, hback⟩

/-- An object begins with its brace, and is recognised by that alone. -/
theorem Literal.startsObject_iff {text : List Char} :
    startsObject text = true ↔ ∃ rest, text = '\x7b' :: rest := by
  constructor
  · intro h
    rw [startsObject.eq_def] at h
    split at h
    · exact ⟨_, rfl⟩
    · simp at h
  · rintro ⟨rest, rfl⟩
    rfl

/-- What stands behind the last closing brace plays no part in the value. The reader takes for the
body what is between the first brace and the last. -/
theorem Literal.readValue_behind {front back : List Char}
    (hobject : startsObject (front ++ '\x7d' :: back) = true) (hback : '\x7d' ∉ back)
    (vars : Bindings) (line : String) :
    readValue vars line (front ++ '\x7d' :: back) = readValue vars line (front ++ ['\x7d']) := by
  obtain ⟨rest, hrest⟩ := startsObject_iff.1 hobject
  rcases front with _ | ⟨c, inner⟩
  · simp at hrest
  · obtain rfl : c = '\x7b' := (List.cons.inj hrest).1
    have hstarts : ∀ rest : List Char, startsObject ('\x7b' :: rest) = true := fun _ => rfl
    rw [readValue, readValue, List.cons_append, List.cons_append, hstarts, if_pos rfl,
      hstarts, if_pos rfl, readObject, readObject, ← List.cons_append, ← List.cons_append,
      body?_eq hback, body?_eq List.not_mem_nil]

/-! ## The closing line -/

/-- The line on which a literal ends closes more braces than it opens. Before it the literal was
open, and the depth is zero or less behind it. -/
theorem closingFrom?_line {depth : Int} (hdepth : 0 < depth) {start : Nat} {lines : List String}
    {c : Closing} (h : closingFrom? depth start lines = some c) :
    ∃ last, lines[c.line - start]? = some last ∧ braceBalance last < 0 := by
  induction lines generalizing depth start with
  | nil => rw [closingFrom?] at h; simp at h
  | cons line rest ih =>
    rw [closingFrom?] at h
    by_cases hclosed : depth + braceBalance line ≤ 0
    · rw [if_pos hclosed, Option.some.injEq] at h
      have hfirst : c.line - start = 0 := by rw [← h]; exact Nat.sub_self start
      refine ⟨line, ?_, by omega⟩
      rw [hfirst, List.getElem?_cons_zero]
    · rw [if_neg hclosed] at h
      have hbounds := closingFrom?_bounds h
      obtain ⟨last, hlast, hbalance⟩ := ih (by omega) h
      have hlater : c.line - start = (c.line - (start + 1)) + 1 := by omega
      refine ⟨last, ?_, hbalance⟩
      rw [hlater, List.getElem?_cons_succ, hlast]

/-- A line that closes more than it opens has a closing brace. -/
theorem closeBrace_mem_of_braceBalance {line : String} (h : braceBalance line < 0) :
    '\x7d' ∈ line.toList := by
  rw [braceBalance_eq_braceExcess, braceExcess] at h
  apply List.count_pos_iff.1
  omega

namespace Gathered

/-- The last of the lines that are joined stands at the end, behind a space. -/
theorem join_concat (value : String) (lines : List String) (last : String) :
    (join value (lines ++ [last])).toList = (join value lines).toList ++ ' ' :: last.toList := by
  rw [join_eq_foldl, join_eq_foldl, List.foldl_append, List.foldl_cons, List.foldl_nil,
    String.toList_append, String.toList_append, List.append_assoc]
  rfl

/-- The text of a gathered literal ends in a brace if no lines are taken, and else in what
follows the last brace of the last line that is taken. -/
theorem text_of_fromRest {value line : String} {rest : List String} {g : Gathered}
    (h : fromRest value line rest = .ok g) :
    ∃ front back, g.text.toList = front ++ '\x7d' :: back ∧ '\x7d' ∉ back ∧
      (g.consumed = 0 → g.text = value ∧ back = []) ∧
      (0 < g.consumed → ∃ start, rest[g.consumed - 1]? =
        some (String.ofList (start ++ '\x7d' :: back))) := by
  rcases hclosed : isClosed value with _ | _
  · obtain ⟨hscan, htext⟩ := (fromRest_eq_ok_iff hclosed).1 h
    have hbounds := closingFrom?_bounds hscan
    obtain ⟨last, hlast, hbalance⟩ := closingFrom?_line Int.one_pos hscan
    dsimp only at hbounds hlast
    -- the last line that is taken has a closing brace, and it is the end of the text
    obtain ⟨start, back, hsplit, hback⟩ :=
      Text.exists_last (closeBrace_mem_of_braceBalance hbalance)
    obtain ⟨taken, htaken⟩ : ∃ taken, g.consumed = taken + 1 := ⟨g.consumed - 1, by omega⟩
    have hlines : rest.take g.consumed = rest.take taken ++ [last] := by
      rw [htaken, Nat.add_sub_cancel] at hlast
      rw [htaken, List.take_add_one, hlast, Option.toList_some]
    refine ⟨(join value (rest.take taken)).toList ++ ' ' :: start, back, ?_, hback, by omega, ?_⟩
    · rw [htext, hlines, join_concat, hsplit, List.append_assoc, List.cons_append]
    · intro _
      refine ⟨start, ?_⟩
      rw [hlast, ← hsplit, String.ofList_toList]
  · rw [fromRest_of_isClosed hclosed, Except.ok.injEq] at h
    rw [isClosed_eq_true_iff] at hclosed
    obtain ⟨front, hfront⟩ := List.getLast?_eq_some_iff.1 hclosed
    rw [← h]
    exact ⟨front, [], hfront, List.not_mem_nil, fun _ => ⟨rfl, rfl⟩, fun h => absurd h (by simp)⟩

/-- A literal on several lines still begins as it does on its first one. -/
theorem startsObject_of_fromRest {value line : String} {rest : List String} {g : Gathered}
    (h : fromRest value line rest = .ok g) (hobject : Literal.startsObject value.toList = true) :
    Literal.startsObject g.text.toList = true := by
  obtain ⟨rest, hrest⟩ := Literal.startsObject_iff.1 hobject
  rw [Literal.startsObject_iff]
  rcases hclosed : isClosed value with _ | _
  · obtain ⟨-, htext⟩ := (fromRest_eq_ok_iff hclosed).1 h
    rw [htext, join, String.toList_append, hrest, List.cons_append]
    exact ⟨_, rfl⟩
  · rw [fromRest_of_isClosed hclosed, Except.ok.injEq] at h
    rw [← h]
    exact ⟨rest, hrest⟩

end Gathered

/-! ## What a binding drops -/

namespace Builtin

/-- A binding succeeds exactly if its value can be read, and then this is what it binds. Reading the
value is the last of the steps in which it can fail. -/
theorem set_eq_ok_iff {input : CommandInput} {session : Session} {consumed : Nat} :
    (set input session).outcome = .ok consumed ↔
      ∃ name v, readBinding input session.vars = .ok (name, v, consumed) ∧
        (set input session).vars = session.vars.insert name v := by
  rw [set]
  rcases readBinding input session.vars with fault | ⟨name, v, taken⟩
  · simp [Reply.failure]
  · dsimp only
    constructor
    · intro h
      obtain rfl := Except.ok.inj h
      exact ⟨name, v, rfl, rfl⟩
    · rintro ⟨name', v', hread, -⟩
      simp only [Except.ok.injEq, Prod.mk.injEq] at hread
      rw [hread.2.2]

/-- **What a binding of an object drops is the rest of the line that closes it, and no more.**
The text of its literal is some text up to a closing brace and some text without one behind it;
the binding is that of the first part alone, and the second is empty if the literal takes no
lines and otherwise what follows the last closing brace of the last line that it takes. -/
theorem set_object_text {line : String} {lines : List String} {index : Nat} {session : Session}
    {word value : List Char} {consumed : Nat}
    (hpattern : Pattern.binding? line.toList = some (word, value))
    (hobject : Literal.startsObject value = true)
    (hset : (set ⟨line, lines, .ofLines lines, index⟩ session).outcome = .ok consumed) :
    ∃ kept dropped v,
      wholeLiteral ⟨line, lines, .ofLines lines, index⟩ value =
        .ok ⟨String.ofList (kept ++ '\x7d' :: dropped), consumed⟩ ∧
      '\x7d' ∉ dropped ∧
      Literal.readValue session.vars line (kept ++ ['\x7d']) = .ok v ∧
      (set ⟨line, lines, .ofLines lines, index⟩ session).vars =
        session.vars.insert (String.ofList word) v ∧
      (consumed = 0 → dropped = []) ∧
      (0 < consumed → ∃ start, lines[index + consumed]? =
        some (String.ofList (start ++ '\x7d' :: dropped))) := by
  obtain ⟨name, v, hread, hvars⟩ := set_eq_ok_iff.1 hset
  obtain ⟨word', value', literal, hsame, hliteral, hvalue, rfl, rfl⟩ :=
    readBinding_eq_ok_iff.1 hread
  rw [hpattern, Option.some.injEq, Prod.mk.injEq] at hsame
  obtain ⟨rfl, rfl⟩ := hsame
  have hgather : Gathered.fromRest (String.ofList value) line (lines.drop (index + 1)) =
      .ok literal := by
    rw [← hliteral, wholeLiteral_eq_fromRest, if_pos hobject]
  have hstarts := Gathered.startsObject_of_fromRest hgather
    (by rw [String.toList_ofList]; exact hobject)
  obtain ⟨kept, dropped, htext, hdropped, hnone, hlast⟩ := Gathered.text_of_fromRest hgather
  rw [htext] at hvalue hstarts
  rw [Literal.readValue_behind hstarts hdropped] at hvalue
  refine ⟨kept, dropped, v, ?_, hdropped, hvalue, hvars, fun h => (hnone h).2, ?_⟩
  · rw [hliteral, ← htext, String.ofList_toList]
  · intro hpos
    obtain ⟨start, hstart⟩ := hlast hpos
    refine ⟨start, ?_⟩
    rw [List.getElem?_drop] at hstart
    rw [← hstart]
    congr 1
    omega

/-- A literal over three lines, the last of which goes on behind its last brace. -/
theorem set_object_text_of_long_line :
    let lines := ["set p = \x7b", "a: 1,", "b: 2\x7d display(p)"]
    let input : CommandInput := ⟨"set p = \x7b", lines, .ofLines lines, 0⟩
    Pattern.binding? input.line.toList = some (['p'], ['\x7b']) ∧
      Literal.startsObject ['\x7b'] = true ∧
      (set input .fresh).outcome = .ok 2 ∧
      ∃ kept dropped v,
        wholeLiteral input ['\x7b'] = .ok ⟨String.ofList (kept ++ '\x7d' :: dropped), 2⟩ ∧
        '\x7d' ∉ dropped ∧
        Literal.readValue .empty input.line (kept ++ ['\x7d']) = .ok v ∧
        (set input .fresh).vars = Keyed.empty.insert "p" v ∧
        (2 = 0 → dropped = []) ∧
        (0 < 2 → ∃ start, lines[0 + 2]? =
          some (String.ofList (start ++ '\x7d' :: dropped))) := by
  intro lines input
  have hpattern : Pattern.binding? input.line.toList = some (['p'], ['\x7b']) := by decide
  have hset : (set input .fresh).outcome = .ok 2 := by decide
  exact ⟨hpattern, rfl, hset, set_object_text hpattern rfl hset⟩

/-- A binding of an object keeps the text of its literal: nothing but blanks stands behind the
last closing brace of the text that it reads. -/
def KeepsText (input : CommandInput) (session : Session) : Prop :=
  ∀ word value literal consumed kept dropped,
    Pattern.binding? input.line.toList = some (word, value) →
    Literal.startsObject value = true →
    wholeLiteral input value = .ok literal →
    (set input session).outcome = .ok consumed →
    literal.text.toList = kept ++ '\x7d' :: dropped → '\x7d' ∉ dropped →
    ∀ c ∈ dropped, Text.isBlank c = true

/-- A line that closes a literal may go on behind the brace, and what is there is dropped. -/
theorem not_keepsText :
    ¬ ∀ line lines index session, lines[index]? = some line →
      KeepsText ⟨line, lines, .ofLines lines, index⟩ session := by
  intro h
  have hkeeps := h "set p = \x7b" ["set p = \x7b", "a: 1\x7d junk"] 0 .fresh rfl
    ['p'] ['\x7b'] ⟨"\x7b a: 1\x7d junk", 1⟩ 1 "\x7b a: 1".toList " junk".toList
    (by decide) rfl (by decide) (by decide) (by decide) (by decide)
  exact absurd (hkeeps 'j' (by decide)) (by decide)

end Builtin

end CanvasScript
