/-
What a terminal puts on its channel.

A terminal sends three kinds of texts: what opens a drawing, the text of a draw call at its cell,
and what closes the drawing. Between any two operations the channel may begin or cease to refuse
writes, and likewise flushes. So the output of a sequence of operations is a list of such pieces,
and the terminal's own state decides which piece comes next.

That state holds only the lowest row. It is noted at every draw call, whether anything of the call
reached the channel or not, and the drawing is opened at a call that finds no row noted. So there is
one attempt at opening it, at the first draw call, and `opening_not_mem_trace` says that none
follows it. On a channel that refuses nothing the output is then the opening and all texts after it.

What becomes of a text that the channel takes in part is said in `TerminalSessions`, and what all of
this means for the screen in `ClearedScreen`.
-/
import CanvasScript.Surface.Terminal

set_option autoImplicit false

namespace CanvasScript

/-! ## Pieces of output -/

/-- What a terminal sends in one go. -/
inductive Piece where
  /-- The cleared screen and the first cell. -/
  | opening
  /-- A text at a cell in a color. -/
  | text (column row : Nat) (color : TerminalColor) (content : String)
  /-- The cell below the lowest row. -/
  | closing (lowest : Nat)
  deriving DecidableEq

namespace Piece

def sequence : Piece → String
  | opening => Terminal.opening
  | text column row color content => Terminal.placed column row color content
  | closing lowest => Terminal.closing lowest

def isText : Piece → Bool
  | text _ _ _ _ => true
  | _ => false

/-- The output that pieces make up. -/
def output : List Piece → String
  | [] => ""
  | piece :: rest => piece.sequence ++ output rest

theorem output_append (front back : List Piece) :
    output (front ++ back) = output front ++ output back := by
  induction front with
  | nil => simp [output]
  | cons piece rest ih => simp [output, ih, String.append_assoc]

/-- Pieces are put out in their order. -/
theorem output_eq_join (pieces : List Piece) :
    output pieces = String.join (pieces.map sequence) := by
  induction pieces with
  | nil => rfl
  | cons piece rest ih => rw [List.map_cons, String.join_cons, ← ih, output]

end Piece

/-! ## Sequences of operations -/

/-- What is done to a terminal, or happens to its channel. -/
inductive TerminalAct where
  | draw (call : DrawCall)
  | finish
  /-- From here on the channel refuses writes, or flushes, with given words, or no longer. -/
  | refuse (writes flushes : Option String)

namespace Terminal

def pieceOf (terminal : Terminal) (call : DrawCall) : Piece :=
  .text (terminal.columnOf call.x) (terminal.rowOf call.y) (terminal.palette.map call.color)
    call.text

def act (terminal : Terminal) : TerminalAct → Terminal
  | .draw call => (Surface.draw terminal call).1
  | .finish => terminal.finish.1
  | .refuse writes flushes => { terminal with out := ⟨terminal.out.written, writes, flushes⟩ }

/-- The terminal after a sequence of operations. -/
def after (terminal : Terminal) (acts : List TerminalAct) : Terminal := acts.foldl act terminal

/-- What an operation puts out while writes are not refused. The opening and the text of a first
draw call are separate, and a refused flush of the one keeps the other back. -/
def accepted (terminal : Terminal) : TerminalAct → List Piece
  | .draw call =>
    match terminal.lowest, terminal.out.flushRefusal with
    | none, some _ => [.opening]
    | none, none => [.opening, terminal.pieceOf call]
    | some _, _ => [terminal.pieceOf call]
  | .finish =>
    match terminal.lowest with
    | none => []
    | some lowest => [.closing (min lowest (lastCell - 1))]
  | .refuse _ _ => []

/-- What an operation puts out. -/
def sent (terminal : Terminal) (a : TerminalAct) : List Piece :=
  match terminal.out.writeRefusal with
  | none => terminal.accepted a
  | some _ => []

/-- What a sequence of operations puts out. -/
def trace (terminal : Terminal) : List TerminalAct → List Piece
  | [] => []
  | a :: rest => terminal.sent a ++ (terminal.act a).trace rest

theorem after_cons (terminal : Terminal) (a : TerminalAct) (rest : List TerminalAct) :
    terminal.after (a :: rest) = (terminal.act a).after rest := rfl

/-- One operation adds its pieces to what was written. The cases are those in which a channel can
be: it takes texts, it takes them and then complains, or it takes none. -/
theorem written_act (terminal : Terminal) (a : TerminalAct) :
    (terminal.act a).out.written = terminal.out.written ++ Piece.output (terminal.sent a) := by
  obtain ⟨cellWidth, lineHeight, palette, lowest, written, writes, flushes⟩ := terminal
  have hnothing : written = written ++ Piece.output [] := String.append_empty.symm
  have hone (piece : Piece) : written ++ piece.sequence = written ++ Piece.output [piece] := by
    rw [Piece.output, Piece.output, String.append_empty]
  cases a with
  | draw call =>
    rcases writes with _ | why
    · -- the opening comes before the text if no row has been noted
      rcases lowest with _ | lowest
      · rcases flushes with _ | why
        · -- the opening and then the text
          rw [sent, accepted, Piece.output, ← String.append_assoc]
          refine Eq.trans ?_ (congrArg _ String.append_empty.symm)
          rfl
        · exact hone .opening
      · exact hone (pieceOf ⟨cellWidth, lineHeight, palette, _, ⟨written, _, flushes⟩⟩ call)
    · rcases lowest with _ | lowest
      · exact hnothing
      · exact hnothing
  | finish =>
    rcases lowest with _ | lowest
    · rcases writes with _ | why
      · exact hnothing
      · exact hnothing
    · rcases writes with _ | why
      · exact hone (.closing (min lowest (lastCell - 1)))
      · exact hnothing
  | refuse =>
    rcases writes with _ | why
    · exact hnothing
    · exact hnothing

/-- **The output is what was there before, and then the pieces of all operations in their order.**
No operation takes back what another has put out. -/
theorem written_after (terminal : Terminal) (acts : List TerminalAct) :
    (terminal.after acts).out.written =
      terminal.out.written ++ Piece.output (terminal.trace acts) := by
  induction acts generalizing terminal with
  | nil => exact (String.append_empty).symm
  | cons a rest ih =>
    rw [after_cons, ih, written_act, trace, Piece.output_append, String.append_assoc]

/-- A surface takes draw calls as operations one after the other. -/
theorem drawAll_eq_after (terminal : Terminal) (calls : List DrawCall) :
    (drawAll terminal calls).1 = terminal.after (calls.map .draw) := by
  induction calls generalizing terminal with
  | nil => rfl
  | cons call rest ih => exact ih _

/-- So what a run puts out on a terminal is the trace of its draw calls. -/
theorem written_drawAll (terminal : Terminal) (calls : List DrawCall) :
    (drawAll terminal calls).1.out.written =
      terminal.out.written ++ Piece.output (terminal.trace (calls.map .draw)) := by
  rw [drawAll_eq_after, written_after]

/-! ## Channels that refuse nothing -/

/-- Where the drawing is open and nothing is refused, each draw call puts out its text. -/
theorem trace_draws {terminal : Terminal} (hwrite : terminal.out.writeRefusal = none)
    (hflush : terminal.out.flushRefusal = none) (hlowest : terminal.lowest ≠ none)
    (calls : List DrawCall) :
    terminal.trace (calls.map .draw) = calls.map terminal.pieceOf := by
  induction calls generalizing terminal with
  | nil => rfl
  | cons call rest ih =>
    obtain ⟨cellWidth, lineHeight, palette, lowest, written, writes, flushes⟩ := terminal
    obtain rfl : writes = none := hwrite
    obtain rfl : flushes = none := hflush
    obtain ⟨lowest, rfl⟩ := Option.ne_none_iff_exists'.1 hlowest
    exact congrArg _ (ih rfl rfl (Option.some_ne_none _))

/-- Draw calls on an untouched terminal put out the opening and then their texts, if there are any
calls. -/
theorem trace_draws_of_untouched {terminal : Terminal} (hwrite : terminal.out.writeRefusal = none)
    (hflush : terminal.out.flushRefusal = none) (hlowest : terminal.lowest = none)
    (calls : List DrawCall) :
    terminal.trace (calls.map .draw) =
      if calls = [] then [] else .opening :: calls.map terminal.pieceOf := by
  rcases calls with _ | ⟨call, rest⟩
  · rfl
  · obtain ⟨cellWidth, lineHeight, palette, lowest, written, writes, flushes⟩ := terminal
    obtain rfl : writes = none := hwrite
    obtain rfl : flushes = none := hflush
    obtain rfl : lowest = none := hlowest
    rw [if_neg (List.cons_ne_nil _ _)]
    -- behind the first call a row is noted, so the others are texts only
    have hrest (next : Terminal) (hout : next.out = ⟨next.out.written, none, none⟩)
        (hlowest : next.lowest ≠ none) : next.trace (rest.map .draw) = rest.map next.pieceOf :=
      trace_draws (by rw [hout]) (by rw [hout]) hlowest rest
    exact congrArg (Piece.opening :: pieceOf _ call :: ·) (hrest _ rfl (Option.some_ne_none _))

/-! ## The opening -/

/-- Whether a drawing has begun: only draw calls begin one, and none ends it. -/
theorem lowest_act (terminal : Terminal) (a : TerminalAct) :
    (terminal.act a).lowest =
      match a with
      | .draw call => some (terminal.lowestWith (terminal.rowOf call.y))
      | _ => terminal.lowest := by
  cases a with
  | draw call => rfl
  | finish =>
    obtain ⟨_, _, _, lowest, _⟩ := terminal
    cases lowest <;> rfl
  | refuse => rfl

/-- A drawing that has begun stays begun. -/
theorem lowest_act_ne_none {terminal : Terminal} (h : terminal.lowest ≠ none) (a : TerminalAct) :
    (terminal.act a).lowest ≠ none := by
  rw [lowest_act]
  cases a with
  | draw call => exact Option.some_ne_none _
  | finish => exact h
  | refuse => exact h

/-- A drawing that has begun is not opened again, not even if its opening was refused. It has begun
with the row of the first draw call. -/
theorem opening_not_mem_sent {terminal : Terminal} (h : terminal.lowest ≠ none) (a : TerminalAct) :
    .opening ∉ terminal.sent a := by
  obtain ⟨lowest, hlowest⟩ := Option.ne_none_iff_exists'.1 h
  rw [sent]
  rcases terminal.out.writeRefusal with _ | why
  · cases a with
    | draw call => simp [accepted, hlowest, pieceOf]
    | finish => simp [accepted, hlowest]
    | refuse => simp [accepted]
  · exact List.not_mem_nil

/-- So whatever is done to a terminal on which there was a draw call, the screen is not cleared
again. -/
theorem opening_not_mem_trace {terminal : Terminal} (h : terminal.lowest ≠ none)
    (acts : List TerminalAct) : .opening ∉ terminal.trace acts := by
  induction acts generalizing terminal with
  | nil => exact List.not_mem_nil
  | cons a rest ih =>
    rw [trace, List.mem_append, not_or]
    exact ⟨opening_not_mem_sent h a, ih (lowest_act_ne_none h a)⟩

end Terminal

end CanvasScript
