/-
What a terminal puts out when its channel may fail at any point.

A text goes to a channel bit by bit, and the channel may begin to refuse at any of them. So of the
text of an operation some characters at its start may be all that arrives, or all of it may arrive
and the flush be refused. The channels of this library refuse from one operation to another; here
every single text has a reception of its own. An operation whose texts are all received as its
channel would receive them is the operation itself, so a sequence of operations with refusals
between them is one of those sequences.

Two things about a terminal do not depend on receptions: the drawing is opened at the first draw
call and at no other, and the lowest row is that of all draw calls so far, which failed calls count
among. So whatever failed before, leaving the terminal moves below that row.
-/
import CanvasScript.Proofs.TerminalTrace

set_option autoImplicit false

namespace CanvasScript

/-! ## Receptions -/

/-- How a text is received that is sent to a channel. -/
inductive Reception where
  /-- It is written and flushed. -/
  | taken
  /-- It is written, and the flush is refused. -/
  | unflushed (why : String)
  /-- So many of its characters are written, and then a write is refused. -/
  | cut (count : Nat) (why : String)
  deriving DecidableEq

namespace Reception

/-- What arrives of a text. -/
def part : Reception → String → String
  | cut count _, text => String.ofList (text.toList.take count)
  | _, text => text

def refusal : Reception → Option String
  | taken => none
  | unflushed why => some why
  | cut _ why => some why

/-- Whether no write is refused. -/
def writes : Reception → Bool
  | cut _ _ => false
  | _ => true

/-- If no write is refused, a text arrives as a whole, flushed or not. -/
theorem part_of_writes {r : Reception} (h : r.writes = true) (text : String) :
    r.part text = text := by
  cases r with
  | taken => rfl
  | unflushed why => rfl
  | cut count why => exact Bool.noConfusion h

end Reception

namespace Channel

/-- How a channel receives the next text, with its refusals as they are. -/
def reception (channel : Channel) : Reception :=
  match channel.writeRefusal, channel.flushRefusal with
  | some why, _ => .cut 0 why
  | none, some why => .unflushed why
  | none, none => .taken

/-- Sends a text that is received in a given way, whatever the channel itself refuses. -/
def receive (channel : Channel) (r : Reception) (text : String) : Channel × Option String :=
  ({ channel with written := channel.written ++ r.part text }, r.refusal)

/-- A channel sends a text as it would receive it, with its refusals as they are. -/
theorem send_eq_receive (channel : Channel) (text : String) :
    channel.send text = channel.receive channel.reception text := by
  obtain ⟨written, writes, flushes⟩ := channel
  rcases writes with _ | why
  · rcases flushes with _ | why
    · rfl
    · rfl
  · simp [send, receive, reception, Reception.part, Reception.refusal]

end Channel

namespace Terminal

/-! ## Operations -/

/-- Sends a text after the drawing is open. The first reception is that of the opening. -/
def sendReceived (terminal : Terminal) (first second : Reception) (text : String) :
    Channel × Option String :=
  match terminal.lowest, first.refusal with
  | some _, _ => terminal.out.receive second text
  | none, none => (terminal.out.receive first opening).1.receive second text
  | none, some why => ((terminal.out.receive first opening).1, some why)

/-- A draw call of which the opening, if this is the first, and the text are received as given. -/
def drawReceived (terminal : Terminal) (call : DrawCall) (first second : Reception) :
    Terminal × List Event :=
  let sent := terminal.sendReceived first second (terminal.pieceOf call).sequence
  ({ terminal with
      lowest := some (terminal.lowestWith (terminal.rowOf call.y)), out := sent.1 },
    match sent.2 with
    | none => []
    | some why => [.terminalWriteFailed why])

/-- Leaves the drawing, with the closing received as given. -/
def finishReceived (terminal : Terminal) (r : Reception) : Terminal × Option String :=
  match terminal.lowest with
  | none => (terminal, none)
  | some lowest =>
    let sent := terminal.out.receive r (closing (min lowest (lastCell - 1)))
    ({ terminal with out := sent.1 }, sent.2)

/-- Leaves the drawing for good, with the closing received as given. -/
def dropReceived (terminal : Terminal) (r : Reception) : Terminal × List Event :=
  match terminal.finishReceived r with
  | (last, none) => (last, [])
  | (last, some why) => (last, [.terminalFlushFailed why])

/-- The opening and the text behind it meet the same refusals, since nothing comes between the two.
-/
theorem sendOpened_eq_sendReceived (terminal : Terminal) (text : String) :
    terminal.sendOpened text =
      terminal.sendReceived terminal.out.reception terminal.out.reception text := by
  rw [sendOpened, opened, sendReceived]
  rcases terminal.lowest with _ | lowest
  · rw [Channel.send_eq_receive, Channel.receive]
    rcases terminal.out.reception.refusal with _ | why
    · exact Channel.send_eq_receive _ text
    · rfl
  · exact Channel.send_eq_receive _ text

/-- **The operations are those whose texts are received as the channel receives them.** So whatever
is shown of all receptions holds of the channels of the library. -/
theorem operations_received (terminal : Terminal) :
    let r := terminal.out.reception
    (∀ call, Surface.draw terminal call = terminal.drawReceived call r r) ∧
      terminal.finish = terminal.finishReceived r ∧ terminal.drop = terminal.dropReceived r := by
  intro r
  have hfinish : terminal.finish = terminal.finishReceived r := by
    rw [finish, finishReceived]
    rcases terminal.lowest with _ | lowest
    · rfl
    · dsimp only
      rw [Channel.send_eq_receive]
  refine ⟨fun call => ?_, hfinish, ?_⟩
  · have hsend := terminal.sendOpened_eq_sendReceived (terminal.pieceOf call).sequence
    rw [drawReceived, ← hsend]
    rfl
  · -- leaving does what finishing does, and only drops what went wrong
    rcases hsent : terminal.finishReceived r with ⟨last, _ | why⟩
    · rw [drop, dropReceived, hfinish, hsent]
    · rw [drop, dropReceived, hfinish, hsent]

end Terminal

/-! ## Sequences of operations -/

/-- An operation on a terminal, and how its texts are received. -/
inductive TerminalUse where
  | draw (call : DrawCall) (first second : Reception)
  | finish (closing : Reception)

/-- A piece on its way to the channel. -/
structure Delivery where
  piece : Piece
  reception : Reception
  deriving DecidableEq

/-- What arrives of pieces. -/
def Delivery.output (deliveries : List Delivery) : String :=
  String.join (deliveries.map fun d => d.reception.part d.piece.sequence)

/-- Deliveries one after the other put out their outputs one after the other. -/
theorem Delivery.output_append (front back : List Delivery) :
    Delivery.output (front ++ back) = Delivery.output front ++ Delivery.output back := by
  rw [Delivery.output, List.map_append, String.join_append]
  rfl

namespace Terminal

def use (terminal : Terminal) : TerminalUse → Terminal
  | .draw call first second => (terminal.drawReceived call first second).1
  | .finish r => (terminal.finishReceived r).1

/-- The terminal after a sequence of operations. -/
def usedFor (terminal : Terminal) (uses : List TerminalUse) : Terminal := uses.foldl use terminal

/-- The pieces that an operation sends. The text of a draw call is not sent if its opening fails. -/
def deliveries (terminal : Terminal) : TerminalUse → List Delivery
  | .draw call first second =>
    match terminal.lowest, first.refusal with
    | some _, _ => [⟨terminal.pieceOf call, second⟩]
    | none, none => [⟨.opening, first⟩, ⟨terminal.pieceOf call, second⟩]
    | none, some _ => [⟨.opening, first⟩]
  | .finish r =>
    match terminal.lowest with
    | none => []
    | some lowest => [⟨.closing (min lowest (lastCell - 1)), r⟩]

/-- The pieces that a sequence of operations sends. -/
def delivered (terminal : Terminal) : List TerminalUse → List Delivery
  | [] => []
  | u :: rest => terminal.deliveries u ++ (terminal.use u).delivered rest

/-- The rows of the draw calls in a sequence of operations. -/
def rowsCalled (terminal : Terminal) (uses : List TerminalUse) : List Nat :=
  uses.filterMap fun
    | .draw call _ _ => some (terminal.rowOf call.y)
    | .finish _ => none

/-- Leaving the drawing changes nothing but the channel. -/
theorem exists_finishReceived (terminal : Terminal) (r : Reception) :
    ∃ out, (terminal.finishReceived r).1 = { terminal with out := out } := by
  obtain ⟨cellWidth, lineHeight, palette, lowest, out⟩ := terminal
  rcases lowest with _ | lowest
  · exact ⟨out, rfl⟩
  · exact ⟨_, rfl⟩

/-- The geometry of a terminal does not change, so neither do the rows of later calls. -/
theorem rowOf_use (terminal : Terminal) (u : TerminalUse) :
    (terminal.use u).rowOf = terminal.rowOf := by
  cases u with
  | draw call first second => rfl
  | finish r =>
    obtain ⟨out, hnext⟩ := terminal.exists_finishReceived r
    rw [use, hnext]
    rfl

theorem rowsCalled_use (terminal : Terminal) (u : TerminalUse) (uses : List TerminalUse) :
    (terminal.use u).rowsCalled uses = terminal.rowsCalled uses := by
  rw [rowsCalled, rowsCalled, rowOf_use]

/-- A draw call notes its row whatever is received of it, and leaving the drawing notes nothing. -/
theorem lowest_use (terminal : Terminal) (u : TerminalUse) :
    (terminal.use u).lowest =
      match u with
      | .draw call _ _ => some (terminal.lowestWith (terminal.rowOf call.y))
      | .finish _ => terminal.lowest := by
  cases u with
  | draw call first second => rfl
  | finish r =>
    obtain ⟨out, hnext⟩ := terminal.exists_finishReceived r
    rw [use, hnext]

/-- One operation adds what arrives of its pieces. A text that follows an opening is sent only if
the opening was received as a whole and without complaint. -/
theorem written_use (terminal : Terminal) (u : TerminalUse) :
    (terminal.use u).out.written =
      terminal.out.written ++ Delivery.output (terminal.deliveries u) := by
  cases u with
  | draw call first second =>
    change (terminal.sendReceived first second (terminal.pieceOf call).sequence).1.written = _
    rw [sendReceived, deliveries]
    rcases terminal.lowest with _ | lowest
    · -- the text is sent behind the opening unless that was refused
      rcases first.refusal with _ | why
      · simp [Channel.receive, Delivery.output, Piece.sequence, String.append_assoc]
      · simp [Channel.receive, Delivery.output, Piece.sequence]
    · simp [Channel.receive, Delivery.output]
  | finish r =>
    rw [use, finishReceived, deliveries]
    rcases terminal.lowest with _ | lowest
    · simp [Delivery.output]
    · simp [Channel.receive, Delivery.output, Piece.sequence]

theorem usedFor_cons (terminal : Terminal) (u : TerminalUse) (rest : List TerminalUse) :
    terminal.usedFor (u :: rest) = (terminal.use u).usedFor rest := rfl

/-- The output is what was there before, and then what arrives of all pieces in their order. -/
theorem written_usedFor (terminal : Terminal) (uses : List TerminalUse) :
    (terminal.usedFor uses).out.written =
      terminal.out.written ++ Delivery.output (terminal.delivered uses) := by
  induction uses generalizing terminal with
  | nil => exact String.append_empty.symm
  | cons u rest ih =>
    rw [usedFor_cons, ih, written_use, delivered, Delivery.output_append, String.append_assoc]

/-! ## Sequences as the channel receives them -/

/-- The operations in a sequence, with the receptions that the channel gives their texts. -/
def usesOf (terminal : Terminal) : List TerminalAct → List TerminalUse
  | [] => []
  | a :: rest =>
    let r := terminal.out.reception
    match a with
    | .draw call => .draw call r r :: (terminal.act a).usesOf rest
    | .finish => .finish r :: (terminal.act a).usesOf rest
    | .refuse _ _ => (terminal.act a).usesOf rest

/-- Where receptions are given, it makes no difference what the channel refuses. A reception says
what becomes of a text, so the refusals of the channel are never asked. -/
theorem use_refuse (terminal : Terminal) (u : TerminalUse) (writes flushes : Option String) :
    (terminal.act (.refuse writes flushes)).use u =
      (terminal.use u).act (.refuse writes flushes) := by
  obtain ⟨cellWidth, lineHeight, palette, lowest, out⟩ := terminal
  cases u with
  | draw call first second =>
    rcases lowest with _ | lowest
    · rcases first with _ | why | ⟨count, why⟩
      · rfl
      · rfl
      · rfl
    · rfl
  | finish r =>
    rcases lowest with _ | lowest
    · rfl
    · rfl

/-- So refusals can be moved behind operations whose receptions are given. -/
theorem usedFor_refuse (terminal : Terminal) (uses : List TerminalUse)
    (writes flushes : Option String) :
    (terminal.act (.refuse writes flushes)).usedFor uses =
      (terminal.usedFor uses).act (.refuse writes flushes) := by
  induction uses generalizing terminal with
  | nil => rfl
  | cons u rest ih => rw [usedFor_cons, usedFor_cons, use_refuse, ih]

/-- A sequence of operations with refusals between them is one with receptions, up to what the
channel refuses in the end. -/
theorem exists_after_eq (terminal : Terminal) (acts : List TerminalAct) :
    ∃ writes flushes, terminal.after acts =
      (terminal.usedFor (terminal.usesOf acts)).act (.refuse writes flushes) := by
  induction acts generalizing terminal with
  | nil => exact ⟨terminal.out.writeRefusal, terminal.out.flushRefusal, rfl⟩
  | cons a rest ih =>
    obtain ⟨writes, flushes, hrest⟩ := ih (terminal.act a)
    obtain ⟨hdraw, hfinish, -⟩ := terminal.operations_received
    rw [after_cons, hrest]
    refine ⟨writes, flushes, ?_⟩
    -- each operation is its use with the reception of the channel, and a refusal is kept to the end
    cases a with
    | draw call =>
      have hnext : terminal.act (.draw call) = terminal.use (.draw call _ _) :=
        congrArg Prod.fst (hdraw call)
      rw [usesOf, usedFor_cons, ← hnext]
    | finish =>
      have hnext : terminal.act .finish = terminal.use (.finish _) := congrArg Prod.fst hfinish
      rw [usesOf, usedFor_cons, ← hnext]
    | refuse earlier earlier' =>
      rw [usesOf, usedFor_refuse]
      rfl

/-! ## The opening -/

/-- The screen is cleared by the first draw call, if there was none yet, and by no other. The row of
a draw call is noted before the opening is sent, so not even a failed opening is made again. -/
theorem count_opening_le (terminal : Terminal) (uses : List TerminalUse) :
    ((terminal.delivered uses).map Delivery.piece).count .opening ≤
      if terminal.lowest = none then 1 else 0 := by
  induction uses generalizing terminal with
  | nil => exact Nat.zero_le _
  | cons u rest ih =>
    have hrest := ih (terminal.use u)
    rw [delivered, List.map_append, List.count_append]
    rw [lowest_use] at hrest
    cases u with
    | draw call first second =>
      rw [if_neg (Option.some_ne_none _), Nat.le_zero] at hrest
      rw [hrest, deliveries]
      rcases terminal.lowest with _ | lowest
      · rcases first.refusal with _ | why
        · simp [pieceOf]
        · simp
      · simp [pieceOf]
    | finish r =>
      rw [deliveries]
      rcases hlowest : terminal.lowest with _ | lowest
      · simpa [hlowest] using hrest
      · simpa [hlowest] using hrest

/-! ## The lowest row -/

/-- The lowest row is that of all draw calls so far, those that failed included. A draw call notes
its row before it sends anything. -/
theorem lowest_usedFor (terminal : Terminal) (uses : List TerminalUse) :
    (terminal.usedFor uses).lowest =
      match terminal.lowest with
      | none => (terminal.rowsCalled uses).max?
      | some lowest => some ((terminal.rowsCalled uses).foldl max lowest) := by
  induction uses generalizing terminal with
  | nil =>
    rcases h : terminal.lowest with _ | lowest
    · exact h
    · exact h
  | cons u rest ih =>
    rw [usedFor_cons, ih, rowsCalled_use, lowest_use]
    cases u with
    | draw call first second =>
      obtain ⟨cellWidth, lineHeight, palette, lowest, out⟩ := terminal
      cases lowest with
      | none => exact List.max?_cons'.symm
      | some lowest => rfl
    | finish r => rfl

/-- Where nothing was drawn, there is nothing to leave. -/
theorem finishReceived_of_untouched {terminal : Terminal} (h : terminal.lowest = none)
    (r : Reception) : terminal.finishReceived r = (terminal, none) := by
  rw [finishReceived, h]

/-- Operations on an untouched terminal that are no draw calls leave it as it is. -/
theorem usedFor_of_idle {terminal : Terminal} (h : terminal.lowest = none) {uses : List TerminalUse}
    (hidle : terminal.rowsCalled uses = []) : terminal.usedFor uses = terminal := by
  induction uses with
  | nil => rfl
  | cons u rest ih =>
    cases u with
    | draw call first second => exact absurd hidle (List.cons_ne_nil _ _)
    | finish r =>
      rw [usedFor_cons, use, finishReceived_of_untouched h]
      exact ih hidle

/-- Leaving for good puts out what leaving does. -/
theorem dropReceived_fst (terminal : Terminal) (r : Reception) :
    (terminal.dropReceived r).1 = (terminal.finishReceived r).1 := by
  rw [dropReceived]
  rcases terminal.finishReceived r with ⟨last, _ | why⟩
  · rfl
  · rfl

/-- Leaving moves below the lowest row, if that is not among the last, and ends the line there. -/
theorem written_finishReceived {terminal : Terminal} {lowest : Nat}
    (h : terminal.lowest = some lowest) (hroom : lowest < lastCell - 1) {r : Reception}
    (hwrites : r.writes = true) :
    (terminal.finishReceived r).1.out.written =
      terminal.out.written ++ (move 0 (1 + lowest) ++ "\n") := by
  rw [finishReceived, h, Nat.add_comm]
  dsimp only
  rw [Channel.receive, Reception.part_of_writes hwrites, Nat.min_eq_left (Nat.le_of_lt hroom),
    closing]

/-! ## Whole sessions -/

/-- What a terminal does that is used for a sequence of operations, whatever fails in them. -/
structure IsOrderly (start : Terminal) (uses : List TerminalUse) : Prop where
  written_eq : (start.usedFor uses).out.written =
    start.out.written ++ Delivery.output (start.delivered uses)
  /-- The screen is cleared once, or not at all. -/
  cleared_once : ((start.delivered uses).map Delivery.piece).count .opening ≤ 1
  /-- Without a draw call, nothing is put out, and there is nothing to leave. -/
  idle : start.rowsCalled uses = [] →
    start.usedFor uses = start ∧
      ∀ r, start.finishReceived r = (start, none) ∧ start.dropReceived r = (start, [])
  /-- After draw calls, leaving moves below the lowest of their rows, if it can write. -/
  parked : ∀ lowest, (start.rowsCalled uses).max? = some lowest → lowest < lastCell - 1 →
    ∀ r : Reception, r.writes = true →
      ((start.usedFor uses).finishReceived r).1.out.written =
          (start.usedFor uses).out.written ++ (move 0 (1 + lowest) ++ "\n") ∧
        ((start.usedFor uses).dropReceived r).1.out.written =
          (start.usedFor uses).out.written ++ (move 0 (1 + lowest) ++ "\n")

/-- All of this holds of every terminal on which nothing was drawn before. Nothing is assumed of how
its texts are received. -/
theorem isOrderly (start : Terminal) (hstart : start.lowest = none) (uses : List TerminalUse) :
    start.IsOrderly uses := by
  have hlowest : (start.usedFor uses).lowest = (start.rowsCalled uses).max? := by
    rw [lowest_usedFor, hstart]
  refine ⟨start.written_usedFor uses, ?_, fun hidle => ⟨usedFor_of_idle hstart hidle, fun r => ?_⟩,
    fun lowest hrows hroom r hwrites => ?_⟩
  · have hcount := start.count_opening_le uses
    rwa [if_pos hstart] at hcount
  · have hfinish := finishReceived_of_untouched hstart r
    refine ⟨hfinish, ?_⟩
    rw [dropReceived, hfinish]
  · rw [dropReceived_fst, written_finishReceived (hlowest.trans hrows) hroom hwrites]
    exact ⟨rfl, rfl⟩

/-- **Whatever fails, a terminal opens its drawing at most once, puts nothing out before the first
draw call, and leaves the drawing below the lowest row of all draw calls so far. If nothing fails,
its output is the opening and then all texts at their cells, in their order.** The first two parts
say that the receptions are no other operations than those of the library, only with every way to
fail. -/
theorem session_output (settings : Settings) :
    let start := ofSettings settings .fresh
    (∀ (terminal : Terminal) (r : Reception), terminal.out.reception = r →
      (∀ call, Surface.draw terminal call = terminal.drawReceived call r r) ∧
        terminal.finish = terminal.finishReceived r ∧ terminal.drop = terminal.dropReceived r) ∧
    (∀ acts, ∃ writes flushes, start.after acts =
      (start.usedFor (start.usesOf acts)).act (.refuse writes flushes)) ∧
    (∀ uses, start.IsOrderly uses) ∧
    ∀ calls, (drawAll start calls).1.out.written =
      if calls = [] then ""
      else clear ++ move 0 0 ++ String.join (calls.map fun call =>
        move (start.columnOf call.x) (start.rowOf call.y) ++
          select (start.palette.map call.color) ++ call.text ++ plain) := by
  intro start
  refine ⟨fun terminal r hr => hr ▸ terminal.operations_received,
    start.exists_after_eq, isOrderly start rfl, fun calls => ?_⟩
  have hwritten := written_drawAll start calls
  rw [trace_draws_of_untouched rfl rfl rfl] at hwritten
  refine hwritten.trans (String.empty_append.trans ?_)
  -- without calls nothing is opened
  rcases calls with _ | ⟨call, rest⟩
  · rfl
  · rw [if_neg (List.cons_ne_nil _ _), if_neg (List.cons_ne_nil _ _), Piece.output,
      Piece.output_eq_join, List.map_map]
    rfl

/-- An opening that fails after two characters is not repeated, and its call's row still counts. -/
example :
    (ofSettings .default .fresh).delivered
      [.draw ⟨"a", .ofNat 10, .ofNat 40, .text⟩ (.cut 2 "write refused") .taken,
        .draw ⟨"b", .ofNat 10, .ofNat 20, .text⟩ .taken .taken, .finish .taken] =
      [⟨.opening, .cut 2 "write refused"⟩, ⟨.text 1 0 .reset "b", .taken⟩,
        ⟨.closing 1, .taken⟩] := by
  decide +kernel

end Terminal

end CanvasScript
