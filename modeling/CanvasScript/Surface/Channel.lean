/-
A channel that text is written to, and that may refuse.

Whether writes and flushes are refused at the moment, and with what words, is part of the
channel's state, so that a sequence of operations with refusals between any two of them is
a sequence of states like any other. A refused write leaves nothing behind; a refused flush
leaves what was written.
-/

set_option autoImplicit false

namespace CanvasScript

/-- A channel and what went through it. -/
structure Channel where
  written : String
  /-- The words of a refusal, when writes are refused. -/
  writeRefusal : Option String
  /-- The words of a refusal, when flushes are refused. -/
  flushRefusal : Option String
  deriving DecidableEq, Repr

namespace Channel

/-- A channel that refuses nothing, with nothing written. -/
def fresh : Channel := ⟨"", none, none⟩

/-- Writes a text and flushes. The second part holds the words of a refusal. -/
def send (channel : Channel) (text : String) : Channel × Option String :=
  match channel.writeRefusal with
  | some why => (channel, some why)
  | none =>
    (⟨channel.written ++ text, none, channel.flushRefusal⟩, channel.flushRefusal)

/-- A channel that refuses nothing takes the text and says nothing. -/
theorem send_of_open {channel : Channel} (hwrite : channel.writeRefusal = none)
    (hflush : channel.flushRefusal = none) (text : String) :
    channel.send text = (⟨channel.written ++ text, none, none⟩, none) := by
  simp [send, hwrite, hflush]

end Channel

end CanvasScript
