/-
What a run reports beside its drawing: counts, and log events.

An event holds what happened as data. Its level, message and named fields are the log
record that it makes, with every field written as text.
-/
import CanvasScript.Script.Fault
import CanvasScript.Text.Natural

set_option autoImplicit false

namespace CanvasScript

structure Report where
  /-- Lines of the script that are not blank. -/
  lines : Nat
  /-- Lines drawn, error lines included. -/
  rendered : Nat
  errors : Nat
  deriving DecidableEq, Repr

inductive LogLevel where
  | trace
  | debug
  | info
  | warn
  deriving DecidableEq, Repr

def LogLevel.name : LogLevel → String
  | .trace => "TRACE"
  | .debug => "DEBUG"
  | .info => "INFO"
  | .warn => "WARN"

inductive Event where
  /-- A line, counted from zero, is about to be executed. -/
  | dispatched (index : Nat) (line : String)
  /-- A binding was made, with so many lines taken after its own. -/
  | bound (name : String) (kind : Kind) (consumed : Nat)
  | lineFailed (index : Nat) (fault : ScriptError)
  /-- A run for a target begins, with a source of so many bytes. -/
  | runStarted (target : String) (sourceBytes : Nat)
  | runComplete (report : Report)
  /-- A recorded line could not be written. -/
  | dumpWriteFailed (why : String)
  /-- A line could not be put on the terminal. -/
  | terminalWriteFailed (why : String)
  /-- The terminal could not be left in order. -/
  | terminalFlushFailed (why : String)
  deriving DecidableEq

namespace Event

def level : Event → LogLevel
  | .dispatched _ _ => .trace
  | .bound _ _ _ => .trace
  | .lineFailed _ _ => .debug
  | .runStarted _ _ => .info
  | .runComplete _ => .info
  | .dumpWriteFailed _ => .warn
  | .terminalWriteFailed _ => .warn
  | .terminalFlushFailed _ => .warn

def message : Event → String
  | .dispatched _ _ => "dispatch"
  | .bound _ _ _ => "set"
  | .lineFailed _ _ => "line failed"
  | .runStarted _ _ => "interpret"
  | .runComplete _ => "run complete"
  | .dumpWriteFailed _ => "dump write failed"
  | .terminalWriteFailed _ => "terminal write failed"
  | .terminalFlushFailed _ => "terminal flush failed"

/-- The named fields of an event. Lines are counted from one here. -/
def fields : Event → List (String × String)
  | .dispatched index line => [("line", Text.natural (index + 1)), ("text", line)]
  | .bound name kind consumed =>
    [("name", name), ("kind", kind.name), ("consumed", Text.natural consumed)]
  | .lineFailed index fault =>
    [("line", Text.natural (index + 1)), ("kind", fault.kindName), ("error", fault.message)]
  | .runStarted target sourceBytes =>
    [("target", target), ("source_len", Text.natural sourceBytes)]
  | .runComplete report =>
    [("lines", Text.natural report.lines), ("rendered", Text.natural report.rendered),
      ("errors", Text.natural report.errors)]
  | .dumpWriteFailed why => [("error", why)]
  | .terminalWriteFailed why => [("error", why)]
  | .terminalFlushFailed why => [("error", why)]

end Event

end CanvasScript
