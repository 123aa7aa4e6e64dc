import CommandScheduler.Inspect

/-!
# Trace — observing what a context runs

At most one sink at a time is told which commands start, what they return, which functions are
called and which errors are presented.  A `TraceLog` keeps all that one sink was told.
-/

namespace CommandScheduler

/-! ## Trace events -/

/-- What a sink is told. -/
inductive TraceEvent where
  /-- A command is about to be resolved. -/
  | command (depth : Nat) (command : String)
  | returned (depth : Nat) (command : String) (result : Int32)
  /-- A function of `size` lines is called from this depth. -/
  | called (depth : Nat) (function : String) (size : Nat)
  | error (message : String)
  deriving DecidableEq

namespace TraceEvent

def inspect : TraceEvent → String
  | command depth text =>
    Inspect.record "Command" [
      Inspect.field "depth" (Inspect.nat depth),
      Inspect.field "command" (Inspect.quoted text)]
  | returned depth text result =>
    Inspect.record "Return" [
      Inspect.field "depth" (Inspect.nat depth),
      Inspect.field "command" (Inspect.quoted text),
      Inspect.field "result" (Inspect.int result.toInt)]
  | called depth function size =>
    Inspect.record "Call" [
      Inspect.field "depth" (Inspect.nat depth),
      Inspect.field "function" (Inspect.quoted function),
      Inspect.field "size" (Inspect.nat size)]
  | error message => Inspect.tuple "Error" [Inspect.quoted message]

end TraceEvent

/-! ## Sinks -/

/-- What a sink does with what it is told. -/
inductive SinkKind where
  /-- Passes everything on, its closing too. -/
  | recorder
  /-- Passes everything on and does not care about being closed. -/
  | plain
  /-- Keeps everything in a trace log. -/
  | keeper
  deriving DecidableEq

/-- A receiver of trace events.  The serial number tells apart sinks of one label. -/
structure Sink where
  serial : Nat
  label : String
  kind : SinkKind
  deriving DecidableEq

/-! ## Trace logs -/

/-- All that one sink was told, and how often it was closed. -/
structure TraceLog where
  events : Array TraceEvent := #[]
  closed : Nat := 0

namespace TraceLog

def push (log : TraceLog) (event : TraceEvent) : TraceLog :=
  { log with events := log.events.push event }

def close (log : TraceLog) : TraceLog :=
  { log with closed := log.closed + 1 }

def inspectEvents (log : TraceLog) : String :=
  Inspect.list (log.events.toList.map TraceEvent.inspect)

end TraceLog
end CommandScheduler
