import CommandScheduler.CommandError
import CommandScheduler.Source
import CommandScheduler.Trace

/-!
# Event — the record of what happened

Everything that the outside can see of a run is an event in one chronological log: modifiers
applied, commands executed, listeners told, errors presented, trace sinks and profilers called,
notices logged by the scheduler itself, and the marks that the embedding program leaves between
them.
-/

namespace CommandScheduler

/-! ## Notices -/

/-- How urgent a notice is. -/
inductive Level where
  | trace
  | info
  | warn
  | error
  deriving DecidableEq

def Level.name : Level → String
  | trace => "TRACE"
  | info => "INFO"
  | warn => "WARN"
  | error => "ERROR"

/-- What the scheduler logs about itself. -/
inductive Notice where
  /-- A rollback from this depth on has removed so many entries. -/
  | discarded (depth count : Nat)
  /-- A function of so many lines is called from this depth. -/
  | called (function : String) (depth lines : Nat)
  | forkLimitReached (limit : Nat)
  /-- A profiled scope was left, with so many still open. -/
  | profiled (scope : String) (depth : Nat)
  /-- Work came too late for its frame. -/
  | frameReleased
  | limitReached (limit : Nat)
  | queueOverflowed (bound : Nat)
  deriving DecidableEq

inductive FieldValue where
  | number (value : Nat)
  | text (value : String)
  deriving DecidableEq

namespace Notice

def level : Notice → Level
  | discarded .. | called .. | forkLimitReached .. | profiled .. => .trace
  | frameReleased => .warn
  | limitReached _ => .info
  | queueOverflowed _ => .error

def message : Notice → String
  | discarded .. => "discarded"
  | called .. => "call"
  | forkLimitReached _ => "fork limit reached"
  | profiled .. => "profiled"
  | frameReleased => "dropping entry queued for a released frame"
  | limitReached _ => "command execution stopped due to limit"
  | queueOverflowed _ => "command execution stopped due to command queue overflow"

/-- The named values that go with the message. -/
def fields : Notice → List (String × FieldValue)
  | discarded depth count => [("depth", .number depth), ("discarded", .number count)]
  | called function depth lines =>
    [("function", .text function), ("depth", .number depth), ("lines", .number lines)]
  | forkLimitReached limit => [("limit", .number limit)]
  | profiled scope depth => [("scope", .text scope), ("depth", .number depth)]
  | frameReleased => []
  | limitReached limit => [("limit", .number limit)]
  | queueOverflowed bound => [("max", .number bound)]

end Notice

/-! ## Events -/

/-- One entry of the log; `Mark` is what the embedding program writes into it. -/
inductive Event (Mark : Type) where
  /-- A modifier is applied to a source. -/
  | applied (source : String)
  | executed (source : String)
  /-- A listener is told a result. -/
  | fired (listener : Listener) (result : Result)
  /-- An error is presented to a source. -/
  | presented (source : String) (error : CommandError) (forked : Bool)
  | traced (sink : Sink) (event : TraceEvent)
  | closed (sink : Sink)
  | entered (scope : String)
  /-- The profiler leaves its latest scope. -/
  | left
  | notice (notice : Notice)
  | mark (mark : Mark)

/-- Tells every listener of the callback, in order. -/
def Callback.fire {Mark : Type} (callback : Callback) (result : Result) : List (Event Mark) :=
  callback.listeners.map (Event.fired · result)

end CommandScheduler
