import CommandScheduler.Host
import CommandScheduler.Scenario.Build

/-!
# The embedding of a scenario — what it remembers and what it writes down

While a scenario runs it keeps a library of functions, a table of named frames and the trace logs it
has asked for.  Its operations give replies, and its own work leaves marks in the log.
-/

namespace CommandScheduler
namespace Scenario

/-! ## Replies -/

/-- What can be read off a context between two operations. -/
structure State where
  quota : Int
  queued : Nat
  frames : Nat
  depth : Nat
  overflowed : Bool

/-- What an operation gives back. -/
inductive Reply where
  | silent
  | bool (value : Bool)
  | outcome (outcome : Outcome)
  /-- A queue entry: the name of the source of an unbound action, and its text. -/
  | entry (source? : Option String) (inspection : String)
  /-- The text of a chain and whether its cursor is at the terminal. -/
  | chain (input : String) (terminal : Bool)
  /-- Whether a sink was installed before. -/
  | installed (replaced : Bool)
  /-- A frame, if it is live; and what its handle stands for in any case. -/
  | frame (frame? : Option Frame) (depth : Nat) (empty : Bool)
  | state (state : State)
  | config (limits : Limits)
  | text (text : String)
  /-- The number of lines of the function that was replaced. -/
  | registered (replaced? : Option Nat)
  /-- What a control knows of its frame and its context. -/
  | info (depth forkLimit : Nat) (empty traced : Bool)
  | endOfChain
  | closed
  /-- The operation names something that does not exist. -/
  | badInput

/-! ## Marks -/

/-- What a scenario writes into the log. -/
inductive Mark where
  | executor (source input : String) (terminal : Bool) (flags : Flags) (depth : Nat)
  | redirector (origin : String) (sources : List String) (input : String) (flags : Flags)
      (depth : Nat)
  | action (source : String) (depth : Nat)
  /-- An entry of a fan-out starts. -/
  | argument (text : String) (queued : Nat)
  | note (text : String)
  /-- An operation inside an action has something to tell. -/
  | op (reply : Reply)
  /-- An operation on a control has something to tell. -/
  | control (reply : Reply)

/-! ## Memory -/

/-- What a scenario remembers. -/
structure Memory where
  library : Library vocabulary := .empty
  /-- The handles that names stand for, latest first; a handle may outlive its frame. -/
  names : List (String × FrameId) := []
  sinks : Nat := 0
  /-- The sinks that keep a trace log, latest first. -/
  keepers : List Sink := []

namespace Memory

/-- Lets a name stand for a handle from now on. -/
def bindName (memory : Memory) (name : String) (id : FrameId) : Memory :=
  { memory with names := (name, id) :: memory.names.filter (·.1 != name) }

def addSink (memory : Memory) (spec : SinkSpec) : Sink × Memory :=
  let sink : Sink := { serial := memory.sinks, label := spec.label, kind := spec.kind }
  let keepers :=
    match spec.kind with
    | .keeper => sink :: memory.keepers
    | .recorder | .plain => memory.keepers
  (sink, { memory with sinks := memory.sinks + 1, keepers })

end Memory

/-- Scenarios as an embedding program. -/
abbrev embedding : Embedding where
  toVocabulary := vocabulary
  Memory := Memory
  Mark := Mark

end Scenario
end CommandScheduler
