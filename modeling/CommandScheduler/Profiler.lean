import CommandScheduler.Event

/-!
# Profiler — named scopes around resolution and execution

A profiler that is not active is never called.
-/

namespace CommandScheduler

/-- Where named scopes are reported. -/
inductive Profiler where
  | off
  /-- Each entering and leaving is an event. -/
  | recording
  /-- A notice is logged for each scope that is left; `scopes` are the open ones, innermost first.
  -/
  | logging (scopes : List String)
  deriving DecidableEq

namespace Profiler

/-- Whether scopes are reported at all. -/
def isActive : Profiler → Bool
  | off => false
  | recording | logging _ => true

/-- The number of open scopes that the profiler knows of. -/
def depth : Profiler → Nat
  | off | recording => 0
  | logging scopes => scopes.length

def enter {Mark : Type} (scope : String) : Profiler → Profiler × List (Event Mark)
  | off => (off, [])
  | recording => (recording, [.entered scope])
  | logging scopes => (logging (scope :: scopes), [])

/-- Leaves the latest scope; with none open, nothing is logged. -/
def leave {Mark : Type} : Profiler → Profiler × List (Event Mark)
  | off => (off, [])
  | recording => (recording, [.left])
  | logging [] => (logging [], [])
  | logging (scope :: scopes) => (logging scopes, [.notice (.profiled scope scopes.length)])

end Profiler
end CommandScheduler
