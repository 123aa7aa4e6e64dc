import CommandScheduler.Chain
import CommandScheduler.Flags
import CommandScheduler.Frame.Basic

/-!
# Action — units of scheduled work

An action is bound if it needs no source, or already owns the one it needs; it is unbound if it is
reusable work that was paired with a source.  An entry is an action in the queue, together with its
frame and that frame's depth.
-/

namespace CommandScheduler

/-- Work that is ready to run in some frame. -/
inductive Action (V : Vocabulary) where
  /-- Resolves a chain for one source, as a command of its own. -/
  | topLevel (chain : Chain V) (source : Source)
  /-- Resolves the rest of a chain.  Errors of a whole fork step go to `origin`. -/
  | continuation (chain : Chain V) (origin : Source) (sources : List Source) (flags : Flags)
  /-- Returns a failure to the frame and rolls it back. -/
  | fallthrough
  /-- Queues the first action and, behind it, the remaining fan-out. -/
  | fanOut (first : Action V) (rest : List (Action V))
  | task (code : V.Task)
  /-- A line of a function, paired with a source. -/
  | line (line : Line V) (source : Source)
  /-- Runs the terminal command of a chain for a source. -/
  | execute (chain : Chain V) (flags : Flags) (source : Source)
  /-- Queues the lines of a function in a new frame.  If `returnParent`, a rollback of the new frame
  has the scope of the caller's frame. -/
  | call (function : Function V) (callback : Callback) (returnParent : Bool) (source : Source)

namespace Action

variable {V : Vocabulary}

def source? : Action V → Option Source
  | line _ source | execute _ _ source | call _ _ _ source => some source
  | topLevel .. | continuation .. | fallthrough | fanOut .. | task _ => none

/-- The frame's handle is not shown. -/
def inspectEntry (action : Action V) : String :=
  Inspect.record "QueueEntry" [
    Inspect.field "frame" "<frame>",
    Inspect.field "action" (Inspect.quoted (if action.source?.isSome then "unbound" else "bound"))]

end Action

structure Entry (V : Vocabulary) where
  depth : Nat
  frame : FrameId
  action : Action V

end CommandScheduler
