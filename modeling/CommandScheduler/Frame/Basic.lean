import CommandScheduler.Source

/-!
# Frame — one nesting level of a run

All entries queued for one nesting level share a frame: the outermost invocation and each function
call have one.  A frame says how deep the level is, who hears the value returned from it, and which
pending work is thrown away when it is rolled back.
-/

namespace CommandScheduler

/-- The pending work that a rollback discards. -/
inductive Scope where
  | clearAll
  /-- The entries at the front of the queue of at least this depth. -/
  | discardFrom (depth : Nat)
  deriving DecidableEq

/-- A nesting level. -/
structure Frame where
  depth : Nat
  /-- Who hears the value returned from this level. -/
  callback : Callback := {}
  scope : Scope
  deriving DecidableEq

/-- A handle to a frame of a context.  Handles are never given out twice, so that a handle kept
beyond the life of its frame does not lead to a younger one. -/
structure FrameId where
  serial : Nat
  deriving DecidableEq

def Scope.inspect : Scope → String
  | clearAll => "ClearAll"
  | discardFrom depth => Inspect.tuple "DiscardFrom" [Inspect.nat depth]

def Frame.inspect (frame : Frame) : String :=
  Inspect.record "Frame" [
    Inspect.field "depth" (Inspect.nat frame.depth),
    Inspect.field "return_callback" frame.callback.inspect,
    Inspect.field "control" frame.scope.inspect]

end CommandScheduler
