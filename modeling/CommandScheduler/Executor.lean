import CommandScheduler.Effect

/-!
# Executor — stages that take over scheduling

The routines behind the terminals and redirects that the scheduler brings itself: returning from a
frame, returning the result of the rest of a chain, calling a function, and guarding an executor
that can fail.
-/

namespace CommandScheduler
namespace Executor

variable {E : Embedding}

/-- Reports a result to the source and then to the frame, and rolls the frame back, so that nothing
else in it runs. -/
def returnResult (result : Result) (source : Source) (frame : FrameId) : Routine E Unit := do
  Routine.effect (.fire source.callback result)
  Routine.effect (.fire (← Routine.frameCallback frame) result)
  Routine.effect (.discard frame)

/-- Rolls the frame back and resolves the rest of the chain as a returning one.  With no sources
left there is nothing to resolve; if the chain is already returning, the frame then gets a failure.
-/
def returnRun (origin : Source) (sources : List Source) (chain : Chain E) (flags : Flags)
    (frame : FrameId) : Routine E Unit := do
  if sources.isEmpty then
    if flags.isReturn then
      Routine.effect (.enqueue frame .fallthrough)
  else
    Routine.effect (.discard frame)
    match chain.next? with
    | some next =>
      Routine.effect (.enqueue frame (.continuation next origin sources flags.setReturn))
    | none => pure ()

/-- Queues a call of a function for a source.  In a returning chain the frame hears the function's
result too, and a return inside the function also returns from the caller. -/
def callFunction (function : Function E) (source : Source) (flags : Flags) (frame : FrameId) :
    Routine E Unit := do
  if flags.isReturn then
    let callback := source.callback.chain (← Routine.frameCallback frame)
    Routine.effect (.enqueue frame (.call function callback true source))
  else
    Routine.effect (.enqueue frame (.call function source.callback false source))

/-- Runs a routine that may end with an error, which is then presented to the source and reported to
its callback as a failure. -/
def guarded (body : Routine E (Option CommandError)) (source : Source) (flags : Flags) :
    Routine E Unit := do
  if let some error ← body then
    Routine.effect (.present source error flags.isForked)
    Routine.effect (.fire source.callback .failure)

end Executor
end CommandScheduler
