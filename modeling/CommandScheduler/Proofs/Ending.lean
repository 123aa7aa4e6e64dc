import CommandScheduler.Proofs.Confined
import CommandScheduler.Proofs.Termination

/-!
# Ending — requests, their frames and the end of their runs

Each request is a single action that waits in a frame of its own.  Whatever list of native programs
is asked of a new context, running it ends.
-/

namespace CommandScheduler

variable {E : Embedding}

/-! ## Requests that wait -/

/-- The action that is queued for a request. -/
def Request.action {V : Vocabulary} : Request V → Action V
  | command chain source _ => .topLevel chain source
  | call function source callback => .call function (source.callback.chain callback) false source

/-- Who hears the value returned to the frame of a request. -/
def Request.callback {V : Vocabulary} : Request V → Callback
  | command _ _ callback | call _ _ callback => callback

/-- The frame of a root invocation. -/
def Frame.root (callback : Callback) : Frame :=
  { depth := 0, callback, scope := .clearAll }

theorem Frame.covered_root (callback : Callback) : (Frame.root callback).Covered := by
  intro depth scope
  cases scope

/-- The frame that a request gets. -/
def Context.topFrame (ctx : Context E) (callback : Callback) : Frame :=
  if ctx.depth = 0 then .root callback else .calleeAt ctx.depth callback

theorem Request.queue_eq_enqueue (ctx : Context E) (request : Request E) :
    request.queue ctx = (ctx.pushFrame (ctx.topFrame request.callback)).2.enqueue
      (ctx.pushFrame (ctx.topFrame request.callback)).1 request.action := by
  cases request <;> rfl

/-! ## The run -/

/-- Running native requests ends, with whatever limits. -/
theorem Context.asked_ends (host : Host E) (limits : Limits) (memory : E.Memory)
    (profiler : Profiler) (sink? : Option Sink) {requests : List (Request E)}
    (native : ∀ request ∈ requests, request.isNative = true) :
    ∃ starts outcome final,
      Course host (Context.asked limits memory profiler sink? requests).promote starts outcome
        final := by
  have asked := Asked.of_requests limits memory profiler sink? requests native
  rcases asked.native.bounded host with ⟨bound, -, -, ⟨outcome, final⟩, drained⟩
  rcases Course.of_drain drained with ⟨starts, course⟩
  exact ⟨starts, outcome, final, course⟩

end CommandScheduler
