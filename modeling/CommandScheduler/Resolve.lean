import CommandScheduler.Executor
import CommandScheduler.Host

/-!
# Resolve — from a chain to queued commands

The redirect stages of a chain are applied one after another to the current list of sources.  Once
the terminal is reached, one execution is scheduled for each remaining source; a terminal that takes
over scheduling is instead run for each source on the spot.
-/

namespace CommandScheduler
namespace Context

variable {E : Embedding}

/-! ## Redirect stages -/

/-- Applies a modifier to the sources from left to right, collecting what it yields.  Gives nothing
if the resolution is aborted: by a failing source of a chain that is not forked, or by reaching the
fork limit, which is presented to `origin`. -/
def applyModifier (apply : Modifier) (origin : Source) (forked : Bool) :
    Array Source → List Source → Context E → Option (List Source) × Context E
  | yielded, [], ctx => (some yielded.toList, ctx)
  | yielded, source :: rest, ctx =>
    let ctx := ctx.record [.applied source.name]
    match apply source with
    | .ok sources =>
      let limit := ctx.limits.forkLimit
      -- The limit itself is already too many.
      if limit ≤ yielded.size + sources.length then
        let ctx := ctx.notify (.forkLimitReached limit)
        (none, ctx.present origin (.forkLimitReached limit) forked)
      else
        applyModifier apply origin forked (yielded ++ sources) rest ctx
    | .error error =>
      let ctx := ctx.present source error forked
      if forked then applyModifier apply origin forked yielded rest ctx else (none, ctx)

/-- Walks the stages ahead of the cursor.  Gives the sources and flags with which the terminal is
reached, or nothing if the resolution was aborted or taken over. -/
def prepare (host : Host E) (origin : Source) (frame : FrameId) (input : String)
    (terminal : Terminal E) (passed : List (Stage E)) :
    List (Stage E) → List Source → Flags → Context E → Option (List Source × Flags) × Context E
  | [], sources, flags, ctx => (some (sources, flags), ctx)
  | stage :: rest, sources, flags, ctx =>
    let flags := flags.forkedIf stage.forked
    let walk := prepare host origin frame input terminal (stage :: passed) rest
    let chain : Chain E := { input, passed, ahead := stage :: rest, terminal }
    match stage.redirect with
    | .passthrough => walk sources flags ctx
    | .modifier apply =>
      match ctx.charge.applyModifier apply origin flags.isForked #[] sources with
      | (some sources, ctx) => walk sources flags ctx
      | (none, ctx) => (none, ctx)
    | .returnRun => (none, (Executor.returnRun origin sources chain flags frame).apply ctx)
    | .custom code => (none, (host.redirect code origin sources chain flags frame).apply ctx)

/-! ## The terminal -/

/-- What a terminal that takes over scheduling does for one source. -/
def takeOver (host : Host E) (chain : Chain E) (source : Source) (flags : Flags) (frame : FrameId) :
    Routine E Unit :=
  match chain.terminal with
  | .command _ => pure ()
  | .returnValue value => Executor.returnResult (.success value) source frame
  | .returnFailure => Executor.returnResult .failure source frame
  | .call function => Executor.callFunction function source flags frame
  | .custom code => host.execute code source chain flags frame

/-- Schedules the terminal of a chain for the sources that have reached it.  In a returning chain
the frame hears the result of the first source; with no source left it gets a failure instead. -/
def launch (host : Host E) (chain : Chain E) (sources : List Source) (flags : Flags)
    (frame : FrameId) (ctx : Context E) : Context E :=
  match sources with
  | [] => if flags.isReturn then ctx.enqueue frame .fallthrough else ctx
  | first :: rest =>
    if chain.terminal.isCommand then
      let first :=
        if flags.isReturn then
          first.withCallback (first.callback.chain (ctx.frameCallback frame))
        else
          first
      ctx.schedule frame ((first :: rest).map (.execute chain flags ·))
    else
      sources.foldl (fun ctx source => (takeOver host chain source flags frame).apply ctx) ctx

/-! ## Actions of the scheduler -/

/-- Resolves a chain from its cursor on and schedules its terminal. -/
def resolve (host : Host E) (chain : Chain E) (origin : Source) (sources : List Source)
    (flags : Flags) (frame : FrameId) (ctx : Context E) : Context E :=
  if chain.isTerminal then
    ctx.launch host chain sources flags frame
  else
    let (prepared, ctx) := (ctx.openScope ("prepare " ++ chain.input)).prepare host origin frame
      chain.input chain.terminal chain.passed chain.ahead sources flags
    let ctx := ctx.closeScope
    match prepared with
    | some (sources, flags) => ctx.launch host chain.atTerminal sources flags frame
    | none => ctx

/-- Starts a chain for one source, telling the sink of it. -/
def start (host : Host E) (chain : Chain E) (source : Source) (frame : FrameId) (ctx : Context E) :
    Context E :=
  (ctx.trace (.command (ctx.frameDepth frame) chain.input)).resolve host chain source [source]
    .initial frame

/-- Executes the terminal command of a chain for one source.  The source's callback hears the
result; then the sink hears the value, or the source is presented the error. -/
def executeCommand (chain : Chain E) (flags : Flags) (source : Source) (frame : FrameId)
    (ctx : Context E) : Context E :=
  let ctx := (ctx.openScope ("execute " ++ chain.input)).charge
  let (result, events) := chain.runExecutable source
  let ctx := ctx.record events
  let ctx :=
    match result with
    | .ok value => ctx.trace (.returned (ctx.frameDepth frame) chain.input value)
    | .error error => ctx.present source error flags.isForked
  ctx.closeScope

/-- Queues the lines of a function in a new frame, one level below the caller's. -/
def callFunction (function : Function E) (callback : Callback) (returnParent : Bool)
    (source : Source) (frame : FrameId) (ctx : Context E) : Context E :=
  let ctx := ctx.charge
  let depth := ctx.frameDepth frame
  let size := function.lines.length
  let ctx := (ctx.trace (.called depth function.id size)).notify (.called function.id depth size)
  if function.lines.isEmpty then
    -- Nothing would ever refer to the new frame.
    ctx
  else
    let scope := if returnParent then ctx.scopeOf frame else .discardFrom (depth + 1)
    let (inner, ctx) := ctx.pushFrame { depth := depth + 1, callback, scope }
    ctx.schedule inner (function.lines.map (.line · source))

def fallThrough (frame : FrameId) (ctx : Context E) : Context E :=
  (ctx.fire (ctx.frameCallback frame) .failure).discard frame

/-- Queues the next action of a fan-out and, if there are more, the fan-out again behind it. -/
def expand (first : Action E) (rest : List (Action E)) (frame : FrameId) (ctx : Context E) :
    Context E :=
  let ctx := ctx.enqueue frame first
  match rest with
  | [] => ctx
  | next :: rest => ctx.enqueue frame (.fanOut next rest)

end Context
end CommandScheduler
