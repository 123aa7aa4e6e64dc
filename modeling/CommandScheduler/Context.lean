import CommandScheduler.Backlog
import CommandScheduler.Frame.Table
import CommandScheduler.Limits
import CommandScheduler.Profiler

/-!
# Context — the state of one root invocation

A context owns the queue of pending work, the frames that the work belongs to and the budget it
may spend.  Work queued while an entry executes is staged; when the entry is done the staged
entries move, in the order they were queued, in front of everything pending.

The operations of this module are the whole interface to that state: queueing, rolling back,
charging, and writing the log.
-/

namespace CommandScheduler

/-- The state of the scheduler. -/
structure Context (E : Embedding) where
  limits : Limits
  quota : Quota
  /-- Whether the queue has ever grown beyond its bound; once it has, no work is accepted. -/
  overflowed : Bool := false
  pending : Backlog E := .empty
  /-- The entries queued by the entry that is being executed. -/
  staging : Array (Entry E) := #[]
  /-- The depth of the entry that is being executed. -/
  depth : Nat := 0
  frames : FrameTable := {}
  sink? : Option Sink := none
  profiler : Profiler := .off
  memory : E.Memory
  log : Array (Event E.Mark) := #[]

namespace Context

variable {E : Embedding}

def create (limits : Limits) (memory : E.Memory) (profiler : Profiler) : Context E :=
  { limits, quota := .ofLimit limits.commandLimit, memory, profiler }

/-! ## Reading -/

/-- The number of entries waiting to run, staged ones included. -/
def queued (ctx : Context E) : Nat :=
  ctx.pending.size + ctx.staging.size

def frameCount (ctx : Context E) : Nat :=
  ctx.frames.count

def frame? (ctx : Context E) (id : FrameId) : Option Frame :=
  ctx.frames.frame? id

/-- The depth of a frame, or the current depth if the frame was released. -/
def frameDepth (ctx : Context E) (id : FrameId) : Nat :=
  match ctx.frame? id with
  | some frame => frame.depth
  | none => ctx.depth

/-- Who hears the value returned from a frame; nobody if the frame was released. -/
def frameCallback (ctx : Context E) (id : FrameId) : Callback :=
  match ctx.frame? id with
  | some frame => frame.callback
  | none => .empty

/-! ## The log -/

def record (ctx : Context E) (events : List (Event E.Mark)) : Context E :=
  { ctx with log := ctx.log ++ events }

def notify (ctx : Context E) (notice : Notice) : Context E :=
  ctx.record [.notice notice]

def fire (ctx : Context E) (callback : Callback) (result : Result) : Context E :=
  ctx.record (callback.fire result)

/-- Tells the installed sink, if there is one. -/
def trace (ctx : Context E) (event : TraceEvent) : Context E :=
  match ctx.sink? with
  | some sink => ctx.record [.traced sink event]
  | none => ctx

/-- Presents an error to a source; the sink hears of it first. -/
def present (ctx : Context E) (source : Source) (error : CommandError) (forked : Bool) :
    Context E :=
  (ctx.trace (.error error.message)).record [.presented source.name error forked]

def openScope (ctx : Context E) (scope : String) : Context E :=
  let (profiler, events) := ctx.profiler.enter scope
  { ctx with profiler }.record events

def closeScope (ctx : Context E) : Context E :=
  let (profiler, events) := ctx.profiler.leave
  { ctx with profiler }.record events

/-- Installs another sink, or none; the one before it is not closed. -/
def install (ctx : Context E) (sink? : Option Sink) : Context E :=
  { ctx with sink? }

/-- Ends the life of the context: the installed sink is closed. -/
def close (ctx : Context E) : Context E :=
  match ctx.sink? with
  | none => ctx
  | some sink =>
    match sink.kind with
    | .plain => { ctx with sink? := none }
    | .recorder | .keeper => { ctx with sink? := none }.record [.closed sink]

/-! ## Charging -/

def charge (ctx : Context E) : Context E :=
  { ctx with quota := ctx.quota.charge }

/-! ## Queueing -/

/-- Drops everything queued and accepts nothing from now on. -/
def overflow (ctx : Context E) : Context E :=
  { ctx with
    overflowed := true
    staging := #[]
    pending := .empty
    -- The entry being executed keeps its own reference.
    frames := (ctx.frames.releaseAll (ctx.staging.toList.map Entry.frame)).releaseAll
      (ctx.pending.entries.map Entry.frame) }

/-- Adds a frame; it lives as long as queued work refers to it, or to the end of the current step.
-/
def pushFrame (ctx : Context E) (frame : Frame) : FrameId × Context E :=
  let (id, frames) := ctx.frames.insert frame
  (id, { ctx with frames })

/-- Queues an action in a frame.  If the queue is already beyond its bound it overflows first; an
overflowed context drops the action silently, and one for a released frame is dropped with a
warning. -/
def enqueue (ctx : Context E) (frame : FrameId) (action : Action E) : Context E :=
  let ctx := if ctx.limits.maxQueueDepth < ctx.queued then ctx.overflow else ctx
  if ctx.overflowed then
    ctx
  else
    match ctx.frames.retain? frame with
    -- The new entry holds its frame from now on.
    | some (depth, frames) =>
      { ctx with frames, staging := ctx.staging.push { depth, frame, action } }
    | none => ctx.notify .frameReleased

/-- Queues actions in a frame, in order.  One or two are queued at once; of a longer list only one
fan-out is queued, which brings in the actions one step at a time. -/
def schedule (ctx : Context E) (frame : FrameId) : List (Action E) → Context E
  | [] => ctx
  | [action] => ctx.enqueue frame action
  | [first, second] => (ctx.enqueue frame first).enqueue frame second
  | first :: rest => ctx.enqueue frame (.fanOut first rest)

/-- Adds the frame of a root invocation.  At depth zero its rollback clears everything; inside other
work it is one level deeper and confined to that level. -/
def pushTopFrame (ctx : Context E) (callback : Callback) : FrameId × Context E :=
  ctx.pushFrame <|
    if ctx.depth = 0 then
      { depth := 0, callback, scope := .clearAll }
    else
      { depth := ctx.depth + 1, callback, scope := .discardFrom (ctx.depth + 1) }

/-- Queues a chain as a root command; `callback` hears the value returned to its frame. -/
def queueCommand (ctx : Context E) (chain : Chain E) (source : Source) (callback : Callback) :
    Context E :=
  let (frame, ctx) := ctx.pushTopFrame callback
  ctx.enqueue frame (.topLevel chain source)

/-- Queues a function as a root call; `callback` hears the value returned to the outermost frame
and, after the source's own callback, the one that the function returns. -/
def queueCall (ctx : Context E) (function : Function E) (source : Source) (callback : Callback) :
    Context E :=
  let (frame, ctx) := ctx.pushTopFrame callback
  ctx.enqueue frame (.call function (source.callback.chain callback) false source)

/-- Moves the staged entries in front of the pending ones. -/
def promote (ctx : Context E) : Context E :=
  { ctx with staging := #[], pending := ctx.pending.prepend ctx.staging }

/-! ## Rolling back -/

/-- Discards pending entries from the front while they are at `depth` or deeper. -/
def discardFrom (ctx : Context E) (depth : Nat) : Context E :=
  let gone := ctx.pending.front depth
  { ctx with
    pending := ctx.pending.dropFront depth
    frames := ctx.frames.releaseAll (gone.map Entry.frame) }.notify (.discarded depth gone.length)

def clearPending (ctx : Context E) : Context E :=
  { ctx with
    pending := .empty
    frames := ctx.frames.releaseAll (ctx.pending.entries.map Entry.frame) }

/-- Discards the pending work in a scope. -/
def rollBack (ctx : Context E) : Scope → Context E
  | .clearAll => ctx.clearPending
  | .discardFrom depth => ctx.discardFrom depth

/-- The scope of a frame, or the current depth if the frame was released. -/
def scopeOf (ctx : Context E) (id : FrameId) : Scope :=
  match ctx.frame? id with
  | some frame => frame.scope
  | none => .discardFrom ctx.depth

def discard (ctx : Context E) (id : FrameId) : Context E :=
  ctx.rollBack (ctx.scopeOf id)

/-! ## Text -/

def inspect (ctx : Context E) : String :=
  Inspect.partialRecord "ExecutionContext" [
    Inspect.field "config" ctx.limits.inspect,
    Inspect.field "quota" (Inspect.int ctx.quota.remaining),
    Inspect.field "state" (if ctx.overflowed then "Overflowed" else "Running"),
    Inspect.field "pending" (Inspect.nat ctx.pending.size),
    Inspect.field "staging" (Inspect.nat ctx.staging.size),
    Inspect.field "current_depth" (Inspect.nat ctx.depth)]

end Context
end CommandScheduler
