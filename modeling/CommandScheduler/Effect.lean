import CommandScheduler.Context
import CommandScheduler.Script

/-!
# Effect — what work may do to a context without re-entering the run loop

A routine is a script of effects.  Each effect is one operation of the context, or a question about
it, so running a routine always ends.  Executors and custom redirects are routines: they act in the
middle of the resolution of a chain, where the run loop must not be entered again.
-/

namespace CommandScheduler

/-! ## Questions -/

/-- A question about a context. -/
inductive Query where
  | limits
  | quota
  | overflowed
  /-- The numbers of pending and of staged entries. -/
  | backlog
  /-- The depth of the entry being executed. -/
  | depth
  | frameCount
  | frame (id : FrameId)
  | sink
  /-- The developer-facing text of the whole context. -/
  | inspection

@[reducible]
def Query.Answer : Query → Type
  | limits => Limits
  | quota => Quota
  | overflowed => Bool
  | backlog => Nat × Nat
  | depth => Nat
  | frameCount => Nat
  | frame _ => Option Frame
  | sink => Option Sink
  | inspection => String

variable {E : Embedding}

def Context.answer (ctx : Context E) : (query : Query) → query.Answer
  | .limits => ctx.limits
  | .quota => ctx.quota
  | .overflowed => ctx.overflowed
  | .backlog => (ctx.pending.size, ctx.staging.size)
  | .depth => ctx.depth
  | .frameCount => ctx.frameCount
  | .frame id => ctx.frame? id
  | .sink => ctx.sink?
  | .inspection => ctx.inspect

/-! ## Effects -/

/-- One operation on a context. -/
inductive Effect (E : Embedding) where
  | ask (query : Query)
  | enqueue (frame : FrameId) (action : Action E)
  | schedule (frame : FrameId) (actions : List (Action E))
  | pushFrame (frame : Frame)
  | queueCommand (chain : Chain E) (source : Source) (callback : Callback)
  | queueCall (function : Function E) (source : Source) (callback : Callback)
  | discard (frame : FrameId)
  | discardFrom (depth : Nat)
  | charge
  | install (sink? : Option Sink)
  | trace (event : TraceEvent)
  | fire (callback : Callback) (result : Result)
  | present (source : Source) (error : CommandError) (forked : Bool)
  | load
  | store (memory : E.Memory)
  | mark (mark : E.Mark)

namespace Effect

@[reducible]
def Reply : Effect E → Type
  | ask query => query.Answer
  | pushFrame _ => FrameId
  | load => E.Memory
  | enqueue .. | schedule .. | queueCommand .. | queueCall .. | discard _ | discardFrom _ | charge
  | install _ | trace _ | fire .. | present .. | store _ | mark _ => Unit

def apply : (effect : Effect E) → Context E → effect.Reply × Context E
  | ask query, ctx => (ctx.answer query, ctx)
  | enqueue frame action, ctx => ((), ctx.enqueue frame action)
  | schedule frame actions, ctx => ((), ctx.schedule frame actions)
  | pushFrame frame, ctx => ctx.pushFrame frame
  | queueCommand chain source callback, ctx => ((), ctx.queueCommand chain source callback)
  | queueCall function source callback, ctx => ((), ctx.queueCall function source callback)
  | discard frame, ctx => ((), ctx.discard frame)
  | discardFrom depth, ctx => ((), ctx.discardFrom depth)
  | charge, ctx => ((), ctx.charge)
  | install sink?, ctx => ((), ctx.install sink?)
  | trace event, ctx => ((), ctx.trace event)
  | fire callback result, ctx => ((), ctx.fire callback result)
  | present source error forked, ctx => ((), ctx.present source error forked)
  | load, ctx => (ctx.memory, ctx)
  | store memory, ctx => ((), { ctx with memory })
  | mark m, ctx => ((), ctx.record [.mark m])

end Effect

/-! ## Routines -/

/-- A script of effects. -/
abbrev Routine (E : Embedding) := Script (Effect E) Effect.Reply

namespace Routine

def effect (effect : Effect E) : Routine E effect.Reply :=
  Script.perform effect

def ask (query : Query) : Routine E query.Answer :=
  effect (.ask query)

def apply {α : Type} (routine : Routine E α) (ctx : Context E) : Context E :=
  (routine.run Effect.apply ctx).2

/-- The depth of a frame, or the current depth if the frame was released. -/
def frameDepth (id : FrameId) : Routine E Nat := do
  match ← ask (.frame id) with
  | some frame => return frame.depth
  | none => ask .depth

def frameCallback (id : FrameId) : Routine E Callback := do
  match ← ask (.frame id) with
  | some frame => return frame.callback
  | none => return .empty

end Routine
end CommandScheduler
