import CommandScheduler.Resolve

/-!
# Run — the run loop

The loop takes the first pending entry, performs its action and moves the entries that the action
queued in front of the rest, until nothing is pending, the quota is exhausted or the queue
overflows.  Nothing forces the work of an embedding program to come to an end, so the loop is
given fuel; without enough of it the answer is `none`.
-/

namespace CommandScheduler
namespace Context

variable {E : Embedding}

/-! ## One step -/

/-- Takes the first pending entry, whose depth becomes the current one. -/
def pop? (ctx : Context E) : Option (Entry E × Context E) :=
  ctx.pending.pop?.map fun (entry, pending) => (entry, { ctx with pending, depth := entry.depth })

/-- Ends a step: the entry gives back its frame, and new frames that nothing refers to are removed.
-/
def settle (ctx : Context E) (frame : FrameId) : Context E :=
  { ctx with frames := (ctx.frames.release frame).sweep }

def finish (ctx : Context E) (outcome : Outcome) : Outcome × Context E :=
  (outcome, { ctx with depth := 0 })

/-- How one instruction of a program acts, given how actions are performed and the queue is
drained. -/
def instruct (perform : Action E → FrameId → Context E → Option (Context E))
    (drain : Context E → Option (Outcome × Context E)) :
    (op : Instruction E) → Context E → Option (op.Reply × Context E)
  | .effect effect, ctx => some (effect.apply ctx)
  | .perform action frame, ctx => (perform action frame ctx).map fun ctx => ((), ctx)
  | .run, ctx => drain ctx.promote

/-! ## The loop -/

mutual

/-- Performs an action as part of a frame. -/
def perform (host : Host E) : Nat → Action E → FrameId → Context E → Option (Context E)
  | 0, _, _, _ => none
  | fuel + 1, action, frame, ctx =>
    match action with
    | .topLevel chain source => some (ctx.start host chain source frame)
    | .continuation chain origin sources flags =>
      some (ctx.resolve host chain origin sources flags frame)
    | .fallthrough => some (ctx.fallThrough frame)
    | .fanOut first rest => some (ctx.expand first rest frame)
    | .line (.chain chain) source => some (ctx.start host chain source frame)
    | .execute chain flags source => some (ctx.executeCommand chain flags source frame)
    | .call function callback returnParent source =>
      some (ctx.callFunction function callback returnParent source frame)
    | .task code =>
      ((host.task code frame).run? (instruct (perform host fuel) (drain host fuel)) ctx).map (·.2)
    | .line (.custom code) source =>
      ((host.line code source frame).run? (instruct (perform host fuel) (drain host fuel)) ctx).map
        (·.2)

def drain (host : Host E) : Nat → Context E → Option (Outcome × Context E)
  | 0, _ => none
  | fuel + 1, ctx =>
    -- The quota is looked at before anything is taken, so that pending work stays queued.
    if ctx.quota.isExhausted then
      some ((ctx.notify (.limitReached ctx.limits.commandLimit)).finish .quotaExhausted)
    else
      match ctx.pop? with
      | none => some (ctx.finish .completed)
      | some (entry, ctx) =>
        match perform host fuel entry.action entry.frame ctx with
        | none => none
        | some ctx =>
          -- The frame is given back even if the entry has made the queue overflow.
          let ctx := ctx.settle entry.frame
          if ctx.overflowed then
            some ((ctx.notify (.queueOverflowed ctx.limits.maxQueueDepth)).finish .overflowed)
          else
            drain host fuel ctx.promote

end

/-- Runs the queue until it is empty, the quota is exhausted or the queue overflows. -/
def run (host : Host E) (fuel : Nat) (ctx : Context E) : Option (Outcome × Context E) :=
  drain host fuel ctx.promote

/-- Runs a program of the embedding program on a context, outside of all entries. -/
def runProgram {α : Type} (host : Host E) (fuel : Nat) (program : Program E α) (ctx : Context E) :
    Option (α × Context E) :=
  program.run? (instruct (perform host fuel) (drain host fuel)) ctx

end Context
end CommandScheduler
