import CommandScheduler.Run
import CommandScheduler.Proofs.Track

/-!
# Checked — the scheduler with its look-ups checked

Here the queue holds *jobs*: actions whose chains are tracks, and fan-outs that keep all their
arguments with the index of the next one.  The scheduler's own work is written once more for them,
and wherever it looks up a link or an argument, moves on to a next stage, ends its loop over the
stages or runs a stage for a source, a check decides between the value and a fault.

The context, its queue and its operations are the same as ever: jobs are the tasks of an embedding.
What the embedding program contributes still speaks of actions, which are turned into jobs as they
are queued.
-/

namespace CommandScheduler

/-! ## Scripts that may halt -/

/-- Runs a script on a state with a checked handler. -/
def Script.runChecked {Op : Type} {Reply : Op → Type} {α σ : Type}
    (handle : (op : Op) → σ → Checked (Reply op × σ)) : Script Op Reply α → σ → Checked (α × σ)
  | done value, state => return (value, state)
  | call op next, state => do
    let (reply, state) ← handle op state
    runChecked handle (next reply) state

/-! ## Jobs -/

/-- An action on tracks. -/
inductive Job (V : Vocabulary) where
  | topLevel (track : Track V) (source : Source)
  | continuation (track : Track V) (origin : Source) (sources : List Source) (flags : Flags)
  | fallthrough
  /-- Queues the argument at the index and, behind it, the fan-out at the next one. -/
  | fanOut (arguments : Array (Job V)) (index : Nat)
  | task (code : V.Task)
  | line (track : Track V) (source : Source)
  | customLine (code : V.Line) (source : Source)
  /-- Runs the command at the position of a track; `resolved` if a resolution has scheduled it. -/
  | execute (track : Track V) (flags : Flags) (source : Source) (resolved : Bool)
  | call (function : Function V) (callback : Callback) (returnParent : Bool) (source : Source)

namespace Job

variable {V : Vocabulary}

def ofLine : Line V → Source → Job V
  | .chain chain, source => .line chain.track source
  | .custom code, source => .customLine code source

mutual

/-- The job of an action, which the embedding program may have made. -/
def of : Action V → Job V
  | .topLevel chain source => .topLevel chain.track source
  | .continuation chain origin sources flags => .continuation chain.track origin sources flags
  | .fallthrough => .fallthrough
  | .fanOut first rest => .fanOut (of first :: ofAll rest).toArray 0
  | .task code => .task code
  | .line body source => ofLine body source
  | .execute chain flags source => .execute chain.track flags source false
  | .call function callback returnParent source => .call function callback returnParent source

def ofAll : List (Action V) → List (Job V)
  | [] => []
  | action :: rest => of action :: ofAll rest

end

end Job

/-- An embedding whose tasks are the jobs of another one. -/
@[reducible]
def Embedding.tracked (E : Embedding) : Embedding :=
  { Task := Job E, Line := Empty, Executor := Empty, Redirector := Empty, Memory := E.Memory
    Mark := E.Mark }

namespace Checked

variable {E : Embedding}

/-! ## Queueing jobs -/

def enqueue (ctx : Context E.tracked) (frame : FrameId) (job : Job E) : Context E.tracked :=
  ctx.enqueue frame (.task job)

def argument (arguments : Array (Job E)) (index : Nat) : Checked (Job E) :=
  .ofOption .noArgument arguments[index]?

/-- Queues one or two jobs at once, and a fan-out at its first argument for more. -/
def schedule (ctx : Context E.tracked) (frame : FrameId) (arguments : Array (Job E)) :
    Checked (Context E.tracked) :=
  match arguments.size with
  | 0 => return ctx
  | 1 => return enqueue ctx frame (← argument arguments 0)
  | 2 => return enqueue (enqueue ctx frame (← argument arguments 0)) frame (← argument arguments 1)
  | _ => return enqueue ctx frame (.fanOut arguments 0)

def expand (arguments : Array (Job E)) (index : Nat) (frame : FrameId) (ctx : Context E.tracked) :
    Checked (Context E.tracked) := do
  let ctx := enqueue ctx frame (← argument arguments index)
  if index + 1 < arguments.size then
    return enqueue ctx frame (.fanOut arguments (index + 1))
  else
    return ctx

/-! ## Effects of the embedding program -/

/-- Performs an effect; the actions that it queues become jobs. -/
def effect : (effect : Effect E) → Context E.tracked → Checked (effect.Reply × Context E.tracked)
  | .ask query, ctx => return (ctx.answer query, ctx)
  | .enqueue frame action, ctx => return ((), enqueue ctx frame (.of action))
  | .schedule frame actions, ctx => return ((), ← schedule ctx frame (Job.ofAll actions).toArray)
  | .pushFrame frame, ctx => return ctx.pushFrame frame
  | .queueCommand chain source callback, ctx =>
    let (frame, ctx) := ctx.pushTopFrame callback
    return ((), enqueue ctx frame (.topLevel chain.track source))
  | .queueCall function source callback, ctx =>
    let (frame, ctx) := ctx.pushTopFrame callback
    return ((), enqueue ctx frame (.call function (source.callback.chain callback) false source))
  | .discard frame, ctx => return ((), ctx.discard frame)
  | .discardFrom depth, ctx => return ((), ctx.discardFrom depth)
  | .charge, ctx => return ((), ctx.charge)
  | .install sink?, ctx => return ((), ctx.install sink?)
  | .trace event, ctx => return ((), ctx.trace event)
  | .fire callback result, ctx => return ((), ctx.fire callback result)
  | .present source error forked, ctx => return ((), ctx.present source error forked)
  | .load, ctx => return (ctx.memory, ctx)
  | .store memory, ctx => return ((), { ctx with memory })
  | .mark mark, ctx => return ((), ctx.record [.mark mark])

/-- The context after a routine of the embedding program. -/
def routine (routine : Routine E Unit) (ctx : Context E.tracked) : Checked (Context E.tracked) :=
  return (← routine.runChecked effect ctx).2

/-! ## Resolving a track -/

def applyModifier (track : Track E) (origin : Source) (forked : Bool) :
    Array Source → List Source → Context E.tracked →
      Checked (Option (List Source) × Context E.tracked)
  | yielded, [], ctx => return (some yielded.toList, ctx)
  | yielded, source :: rest, ctx => do
    let (result, events) ← .ofOption .unsupported (← track.runModifier? source)
    let ctx := ctx.record events
    match result with
    | .ok sources =>
      let limit := ctx.limits.forkLimit
      if limit ≤ yielded.size + sources.length then
        let ctx := ctx.notify (.forkLimitReached limit)
        return (none, ctx.present origin (.forkLimitReached limit) forked)
      else
        applyModifier track origin forked (yielded ++ sources) rest ctx
    | .error error =>
      let ctx := ctx.present source error forked
      if forked then applyModifier track origin forked yielded rest ctx else return (none, ctx)

def returnRun (track : Track E) (origin : Source) (sources : List Source) (flags : Flags)
    (frame : FrameId) (ctx : Context E.tracked) : Checked (Context E.tracked) := do
  if sources.isEmpty then
    return if flags.isReturn then enqueue ctx frame .fallthrough else ctx
  else
    let ctx := ctx.discard frame
    let next ← .ofOption .noNext track.next?
    return enqueue ctx frame (.continuation next origin sources flags.setReturn)

/-- Goes through the redirect stages of a track, in a limited number of rounds. -/
def prepare (host : Host E) (origin : Source) (frame : FrameId) :
    Nat → Track E → List Source → Flags → Context E.tracked →
      Checked (Option (Track E × List Source × Flags) × Context E.tracked)
  | 0, _, _, _, _ => throw (.fault .endless)
  | rounds + 1, track, sources, flags, ctx => do
    if ← track.isTerminal then
      return (some (track, sources, flags), ctx)
    else
      let flags := flags.forkedIf (← track.isForked)
      match ← track.link with
      | .redirect { redirect := .custom code, .. } =>
        let chain ← .ofOption .misbuilt (Chain.ofTrack? track)
        return (none, ← routine (host.redirect code origin sources chain flags frame) ctx)
      | .redirect { redirect := .returnRun, .. } =>
        return (none, ← returnRun track origin sources flags frame ctx)
      | .redirect { redirect := .modifier _, .. } =>
        match ← applyModifier track origin flags.isForked #[] sources ctx.charge with
        | (some sources, ctx) =>
          prepare host origin frame rounds (← .ofOption .noNext track.next?) sources flags ctx
        | (none, ctx) => return (none, ctx)
      | .redirect { redirect := .passthrough, .. } | .terminal _ =>
        prepare host origin frame rounds (← .ofOption .noNext track.next?) sources flags ctx

/-- Lets the frame of a returning chain hear what the first source hears. -/
def rebind (sources : List Source) (callback : Callback) : Checked (List Source) := do
  let first ← .ofOption .noSource sources[0]?
  return sources.set 0 (first.withCallback (first.callback.chain callback))

/-- Runs a terminal that takes over scheduling for each source. -/
def takeOver (host : Host E) (track : Track E) (flags : Flags) (frame : FrameId) :
    List Source → Context E.tracked → Checked (Context E.tracked)
  | [], ctx => return ctx
  | source :: rest, ctx => do
    let chain ← .ofOption .misbuilt (Chain.ofTrack? track)
    takeOver host track flags frame rest
      (← routine (Context.takeOver host chain source flags frame) ctx)

def launch (host : Host E) (track : Track E) (sources : List Source) (flags : Flags)
    (frame : FrameId) (ctx : Context E.tracked) : Checked (Context E.tracked) := do
  if sources.isEmpty then
    return if flags.isReturn then enqueue ctx frame .fallthrough else ctx
  else
    match ← track.link with
    | .redirect _ => throw (.fault .unresolved)
    | .terminal (.command _) =>
      let sources ←
        if flags.isReturn then rebind sources (ctx.frameCallback frame) else pure sources
      schedule ctx frame (sources.map (.execute track flags · true)).toArray
    | .terminal _ => takeOver host track flags frame sources ctx

/-- Resolves a track in as many rounds as it has links and schedules its terminal. -/
def resolve (host : Host E) (track : Track E) (origin : Source) (sources : List Source)
    (flags : Flags) (frame : FrameId) (ctx : Context E.tracked) : Checked (Context E.tracked) := do
  if ← track.isTerminal then
    launch host track sources flags frame ctx
  else
    let (prepared, ctx) ← prepare host origin frame track.links.size track sources flags
      (ctx.openScope ("prepare " ++ track.input))
    let ctx := ctx.closeScope
    match prepared with
    | some (track, sources, flags) => launch host track sources flags frame ctx
    | none => return ctx

/-! ## The other jobs -/

def start (host : Host E) (track : Track E) (source : Source) (frame : FrameId)
    (ctx : Context E.tracked) : Checked (Context E.tracked) :=
  resolve host track source [source] .initial frame
    (ctx.trace (.command (ctx.frameDepth frame) track.input))

/-- What comes of running a link.  One that a resolution has scheduled has to be a command; any
other one may answer that it is not supported. -/
def accept {Mark : Type} (resolved : Bool)
    (answer? : Option (Except CommandError Int32 × List (Event Mark))) :
    Checked (Except CommandError Int32 × List (Event Mark)) :=
  if resolved then .ofOption .unsupported answer?
  else pure (answer?.getD (.error .unsupported, []))

def executeCommand (track : Track E) (flags : Flags) (source : Source) (resolved : Bool)
    (frame : FrameId) (ctx : Context E.tracked) : Checked (Context E.tracked) := do
  let ctx := (ctx.openScope ("execute " ++ track.input)).charge
  let (result, events) ← accept resolved (← track.runExecutable? source)
  let ctx := ctx.record events
  let ctx :=
    match result with
    | .ok value => ctx.trace (.returned (ctx.frameDepth frame) track.input value)
    | .error error => ctx.present source error flags.isForked
  return ctx.closeScope

def callFunction (function : Function E) (callback : Callback) (returnParent : Bool)
    (source : Source) (frame : FrameId) (ctx : Context E.tracked) : Checked (Context E.tracked) :=
  let ctx := ctx.charge
  let depth := ctx.frameDepth frame
  let size := function.lines.length
  let ctx := (ctx.trace (.called depth function.id size)).notify (.called function.id depth size)
  if function.lines.isEmpty then
    return ctx
  else
    let scope := if returnParent then ctx.scopeOf frame else .discardFrom (depth + 1)
    let (inner, ctx) := ctx.pushFrame { depth := depth + 1, callback, scope }
    schedule ctx inner (function.lines.map (.ofLine · source)).toArray

/-! ## The run loop -/

/-- How one instruction of a program acts, given how jobs are performed and the queue is drained. -/
def instruct (perform : Job E → FrameId → Context E.tracked → Checked (Context E.tracked))
    (drain : Context E.tracked → Checked (Outcome × Context E.tracked)) :
    (op : Instruction E) → Context E.tracked → Checked (op.Reply × Context E.tracked)
  | .effect e, ctx => effect e ctx
  | .perform action frame, ctx => return ((), ← perform (.of action) frame ctx)
  | .run, ctx => drain ctx.promote

mutual

/-- Performs a job as part of a frame. -/
def perform (host : Host E) :
    Nat → Job E → FrameId → Context E.tracked → Checked (Context E.tracked)
  | 0, _, _, _ => throw .outOfFuel
  | fuel + 1, job, frame, ctx =>
    let handle := instruct (perform host fuel) (drain host fuel)
    match job with
    | .topLevel track source | .line track source => start host track source frame ctx
    | .continuation track origin sources flags =>
      resolve host track origin sources flags frame ctx
    | .fallthrough => return ctx.fallThrough frame
    | .fanOut arguments index => expand arguments index frame ctx
    | .execute track flags source resolved => executeCommand track flags source resolved frame ctx
    | .call function callback returnParent source =>
      callFunction function callback returnParent source frame ctx
    | .task code => return (← (host.task code frame).runChecked handle ctx).2
    | .customLine code source => return (← (host.line code source frame).runChecked handle ctx).2

def drain (host : Host E) : Nat → Context E.tracked → Checked (Outcome × Context E.tracked)
  | 0, _ => throw .outOfFuel
  | fuel + 1, ctx =>
    if ctx.quota.isExhausted then
      return (ctx.notify (.limitReached ctx.limits.commandLimit)).finish .quotaExhausted
    else
      match ctx.pop? with
      | none => return ctx.finish .completed
      | some (entry, ctx) =>
        match entry.action with
        | .task job => do
          let ctx := (← perform host fuel job entry.frame ctx).settle entry.frame
          if ctx.overflowed then
            return (ctx.notify (.queueOverflowed ctx.limits.maxQueueDepth)).finish .overflowed
          else
            drain host fuel ctx.promote
        | _ => throw (.fault .stray)

end

/-- Runs a program of the embedding program on a context, outside of all entries. -/
def runProgram {α : Type} (host : Host E) (fuel : Nat) (program : Program E α)
    (ctx : Context E.tracked) : Checked (α × Context E.tracked) :=
  program.runChecked (instruct (perform host fuel) (drain host fuel)) ctx

end Checked
end CommandScheduler
