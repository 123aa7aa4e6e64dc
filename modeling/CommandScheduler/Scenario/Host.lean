import CommandScheduler.Executor
import CommandScheduler.Scenario.Embedding

/-!
# The host of a scenario — operations as routines and programs

Operations on a control are routines, since executors and redirectors are; operations on a context
are programs.  Each gives a reply, and inside of actions every reply that has something to tell is
written into the log.
-/

namespace CommandScheduler
namespace Scenario

abbrev Act := Routine embedding

abbrev Play := Program embedding

/-! ## Shared by both kinds of operations -/

namespace Act

def effect (effect : Effect embedding) : Act effect.Reply :=
  Routine.effect effect

def ask (query : Query) : Act query.Answer :=
  Routine.ask query

/-- The depth that a frame's handle stands for. -/
def frameDepth (id : FrameId) : Act Nat :=
  Routine.frameDepth id

/-- The callback that a frame's handle stands for. -/
def frameCallback (id : FrameId) : Act Callback :=
  Routine.frameCallback id

/-- Performs an effect that has nothing to tell. -/
def silently (effect : Effect embedding) : Act Reply := do
  let _ ← Act.effect effect
  return .silent

def mark (mark : Mark) : Act Unit :=
  Act.effect (.mark mark)

/-- Charges several units, one at a time. -/
def charge : Nat → Act Reply
  | 0 => return .silent
  | times + 1 => do
    Act.effect .charge
    charge times

/-- Tells the installed sink of an event; the reply is whether there is one. -/
def trace (event : TraceEvent) : Act Reply := do
  let sink? ← Act.ask .sink
  Act.effect (.trace event)
  return .bool sink?.isSome

def note (text : String) : Act Reply := do
  Act.mark (.note text)
  return .silent

def bindName (name : String) (id : FrameId) : Act Reply := do
  let memory ← Act.effect .load
  silently (.store (memory.bindName name id))

/-- The functions registered at this moment. -/
def library : Act (Library vocabulary) := do
  return (← Act.effect .load).library

/-- Reads off the context what can be seen between operations. -/
def state : Act State := do
  let quota ← Act.ask .quota
  let (pending, staged) ← Act.ask .backlog
  let frames ← Act.ask .frameCount
  let depth ← Act.ask .depth
  let overflowed ← Act.ask .overflowed
  return { quota := quota.remaining, queued := pending + staged, frames, depth, overflowed }

end Act

/-! ## Operations on a control -/

/-- What an operation on a control can refer to. -/
structure ControlScope where
  frame : FrameId
  source? : Option Source
  sources : List Source
  chain? : Option (Chain vocabulary)
  flags : Flags

namespace ControlScope

/-- The sources of an operation: the described ones, or those of the scope. -/
def sourcesFor (scope : ControlScope) (specs? : Option (List SourceSpec)) : Option (List Source) :=
  match specs? with
  | some specs => buildSources scope.source? specs
  | none => some scope.sources

/-- The source that errors of a whole fork step go to: the described one, or that of the scope. -/
def originFor (scope : ControlScope) (spec? : Option SourceSpec) : Option Source :=
  match spec? with
  | some spec => spec.build scope.source?
  | none => scope.source?

end ControlScope

/-- Carries out one operation on a control. -/
def playControlOp (scope : ControlScope) : ControlOp → Act Reply
  | .queue action => do
    match action.build (← Act.library) scope.source? with
    | some action => Act.silently (.enqueue scope.frame action)
    | none => return .badInput
  | .proceed setReturn setForked origin? sources? =>
    match scope.chain?.bind Chain.next? with
    | none => return .endOfChain
    | some next =>
      match scope.originFor origin?, scope.sourcesFor sources? with
      | some origin, some sources =>
        let flags := (scope.flags.returnIf setReturn).forkedIf setForked
        Act.silently (.enqueue scope.frame (.continuation next origin sources flags))
      | _, _ => return .badInput
  | .returnRun sources? =>
    match scope.chain? with
    | none => return .endOfChain
    | some chain =>
      match scope.source?, scope.sourcesFor sources? with
      | some source, some sources => do
        Executor.returnRun source sources chain scope.flags scope.frame
        return .silent
      | _, _ => return .badInput
  | .returns value? => do
    let callback ← Act.frameCallback scope.frame
    Act.silently (.fire callback (.ofOption value?))
  | .report value? =>
    match scope.source? with
    | some source => Act.silently (.fire source.callback (.ofOption value?))
    | none => return .badInput
  | .discard => Act.silently (.discard scope.frame)
  | .charge times => Act.charge times
  | .trace event => Act.trace event
  | .note text => Act.note text
  | .name name => Act.bindName name scope.frame
  | .info => do
    let depth ← Act.frameDepth scope.frame
    let limits ← Act.ask .limits
    let callback ← Act.frameCallback scope.frame
    let sink? ← Act.ask .sink
    return .info depth limits.forkLimit callback.isEmpty sink?.isSome

/-- Carries out operations on a control, writing down what they have to tell. -/
def playControl (scope : ControlScope) : List ControlOp → Act Unit
  | [] => return
  | op :: rest => do
    match ← playControlOp scope op with
    | .silent => pure ()
    | reply => Act.mark (.control reply)
    playControl scope rest

/-- Carries out the operations of a custom terminal; they may end with an error. -/
def playExecutor (ops : List ControlOp) (error? : Option CommandError) (source : Source)
    (chain : Chain vocabulary) (flags : Flags) (frame : FrameId) : Act (Option CommandError) := do
  let depth ← Act.frameDepth frame
  Act.mark (.executor source.name chain.input chain.isTerminal flags depth)
  playControl { frame, source? := source, sources := [source], chain? := chain, flags } ops
  return error?

/-- Carries out the operations of a custom redirect. -/
def playRedirector (ops : List ControlOp) (origin : Source) (sources : List Source)
    (chain : Chain vocabulary) (flags : Flags) (frame : FrameId) : Act Unit := do
  let depth ← Act.frameDepth frame
  Act.mark (.redirector origin.name (sources.map Source.name) chain.input flags depth)
  playControl { frame, source? := origin, sources, chain? := chain, flags } ops

/-! ## Operations on a context -/

/-- On whose behalf operations are carried out, and as part of which frame. -/
structure OpScope where
  parent? : Option Source := none
  current? : Option FrameId := none

/-- The handle that a name stands for; a single dot names the current frame. -/
def OpScope.resolve (scope : OpScope) (name : String) : Act (Option FrameId) := do
  if name = "." then
    return scope.current?
  else
    return (← Act.effect .load).names.lookup name

/-- Carries out one operation on a context. -/
def playOp (scope : OpScope) : Op → Play Reply
  | .command chain source callback? => do
    match chain.build (← Act.library), source.build scope.parent? with
    | some chain, some source =>
      Act.silently (.queueCommand chain source (buildCallback callback?))
    | _, _ => return .badInput
  | .function id source callback? => do
    match (← Act.library).get? id, source.build scope.parent? with
    | some function, some source =>
      Act.silently (.queueCall function source (buildCallback callback?))
    | _, _ => return .badInput
  | .run => do
    return .outcome (← Program.run)
  | .pushFrame name depth frameScope callback? => do
    let frame : Frame := { depth, callback := buildCallback callback?, scope := frameScope }
    let id ← Act.effect (.pushFrame frame)
    Act.bindName name id
  | .queue name action => do
    match ← scope.resolve name, action.build (← Act.library) scope.parent? with
    | some id, some action => Act.silently (.enqueue id action)
    | _, _ => return .badInput
  | .perform name action => do
    match ← scope.resolve name, action.build (← Act.library) scope.parent? with
    | some id, some action =>
      Program.perform action id
      return .silent
    | _, _ => return .badInput
  | .describe name action => do
    match ← scope.resolve name, action.build (← Act.library) scope.parent? with
    | some _, some action => return .entry (action.source?.map Source.name) action.inspectEntry
    | _, _ => return .badInput
  | .fanOut name texts ops => do
    match ← scope.resolve name with
    | some id => Act.silently (.schedule id (texts.map fun text => .task (.argument text ops)))
    | none => return .badInput
  | .build name chain skip origin sources flags => do
    match ← scope.resolve name, chain.build (← Act.library), origin.build scope.parent?,
        buildSources scope.parent? sources with
    | some id, some chain, some origin, some sources =>
      let chain := chain.skip skip
      Program.perform (.continuation chain origin sources flags) id
      return .chain chain.input chain.isTerminal
    | _, _, _, _ => return .badInput
  | .discard name => do
    match ← scope.resolve name with
    | some id => Act.silently (.discard id)
    | none => return .badInput
  | .discardFrom depth => Act.silently (.discardFrom depth)
  | .charge times => Act.charge times
  | .install none => do
    let replaced? ← Act.ask .sink
    Act.effect (.install none)
    return .installed replaced?.isSome
  | .install (some spec) => do
    let replaced? ← Act.ask .sink
    let memory ← Act.effect .load
    let (sink, memory) := memory.addSink spec
    Act.effect (.store memory)
    Act.effect (.install (some sink))
    return .installed replaced?.isSome
  | .trace event => Act.trace event
  | .frame name => do
    match ← scope.resolve name with
    | some id =>
      let frame? ← Act.ask (.frame id)
      let depth ← Act.frameDepth id
      let callback ← Act.frameCallback id
      return .frame frame? depth callback.isEmpty
    | none => return .badInput
  | .frameReturn name value? => do
    match ← scope.resolve name with
    | some id =>
      match ← Act.ask (.frame id) with
      | some frame =>
        Act.effect (.fire frame.callback (.ofOption value?))
        return .bool true
      | none => return .bool false
    | none => return .badInput
  | .callbackReturn name value? => do
    match ← scope.resolve name with
    | some id =>
      let callback ← Act.frameCallback id
      Act.silently (.fire callback (.ofOption value?))
    | none => return .badInput
  | .name name =>
    match scope.current? with
    | some id => Act.bindName name id
    | none => return .badInput
  | .state => return .state (← Act.state)
  | .config => return .config (← Act.ask .limits)
  | .debug => return .text (← Act.ask .inspection)
  | .note text => Act.note text
  | .register function => do
    let memory ← Act.effect .load
    match function.build memory.library with
    | some function =>
      let (replaced?, library) := memory.library.register function
      Act.effect (.store { memory with library })
      return .registered (replaced?.map (·.lines.length))
    | none => return .badInput
  | .control name ops => do
    match ← scope.resolve name with
    | some frame =>
      playControl
        { frame, source? := scope.parent?, sources := [], chain? := none, flags := .initial } ops
      return .silent
    | none => return .badInput

/-- Carries out operations inside an action, writing down what they have to tell. -/
def playOps (scope : OpScope) : List Op → Play Unit
  | [] => return
  | op :: rest => do
    match ← playOp scope op with
    | .silent => pure ()
    | reply => Act.mark (.op reply)
    playOps scope rest

/-! ## The host -/

def playTask (frame : FrameId) : Task → Play Unit
  | .ops work parent? => playOps { parent?, current? := frame } work
  | .argument text work => do
    let (pending, staged) ← Act.ask .backlog
    Act.mark (.argument text (pending + staged))
    playOps { current? := frame } work

def playLine (work : List Op) (source : Source) (frame : FrameId) : Play Unit := do
  let depth ← Act.ask .depth
  Act.mark (.action source.name depth)
  playOps { parent? := source, current? := frame } work

/-- What the work of a scenario means. -/
def host : Host embedding where
  redirect ops origin sources chain flags frame :=
    playRedirector ops origin sources chain flags frame
  execute code source chain flags frame :=
    Executor.guarded (playExecutor code.1 code.2 source chain flags frame) source flags
  task task frame := playTask frame task
  line work source frame := playLine work source frame

end Scenario
end CommandScheduler
