import CommandScheduler.Run
import CommandScheduler.Scenario.Host

/-!
# Session — a scenario from its first step to its end

A session registers functions, creates a context and carries out steps.  Each step is answered by a
reply, by what was logged meanwhile and by the state that the context was left in.  At the end the
context is closed, if no step has done so.
-/

namespace CommandScheduler
namespace Scenario

inductive Step where
  | op (op : Op)
  /-- Closes the context; every later step is only told so. -/
  | close

end Scenario

/-- Functions to register, a context to create and steps to carry out on it. -/
structure Scenario where
  limits : Limits := {}
  profiler : Profiler := .off
  functions : List Scenario.FunctionSpec := []
  steps : List Scenario.Step

namespace Scenario

/-! ## Reports -/

/-- Something that a session has logged. -/
abbrev LogEvent := Event Mark

/-- The answer to one step. -/
structure StepReport where
  reply : Reply
  log : List LogEvent
  /-- The state after the step, unless the context is closed. -/
  state? : Option State

structure Report where
  steps : List StepReport
  /-- What closing the context has logged. -/
  ending : List LogEvent
  /-- The label and the log of each sink that keeps one, in the order of installation. -/
  traces : List (String × TraceLog)

/-- Why a session has no answer. -/
inductive Failure where
  /-- A function calls another one that does not exist. -/
  | badInput
  | outOfFuel

/-! ## Trace logs -/

/-- Whether the event belongs into a trace log and nowhere else. -/
def isKept : LogEvent → Bool
  | .traced sink _ | .closed sink => sink.kind = .keeper
  | _ => false

/-- Adds an event to the log of a sink, if it concerns that sink. -/
def keep (sink : Sink) (log : TraceLog) : LogEvent → TraceLog
  | .traced other event => if other = sink then log.push event else log
  | .closed other => if other = sink then log.close else log
  | _ => log

/-- The log of a sink after all these events. -/
def traceLog (events : Array LogEvent) (sink : Sink) : TraceLog :=
  events.foldl (keep sink) {}

/-! ## Carrying out steps -/

/-- A session under way. -/
structure Session where
  context : Context embedding
  closed : Bool := false
  /-- The events that belong into trace logs. -/
  kept : Array LogEvent := #[]
  reports : Array StepReport := #[]

namespace Session

/-- What can be read off a context. -/
def stateOf (ctx : Context embedding) : State :=
  { quota := ctx.quota.remaining
    queued := ctx.queued
    frames := ctx.frameCount
    depth := ctx.depth
    overflowed := ctx.overflowed }

/-- Takes what has been logged since the last time. -/
def takeLog (session : Session) : List LogEvent × Session :=
  let log := session.context.log
  (log.toList.filter (!isKept ·),
    { session with
      context := { session.context with log := #[] }
      kept := session.kept ++ log.filter isKept })

def report (session : Session) (reply : Reply) : Session :=
  let (log, session) := session.takeLog
  let state? := if session.closed then none else some (stateOf session.context)
  { session with reports := session.reports.push { reply, log, state? } }

def close (session : Session) : Session :=
  { session with context := session.context.close, closed := true }

def step (fuel : Nat) (session : Session) (step : Step) : Except Failure Session :=
  if session.closed then
    .ok (session.report .closed)
  else
    match step with
    | .close => .ok (session.close.report .silent)
    | .op op =>
      match session.context.runProgram host fuel (playOp {} op) with
      | some (reply, context) => .ok ({ session with context }.report reply)
      | none => .error .outOfFuel

def finish (session : Session) : Report :=
  let session := if session.closed then session else session.close
  let (ending, session) := session.takeLog
  { steps := session.reports.toList
    ending
    traces := session.context.memory.keepers.reverse.map fun sink =>
      (sink.label, traceLog session.kept sink) }

end Session

/-- The library of the given functions, registered in order. -/
def libraryOf (functions : List FunctionSpec) : Option (Library vocabulary) :=
  functions.foldlM (fun library spec => do
    let function ← spec.build library
    return (library.register function).2) .empty

/-- Carries out a whole session. -/
def run (fuel : Nat) (scenario : Scenario) : Except Failure Report :=
  match libraryOf scenario.functions with
  | none => .error .badInput
  | some library => do
    let memory : Memory := { library }
    let context : Context embedding := .create scenario.limits memory scenario.profiler
    let session ← scenario.steps.foldlM (Session.step fuel) { context }
    return session.finish

end Scenario
end CommandScheduler
