import CommandScheduler.Flags
import CommandScheduler.Chain
import CommandScheduler.Limits

/-!
# Interpreter — native programs without a queue

A program is native if it uses no code of the embedding program.  The interpreter runs such programs
by plain recursion: it resolves a chain, runs the terminal for each source from left to right, and
runs all lines of a called function before it goes on with the caller.

There is no queue, no frame and no fan-out here.  What the run loop does by queueing is only visible
as `funded`: a unit of work that would be an entry of its own starts only while there is quota left.
-/

namespace CommandScheduler

/-! ## Native programs -/

namespace Redirect

variable {V : Vocabulary}

/-- Whether the scheduler knows the redirect itself. -/
def isNative : Redirect V → Bool
  | passthrough | modifier _ | returnRun => true
  | custom _ => false

end Redirect

section Native

variable {V : Vocabulary}

mutual

def Terminal.isNative : Terminal V → Bool
  | .command _ | .returnValue _ | .returnFailure => true
  | .call function => function.isNative
  | .custom _ => false

def Function.isNative : Function V → Bool
  | ⟨_, lines⟩ => nativeLines lines

/-- Whether all lines are native. -/
def nativeLines : List (Line V) → Bool
  | [] => true
  | line :: rest => line.isNative && nativeLines rest

def Line.isNative : Line V → Bool
  | .chain chain => chain.isNative
  | .custom _ => false

/-- Whether the rest of the chain, from its cursor on, is native. -/
def Chain.isNative : Chain V → Bool
  | ⟨_, _, ahead, terminal⟩ => ahead.all (·.redirect.isNative) && terminal.isNative

end

end Native

/-! ## What the outside sees -/

/-- Whether an event tells of the work itself, and not of the scheduler, its profiler or the
embedding program. -/
def Event.isObservable {Mark : Type} : Event Mark → Bool
  | .applied _ | .executed _ | .fired .. | .presented .. | .traced .. => true
  | .closed _ | .entered _ | .left | .notice _ | .mark _ => false

/-- The observable events so far and the quota that is left. -/
structure Tape (Mark : Type) where
  quota : Quota
  events : List (Event Mark) := []

namespace Tape

variable {Mark : Type}

/-- Adds those events that are observable. -/
def write (tape : Tape Mark) (events : List (Event Mark)) : Tape Mark :=
  { tape with events := tape.events ++ events.filter Event.isObservable }

def charge (tape : Tape Mark) : Tape Mark :=
  { tape with quota := tape.quota.charge }

end Tape

/-! ## Evaluations -/

/-- Whether the body of a function goes on after some of its work. -/
inductive Flow where
  | goesOn
  /-- Something has returned from the body. -/
  | returned
  deriving DecidableEq

/-- How a piece of work continues the tape. -/
abbrev Evaluation (Mark : Type) := Tape Mark → Tape Mark × Flow

namespace Evaluation

variable {Mark : Type}

def skip : Evaluation Mark :=
  fun tape => (tape, .goesOn)

/-- Work that starts only while there is quota left. -/
def funded (work : Evaluation Mark) : Evaluation Mark :=
  fun tape => if tape.quota.isExhausted then (tape, .goesOn) else work tape

/-- Work that returns from the body in any case. -/
def returning (work : Evaluation Mark) : Evaluation Mark :=
  fun tape => ((work tape).1, .returned)

/-- The second piece of work follows, unless the first one returns from the body. -/
def andThen (first second : Evaluation Mark) : Evaluation Mark :=
  fun tape =>
    match first tape with
    | (tape, .goesOn) => second tape
    | (tape, .returned) => (tape, .returned)

/-- One piece of work after another, until one of them returns from the body. -/
def inOrder : List (Evaluation Mark) → Evaluation Mark
  | [] => skip
  | work :: rest => work.andThen (inOrder rest)

end Evaluation

/-! ## The interpreter -/

/-- What stays the same during a run. -/
structure Setting where
  forkLimit : Nat
  sink? : Option Sink

/-- The body that work belongs to. -/
structure Body where
  depth : Nat
  /-- Who hears the value returned from the body. -/
  callback : Callback

namespace Setting

variable {Mark : Type} (setting : Setting)

/-- What the sink, if there is one, is told. -/
def traced (event : TraceEvent) : List (Event Mark) :=
  match setting.sink? with
  | some sink => [.traced sink event]
  | none => []

/-- An error is presented to a source, after the sink has been told. -/
def presented (source : Source) (error : CommandError) (forked : Bool) : List (Event Mark) :=
  setting.traced (.error error.message) ++ [.presented source.name error forked]

/-- Applies a modifier to the sources from left to right.  Gives nothing if the chain is aborted. -/
def modify (apply : Modifier) (origin : Source) (forked : Bool) :
    List Source → List Source → Tape Mark → Option (List Source) × Tape Mark
  | yielded, [], tape => (some yielded, tape)
  | yielded, source :: rest, tape =>
    let tape := tape.write [.applied source.name]
    match apply source with
    | .ok sources =>
      if setting.forkLimit ≤ yielded.length + sources.length then
        let error := CommandError.forkLimitReached setting.forkLimit
        (none, tape.write (setting.presented origin error forked))
      else
        modify apply origin forked (yielded ++ sources) rest tape
    | .error error =>
      let tape := tape.write (setting.presented source error forked)
      if forked then modify apply origin forked yielded rest tape else (none, tape)

def execute (body : Body) (input : String) (command : Command) (flags : Flags)
    (source : Source) : Evaluation Mark :=
  fun tape =>
    let executed : Except CommandError Int32 × List (Event Mark) := command.execute source
    let tape := tape.charge.write executed.2
    match executed.1 with
    | .ok value => (tape.write (setting.traced (.returned body.depth input value)), .goesOn)
    | .error error => (tape.write (setting.presented source error flags.isForked), .goesOn)

end Setting

namespace Body

variable {Mark : Type} (body : Body)

def fail : Evaluation Mark :=
  fun tape => (tape.write (body.callback.fire .failure), .returned)

/-- Returns a result from the body for each source. -/
def giveBack (result : Result) (sources : List Source) : Evaluation Mark :=
  fun tape =>
    (sources.foldl
      (fun tape source =>
        (tape.write (source.callback.fire result)).write (body.callback.fire result)) tape,
      .returned)

/-- In a returning chain, the body hears the result of the first source. -/
def rebind (flags : Flags) : List Source → List Source
  | [] => []
  | first :: rest =>
    if flags.isReturn then
      first.withCallback (first.callback.chain body.callback) :: rest
    else
      first :: rest

/-- Who hears the result of a function that is called for a source. -/
def calleeCallback (flags : Flags) (source : Source) : Callback :=
  if flags.isReturn then source.callback.chain body.callback else source.callback

/-- Goes on at the terminal of a chain with the sources that have reached it.  Without any source, a
returning chain returns a failure. -/
def arrive (terminal : List Source → Flags → Evaluation Mark) (sources : List Source)
    (flags : Flags) : Evaluation Mark :=
  if sources.isEmpty then
    if flags.isReturn then .funded body.fail else .skip
  else
    terminal sources flags

/-- Walks the stages of a chain. -/
def walk {V : Vocabulary} (setting : Setting) (origin : Source)
    (terminal : List Source → Flags → Evaluation Mark) :
    List (Stage V) → List Source → Flags → Evaluation Mark
  | [], sources, flags => body.arrive terminal sources flags
  | stage :: rest, sources, flags =>
    let flags := flags.forkedIf stage.forked
    match stage.redirect with
    | .passthrough => walk setting origin terminal rest sources flags
    | .modifier apply => fun tape =>
      match setting.modify apply origin flags.isForked [] sources tape.charge with
      | (some sources, tape) => walk setting origin terminal rest sources flags tape
      | (none, tape) => (tape, .goesOn)
    | .returnRun =>
      if sources.isEmpty then
        if flags.isReturn then .funded body.fail else .skip
      else
        .returning (.funded (walk setting origin terminal rest sources flags.setReturn))
    | .custom _ => .skip

end Body

section Eval

variable {V : Vocabulary} {Mark : Type} (setting : Setting)

mutual

/-- Runs a terminal for the sources that have reached it. -/
def Terminal.eval : Terminal V → Body → String → List Source → Flags → Evaluation Mark
  | .command command, body, input, sources, flags =>
    .inOrder ((body.rebind flags sources).map fun source =>
      .funded (setting.execute body input command flags source))
  | .returnValue value, body, _, sources, _ => body.giveBack (.success value) sources
  | .returnFailure, body, _, sources, _ => body.giveBack .failure sources
  | .call function, body, _, sources, flags =>
    .inOrder (sources.map fun source =>
      .funded (function.eval body.depth (body.calleeCallback flags source) flags.isReturn source))
  | .custom _, _, _, _, _ => .skip

/-- Runs the lines of a function one level below the caller.  If `returnParent`, a return from the
function also returns from the caller. -/
def Function.eval : Function V → Nat → Callback → Bool → Source → Evaluation Mark
  | ⟨id, lines⟩, depth, callback, returnParent, source => fun tape =>
    let tape := tape.charge.write (setting.traced (.called depth id lines.length))
    let (tape, flow) := Evaluation.inOrder (evalLines lines ⟨depth + 1, callback⟩ source) tape
    (tape, if returnParent then flow else .goesOn)

/-- The lines of a function, each as a unit of work. -/
def evalLines : List (Line V) → Body → Source → List (Evaluation Mark)
  | [], _, _ => []
  | line :: rest, body, source => .funded (line.eval body source) :: evalLines rest body source

def Line.eval : Line V → Body → Source → Evaluation Mark
  | .chain chain, body, source => chain.eval body source
  | .custom _, _, _ => .skip

/-- Resolves a chain for one source, telling the sink of it. -/
def Chain.eval : Chain V → Body → Source → Evaluation Mark
  | ⟨input, _, ahead, terminal⟩, body, source => fun tape =>
    body.walk setting source (terminal.eval body input) ahead [source] .initial
      (tape.write (setting.traced (.command body.depth input)))

end

def Chain.interpret (chain : Chain V) (source : Source) (callback : Callback) (quota : Quota) :
    Tape Mark :=
  (Evaluation.funded (chain.eval setting ⟨0, callback⟩ source) { quota }).1

end Eval
end CommandScheduler
