import CommandScheduler.Event
import CommandScheduler.Vocabulary

/-!
# Chain — the stages that one command passes through

A chain has any number of redirect stages and exactly one terminal.  It is kept as a cursor: the
stages already passed, latest first, and the stages still ahead.  So a cursor is never out of range,
the terminal is always last, and there is a next stage exactly when something is still ahead.

Functions are lists of lines, and a line is mostly a chain again.
-/

namespace CommandScheduler

/-! ## Stages -/

/-- Replaces one source by any number of sources. -/
abbrev Modifier := Source → Except CommandError (List Source)

/-- How a stage that is not the terminal transforms its sources. -/
inductive Redirect (V : Vocabulary) where
  | passthrough
  | modifier (apply : Modifier)
  /-- The rest of the chain returns its result from the frame. -/
  | returnRun
  | custom (code : V.Redirector)

structure Stage (V : Vocabulary) where
  /-- Whether the sources of this stage come from a fork. -/
  forked : Bool := false
  redirect : Redirect V

/-- A terminal command that gives a value. -/
structure Command where
  run : Source → Except CommandError Int32
  /-- A quiet command leaves no event when it is executed. -/
  quiet : Bool := false

/-! ## Chains and functions -/

mutual

/-- A cursor into the stages of one command. -/
structure Chain (V : Vocabulary) where
  input : String
  /-- The stages before the cursor, latest first. -/
  passed : List (Stage V)
  /-- The stages from the cursor on. -/
  ahead : List (Stage V)
  terminal : Terminal V

/-- What the last stage of a chain runs. -/
inductive Terminal (V : Vocabulary) where
  | command (command : Command)
  | returnValue (value : Int32)
  | returnFailure
  | call (function : Function V)
  | custom (code : V.Executor)

structure Function (V : Vocabulary) where
  id : String
  lines : List (Line V)

inductive Line (V : Vocabulary) where
  | chain (chain : Chain V)
  | custom (code : V.Line)

end

variable {V : Vocabulary}

namespace Command

/-- Executes a command for one source and reports the outcome to the source's callback. -/
def execute {Mark : Type} (command : Command) (source : Source) :
    Except CommandError Int32 × List (Event Mark) :=
  let start : List (Event Mark) := if command.quiet then [] else [.executed source.name]
  match command.run source with
  | .ok value => (.ok value, start ++ source.callback.fire (.success value))
  | .error error => (.error error, start ++ source.callback.fire .failure)

end Command

namespace Redirect

def inspect : Redirect V → String
  | passthrough => "passthrough"
  | modifier _ => "modifier"
  | returnRun | custom _ => "custom"

end Redirect

namespace Stage

def inspect (stage : Stage V) : String :=
  Inspect.record "Modify" [
    Inspect.field "forked" (Inspect.bool stage.forked),
    Inspect.field "redirect" (Inspect.quoted stage.redirect.inspect)]

end Stage

namespace Terminal

/-- Whether this is a command that gives a value; all others take over scheduling. -/
def isCommand : Terminal V → Bool
  | command _ => true
  | _ => false

def inspect (terminal : Terminal V) : String :=
  Inspect.tuple "Execute" [if terminal.isCommand then "command" else "custom"]

end Terminal

namespace Chain

/-- The chain of the given stages, with the cursor at the first. -/
def ofStages (input : String) (stages : List (Stage V)) (terminal : Terminal V) : Chain V :=
  { input, passed := [], ahead := stages, terminal }

/-! ## The cursor -/

def position (chain : Chain V) : Nat :=
  chain.passed.length

def isTerminal (chain : Chain V) : Bool :=
  chain.ahead.isEmpty

/-- Whether the cursor is at a stage whose sources come from a fork. -/
def isForked (chain : Chain V) : Bool :=
  match chain.ahead with
  | [] => false
  | stage :: _ => stage.forked

/-- The cursor one stage further, unless it is at the terminal. -/
def next? (chain : Chain V) : Option (Chain V) :=
  match chain.ahead with
  | [] => none
  | stage :: rest => some { chain with passed := stage :: chain.passed, ahead := rest }

/-- The cursor `n` stages further, or at the terminal if there are fewer. -/
def skip : Nat → Chain V → Chain V
  | 0, chain => chain
  | n + 1, chain =>
    match chain.next? with
    | some next => skip n next
    | none => chain

def atTerminal (chain : Chain V) : Chain V :=
  { chain with passed := chain.ahead.reverse ++ chain.passed, ahead := [] }

/-- The cursor at each stage from here on, the terminal last. -/
def cursors (chain : Chain V) : List (Chain V) :=
  (List.range (chain.ahead.length + 1)).map (skip · chain)

/-! ## Running the stage at the cursor -/

/-- Runs the redirect at the cursor for one source, if it is one that needs nothing else. -/
def runModifier {Mark : Type} (chain : Chain V) (source : Source) :
    Except CommandError (List Source) × List (Event Mark) :=
  match chain.ahead with
  | { redirect := .passthrough, .. } :: _ => (.ok [source], [])
  | { redirect := .modifier apply, .. } :: _ => (apply source, [.applied source.name])
  | _ => (.error .unsupported, [])

/-- Runs the terminal command for one source, if the cursor is at one. -/
def runExecutable {Mark : Type} (chain : Chain V) (source : Source) :
    Except CommandError Int32 × List (Event Mark) :=
  match chain.ahead, chain.terminal with
  | [], .command command => command.execute source
  | _, _ => (.error .unsupported, [])

/-! ## Text -/

def inspectStage (chain : Chain V) : String :=
  match chain.ahead with
  | [] => chain.terminal.inspect
  | stage :: _ => stage.inspect

def inspect (chain : Chain V) : String :=
  let stages := (chain.passed.reverse ++ chain.ahead).map Stage.inspect
  Inspect.record "ContextChain" [
    Inspect.field "input" (Inspect.quoted chain.input),
    Inspect.field "stages" (Inspect.list (stages ++ [chain.terminal.inspect])),
    Inspect.field "position" (Inspect.nat chain.position)]

/-! ## Laws of the cursor -/

theorem next?_eq_none_iff (chain : Chain V) : chain.next? = none ↔ chain.isTerminal = true := by
  unfold next? isTerminal
  cases chain.ahead <;> simp

@[simp]
theorem isTerminal_atTerminal (chain : Chain V) : chain.atTerminal.isTerminal = true := rfl

end Chain

namespace Function

def ofChains (id : String) (chains : List (Chain V)) : Function V :=
  { id, lines := chains.map .chain }

def inspect (function : Function V) : String :=
  Inspect.record "InstantiatedFunction" [
    Inspect.field "id" (Inspect.tuple "FunctionId" [Inspect.quoted function.id]),
    Inspect.field "entries" (Inspect.nat function.lines.length)]

end Function
end CommandScheduler
