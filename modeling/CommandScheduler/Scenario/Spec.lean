import CommandScheduler.CommandError
import CommandScheduler.Flags
import CommandScheduler.Frame.Basic
import CommandScheduler.Trace

/-!
# Scenario — work described as data

A scenario drives a context from outside by operations that are plain data: which chains to queue
and for whom, which frames to push, when to run.  The operations of an action, of a function's
line and of an executor are lists of the same kind, so a whole embedding program can be written
down.

This module holds the descriptions.  They name functions and frames by text; the names are looked
up when the operation that contains them is carried out.
-/

namespace CommandScheduler
namespace Scenario

/-! ## Sources and their work -/

/-- A source, described relative to a parent. -/
structure SourceSpec where
  /-- A new source of this name, in which the parent's name replaces each `$`; without a name, the
  parent itself. -/
  name? : Option String := none
  /-- Whether nobody hears its results. -/
  silent : Bool := false

/-- What a modifier does with a source. -/
inductive ModifierSpec where
  | same
  /-- Yields sources that are described relative to the given one. -/
  | yields (sources : List SourceSpec)
  /-- Yields one such source several times. -/
  | copies (count : Nat) (source : SourceSpec)
  | fails (error : CommandError)
  /-- Chooses by the name of the source. -/
  | cases (choices : List (String × ModifierSpec)) (otherwise : ModifierSpec)

/-- What a command gives for a source. -/
inductive CommandSpec where
  /-- The length of the source's name in UTF-8 bytes. -/
  | nameLength
  | value (value : Int32)
  | fails (error : CommandError)
  /-- Chooses by the name of the source. -/
  | cases (choices : List (String × CommandSpec)) (otherwise : CommandSpec)

/-- A trace sink to install. -/
structure SinkSpec where
  kind : SinkKind
  label : String

/-! ## Chains, actions and operations -/

mutual

structure FunctionSpec where
  id : String
  lines : List LineSpec

inductive LineSpec where
  | chain (chain : ChainSpec)
  | ops (ops : List Op)

/-- A chain, with its cursor at the first stage. -/
structure ChainSpec where
  input : String
  stages : List StageSpec
  terminal : TerminalSpec

structure StageSpec where
  forked : Bool
  redirect : RedirectSpec

/-- How a redirect stage transforms its sources. -/
inductive RedirectSpec where
  | passthrough
  | modify (modifier : ModifierSpec)
  | returnRun
  | custom (ops : List ControlOp)

/-- The terminal of a chain. -/
inductive TerminalSpec where
  | command (command : CommandSpec) (quiet : Bool)
  | returnValue (value : Int32)
  | returnFailure
  /-- Calls the function registered under this name when the chain is built. -/
  | function (id : String)
  /-- Calls a function that is written out. -/
  | inline (function : FunctionSpec)
  /-- Carries out operations on the control, and may then fail. -/
  | custom (ops : List ControlOp) (error? : Option CommandError)

inductive ActionSpec where
  | ops (ops : List Op)
  | unboundOps (ops : List Op) (source : SourceSpec)
  | topLevel (chain : ChainSpec) (source : SourceSpec)
  | unbound (chain : ChainSpec) (source : SourceSpec)
  | continuation (chain : ChainSpec) (skip : Nat) (origin : SourceSpec) (sources : List SourceSpec)
      (flags : Flags)
  | execute (chain : ChainSpec) (skip : Nat) (flags : Flags) (source : SourceSpec)
  | fallthrough
  | call (id : String) (source : SourceSpec) (callback? : Option String) (returnParent : Bool)

/-- An operation on a context. -/
inductive Op where
  /-- Queues a root command. -/
  | command (chain : ChainSpec) (source : SourceSpec) (callback? : Option String)
  /-- Queues a root call of a registered function. -/
  | function (id : String) (source : SourceSpec) (callback? : Option String)
  | run
  /-- Pushes a frame and binds a name to it. -/
  | pushFrame (name : String) (depth : Nat) (scope : Scope) (callback? : Option String)
  | queue (frame : String) (action : ActionSpec)
  /-- Performs an action at once. -/
  | perform (frame : String) (action : ActionSpec)
  /-- Tells what kind of entry an action makes. -/
  | describe (frame : String) (action : ActionSpec)
  /-- Schedules the same operations once for each argument. -/
  | fanOut (frame : String) (arguments : List String) (ops : List Op)
  /-- Resolves a chain at once. -/
  | build (frame : String) (chain : ChainSpec) (skip : Nat) (origin : SourceSpec)
      (sources : List SourceSpec) (flags : Flags)
  | discard (frame : String)
  | discardFrom (depth : Nat)
  | charge (times : Nat)
  | install (sink? : Option SinkSpec)
  | trace (event : TraceEvent)
  | frame (frame : String)
  /-- Returns from a frame, if it is live. -/
  | frameReturn (frame : String) (value? : Option Int32)
  /-- Reports to the callback of a frame. -/
  | callbackReturn (frame : String) (value? : Option Int32)
  | name (name : String)
  | state
  | config
  | debug
  | note (text : String)
  | register (function : FunctionSpec)
  /-- Carries out operations on the control of a frame. -/
  | control (frame : String) (ops : List ControlOp)

/-- An operation on the control that an executor or a redirector is given. -/
inductive ControlOp where
  | queue (action : ActionSpec)
  /-- Queues the rest of the chain. -/
  | proceed (setReturn setForked : Bool) (origin? : Option SourceSpec)
      (sources? : Option (List SourceSpec))
  /-- Returns the result of the rest of the chain. -/
  | returnRun (sources? : Option (List SourceSpec))
  | returns (value? : Option Int32)
  /-- Reports to the callback of the source. -/
  | report (value? : Option Int32)
  | discard
  | charge (times : Nat)
  | trace (event : TraceEvent)
  | note (text : String)
  | name (name : String)
  | info

end

end Scenario
end CommandScheduler
