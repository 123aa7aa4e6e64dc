import CommandScheduler.Action
import CommandScheduler.Library
import CommandScheduler.Scenario.Spec

/-!
# Building — from descriptions to chains, functions and actions

Building needs a library for the functions that are called by name, and a parent for the sources
that are described relative to one.  It gives nothing if a function or a parent is missing.
-/

namespace CommandScheduler
namespace Scenario

/-! ## Codes -/

/-- The work of a scenario that needs no source. -/
inductive Task where
  /-- Carries out operations on behalf of a parent. -/
  | ops (ops : List Op) (parent? : Option Source)
  /-- Carries out operations for one argument of a fan-out. -/
  | argument (text : String) (ops : List Op)

/-- Work is referred to by its description. -/
abbrev vocabulary : Vocabulary where
  Task := Task
  Line := List Op
  Executor := List ControlOp × Option CommandError
  Redirector := List ControlOp

/-! ## Sources -/

/-- The name with the parent's name in the place of each `$`. -/
def expandName (name parent : String) : String :=
  String.ofList (name.toList.flatMap fun c => if c = '$' then parent.toList else [c])

/-- The described source, if it is not the parent of nobody. -/
def SourceSpec.build (parent? : Option Source) (spec : SourceSpec) : Option Source :=
  let source? :=
    match spec.name?, parent? with
    | some name, some parent => some (Source.named (expandName name parent.name))
    | some name, none => some (Source.named name)
    | none, parent? => parent?
  if spec.silent then source?.map Source.silenced else source?

def buildSources (parent? : Option Source) (specs : List SourceSpec) : Option (List Source) :=
  specs.mapM (SourceSpec.build parent?)

/-- A callback is described by the label of its listener. -/
def buildCallback : Option String → Callback
  | some label => .single (.label label)
  | none => .empty

/-! ## Modifiers and commands -/

/-- The described source relative to another one. -/
def SourceSpec.relativeTo (parent : Source) (spec : SourceSpec) : Source :=
  (spec.build (some parent)).getD parent

mutual

/-- What the described modifier does with a source. -/
def ModifierSpec.apply : ModifierSpec → Modifier
  | .same, source => .ok [source]
  | .yields specs, source => .ok (specs.map (SourceSpec.relativeTo source))
  | .copies count spec, source => .ok (List.replicate count (spec.relativeTo source))
  | .fails error, _ => .error error
  | .cases choices otherwise, source =>
    match applyChoice source choices with
    | some result => result
    | none => otherwise.apply source

/-- What the choice of the source's name does with it. -/
def applyChoice (source : Source) :
    List (String × ModifierSpec) → Option (Except CommandError (List Source))
  | [] => none
  | (name, spec) :: rest =>
    if name = source.name then some (spec.apply source) else applyChoice source rest

end

mutual

def CommandSpec.run : CommandSpec → Source → Except CommandError Int32
  | .nameLength, source => .ok (Int32.ofNat source.name.utf8ByteSize)
  | .value value, _ => .ok value
  | .fails error, _ => .error error
  | .cases choices otherwise, source =>
    match runChoice source choices with
    | some result => result
    | none => otherwise.run source

/-- What the choice of the source's name gives. -/
def runChoice (source : Source) :
    List (String × CommandSpec) → Option (Except CommandError Int32)
  | [] => none
  | (name, spec) :: rest =>
    if name = source.name then some (spec.run source) else runChoice source rest

end

/-! ## Chains and functions -/

def RedirectSpec.build : RedirectSpec → Redirect vocabulary
  | .passthrough => .passthrough
  | .modify spec => .modifier spec.apply
  | .returnRun => .returnRun
  | .custom ops => .custom ops

def StageSpec.build (spec : StageSpec) : Stage vocabulary :=
  { forked := spec.forked, redirect := spec.redirect.build }

mutual

def FunctionSpec.build (library : Library vocabulary) :
    FunctionSpec → Option (Function vocabulary)
  | { id, lines } => (buildLines library lines).map fun lines => { id, lines }

def buildLines (library : Library vocabulary) : List LineSpec → Option (List (Line vocabulary))
  | [] => some []
  | line :: rest => do
    let line ← line.build library
    let rest ← buildLines library rest
    return line :: rest

def LineSpec.build (library : Library vocabulary) : LineSpec → Option (Line vocabulary)
  | .chain chain => (chain.build library).map .chain
  | .ops work => some (.custom work)

def ChainSpec.build (library : Library vocabulary) : ChainSpec → Option (Chain vocabulary)
  | { input, stages, terminal } =>
    (terminal.build library).map (Chain.ofStages input (stages.map StageSpec.build) ·)

def TerminalSpec.build (library : Library vocabulary) : TerminalSpec → Option (Terminal vocabulary)
  | .command spec quiet => some (.command { run := spec.run, quiet })
  | .returnValue value => some (.returnValue value)
  | .returnFailure => some .returnFailure
  | .function id => (library.get? id).map .call
  | .inline function => (function.build library).map .call
  | .custom ops error? => some (.custom (ops, error?))

end

/-! ## Actions -/

/-- The described action, on behalf of a parent. -/
def ActionSpec.build (library : Library vocabulary) (parent? : Option Source) :
    ActionSpec → Option (Action vocabulary)
  | .ops work => some (.task (.ops work parent?))
  | .unboundOps work source => do
    return .line (.custom work) (← source.build parent?)
  | .topLevel chain source => do
    return .topLevel (← chain.build library) (← source.build parent?)
  | .unbound chain source => do
    return .line (.chain (← chain.build library)) (← source.build parent?)
  | .continuation chain skip origin sources flags => do
    let chain ← chain.build library
    return .continuation (chain.skip skip) (← origin.build parent?) (← buildSources parent? sources)
      flags
  | .execute chain skip flags source => do
    let chain ← chain.build library
    return .execute (chain.skip skip) flags (← source.build parent?)
  | .fallthrough => some .fallthrough
  | .call id source callback? returnParent => do
    return .call (← library.get? id) (buildCallback callback?) returnParent
      (← source.build parent?)

end Scenario
end CommandScheduler
