import CommandScheduler.CommandError
import CommandScheduler.Flags
import CommandScheduler.Host
import CommandScheduler.Limits
import CommandScheduler.Trace
import CommandScheduler.Wire.Document

/-!
# Codec — the library's values as documents

Limits, outcomes, flags, command errors and trace events can be written as documents and read back.
Records are written as objects; variants by their name, with what they carry.
-/

namespace CommandScheduler

open Wire (Document)

/-- The document of a natural number. -/
def Wire.Document.ofNat (n : Nat) : Document :=
  .integer n

/-! ## Limits -/

namespace Limits

def fieldNames : List String :=
  ["command_limit", "fork_limit", "max_queue_depth"]

def toDocument (limits : Limits) : Document :=
  .ofFields [
    ("command_limit", .ofNat limits.commandLimit),
    ("fork_limit", .ofNat limits.forkLimit),
    ("max_queue_depth", .ofNat limits.maxQueueDepth)]

/-- A size that may be missing. -/
def sizeOr? (default : Nat) : Option Document → Option Nat
  | some document => document.size?
  | none => some default

/-- Limits that are not given have their usual value. -/
def ofDocument? (document : Document) : Option Limits := do
  match ← document.fields? fieldNames with
  | [commandLimit, forkLimit, maxQueueDepth] =>
    let usual : Limits := {}
    return {
      commandLimit := ← sizeOr? usual.commandLimit commandLimit
      forkLimit := ← sizeOr? usual.forkLimit forkLimit
      maxQueueDepth := ← sizeOr? usual.maxQueueDepth maxQueueDepth }
  | _ => none

end Limits

/-! ## Outcomes -/

namespace Outcome

def toDocument (outcome : Outcome) : Document :=
  .ofString outcome.name

/-- The outcome of a name. -/
def ofName? : String → Option Outcome
  | "Completed" => some completed
  | "QuotaExhausted" => some quotaExhausted
  | "Overflowed" => some overflowed
  | _ => none

/-- A name alone, or one that carries nothing. -/
def ofDocument? (document : Document) : Option Outcome :=
  match document.variant? with
  | some (name, none) | some (name, some .null) => ofName? name
  | _ => none

end Outcome

/-! ## Flags -/

namespace Flags

def toDocument (flags : Flags) : Document :=
  .ofNat flags.byte.toNat

def ofDocument? (document : Document) : Option Flags :=
  document.byte?.map fun byte => { byte }

end Flags

/-! ## Command errors -/

namespace CommandError

def toDocument : CommandError → Document
  | failed message => .ofFields [("Failed", .ofString message)]
  | forkLimitReached limit => .ofFields [("ForkLimitReached", .ofFields [("limit", .ofNat limit)])]
  | unsupported => .ofString "Unsupported"

def ofDocument? (document : Document) : Option CommandError :=
  match document.variant? with
  | some ("Failed", some message) => message.string?.map failed
  | some ("ForkLimitReached", some fields) => do
    match ← fields.allFields? ["limit"] with
    | [limit] => return forkLimitReached (← limit.size?)
    | _ => none
  | some ("Unsupported", none) | some ("Unsupported", some .null) => some unsupported
  | _ => none

end CommandError

/-! ## Trace events -/

namespace TraceEvent

def toDocument : TraceEvent → Document
  | command depth text =>
    .ofFields [("Command", .ofFields [("depth", .ofNat depth), ("command", .ofString text)])]
  | returned depth text result =>
    .ofFields [("Return", .ofFields [
      ("depth", .ofNat depth), ("command", .ofString text), ("result", .integer result.toInt)])]
  | called depth function size =>
    .ofFields [("Call", .ofFields [
      ("depth", .ofNat depth), ("function", .ofString function), ("size", .ofNat size)])]
  | error message => .ofFields [("Error", .ofString message)]

def ofDocument? (document : Document) : Option TraceEvent :=
  match document.variant? with
  | some ("Command", some fields) => do
    match ← fields.allFields? ["depth", "command"] with
    | [depth, text] => return command (← depth.size?) (← text.string?)
    | _ => none
  | some ("Return", some fields) => do
    match ← fields.allFields? ["depth", "command", "result"] with
    | [depth, text, result] => return returned (← depth.size?) (← text.string?) (← result.int32?)
    | _ => none
  | some ("Call", some fields) => do
    match ← fields.allFields? ["depth", "function", "size"] with
    | [depth, function, size] => return called (← depth.size?) (← function.string?) (← size.size?)
    | _ => none
  | some ("Error", some message) => message.string?.map error
  | _ => none

end TraceEvent
end CommandScheduler
