import CommandScheduler.Inspect

/-!
# Limits — how much one context may do

A context is given a number of billable units, a bound on how many sources one fork step may yield
and a bound on the number of queued entries.  The units still left are the quota; it is a signed
64-bit quantity, so it may go below zero and stops at the least value of that width.
-/

namespace CommandScheduler

/-! ## Configured limits -/

/-- The limits of one context. -/
structure Limits where
  /-- Billable units before the run loop stops. -/
  commandLimit : Nat := 65536
  /-- A fork step fails once it yields this many sources. -/
  forkLimit : Nat := 65536
  /-- Queued entries beyond which the queue overflows. -/
  maxQueueDepth : Nat := 10000000
  deriving DecidableEq

def Limits.inspect (limits : Limits) : String :=
  Inspect.record "ExecutionConfig" [
    Inspect.field "command_limit" (Inspect.nat limits.commandLimit),
    Inspect.field "fork_limit" (Inspect.nat limits.forkLimit),
    Inspect.field "max_queue_depth" (Inspect.nat limits.maxQueueDepth)]

/-! ## The quota -/

structure Quota where
  remaining : Int
  deriving DecidableEq

namespace Quota

/-- The largest quota. -/
def greatest : Int := 9223372036854775807

/-- The quota at which charging stops to have an effect. -/
def least : Int := -9223372036854775808

/-- A command limit beyond the largest quota counts as that quota. -/
def ofLimit (limit : Nat) : Quota :=
  { remaining := min (limit : Int) greatest }

def charge (quota : Quota) : Quota :=
  { remaining := max (quota.remaining - 1) least }

/-- Whether the run loop has to stop. -/
def isExhausted (quota : Quota) : Bool :=
  quota.remaining ≤ 0

end Quota
end CommandScheduler
