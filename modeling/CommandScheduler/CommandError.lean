import CommandScheduler.Inspect

/-!
# CommandError — why a command failed for a source

Command errors never end a run: they are presented to the source they concern.
-/

namespace CommandScheduler

/-- A recoverable failure of one source. -/
inductive CommandError where
  | failed (message : String)
  /-- One fork step produced at least `limit` sources. -/
  | forkLimitReached (limit : Nat)
  /-- The stage at hand cannot be run in this way. -/
  | unsupported
  deriving DecidableEq

namespace CommandError

def kind : CommandError → String
  | failed _ => "failed"
  | forkLimitReached _ => "fork_limit"
  | unsupported => "unsupported"

def message : CommandError → String
  | failed message => message
  | forkLimitReached limit => "maximum number of contexts (" ++ Inspect.nat limit ++ ") reached"
  | unsupported => "operation is not supported"

def inspect : CommandError → String
  | failed message => Inspect.tuple "Failed" [Inspect.quoted message]
  | forkLimitReached limit =>
    Inspect.record "ForkLimitReached" [Inspect.field "limit" (Inspect.nat limit)]
  | unsupported => "Unsupported"

end CommandError
end CommandScheduler
