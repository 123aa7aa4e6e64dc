import CommandScheduler.Effect

/-!
# Host — what the codes of a vocabulary mean

A host gives each code its work.  Executors and redirectors are routines; tasks and lines are
programs, which may also perform an action on the spot and enter the run loop again.
-/

namespace CommandScheduler

/-- Why a run of the queue ended. -/
inductive Outcome where
  | completed
  /-- The quota ran out; what was pending is still queued. -/
  | quotaExhausted
  /-- The queue grew beyond its bound and was cleared. -/
  | overflowed
  deriving DecidableEq

def Outcome.name : Outcome → String
  | completed => "Completed"
  | quotaExhausted => "QuotaExhausted"
  | overflowed => "Overflowed"

/-! ## Programs -/

/-- One operation of a program. -/
inductive Instruction (E : Embedding) where
  | effect (effect : Effect E)
  /-- Performs an action at once, as part of a frame. -/
  | perform (action : Action E) (frame : FrameId)
  | run

variable {E : Embedding}

@[reducible]
def Instruction.Reply : Instruction E → Type
  | effect e => e.Reply
  | perform .. => Unit
  | run => Outcome

/-- A script of instructions. -/
abbrev Program (E : Embedding) := Script (Instruction E) Instruction.Reply

namespace Program

/-- A routine is a program that does not enter the run loop. -/
def ofRoutine {α : Type} : Routine E α → Program E α
  | .done value => .done value
  | .call op next => .call (.effect op) fun reply => ofRoutine (next reply)

instance : MonadLift (Routine E) (Program E) := ⟨ofRoutine⟩

def perform (action : Action E) (frame : FrameId) : Program E Unit :=
  .call (.perform action frame) .done

def run : Program E Outcome :=
  .call .run .done

end Program

/-! ## Hosts -/

/-- The meaning of the codes of a vocabulary. -/
structure Host (E : Embedding) where
  /-- Takes over the resolution of a chain whose cursor is at the stage of the code. -/
  redirect : E.Redirector → (origin : Source) → (sources : List Source) → Chain E → Flags →
    FrameId → Routine E Unit
  /-- Takes over scheduling for one source at the terminal of a chain. -/
  execute : E.Executor → Source → Chain E → Flags → FrameId → Routine E Unit
  /-- Work that needs no source. -/
  task : E.Task → FrameId → Program E Unit
  /-- Work for a source. -/
  line : E.Line → Source → FrameId → Program E Unit

end CommandScheduler
