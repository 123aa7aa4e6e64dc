import CommandScheduler.Proofs.Enclosed

/-!
# Blind — work that does not look at the queue

Blind work neither asks how many entries are queued nor runs the queue itself.  Everything else is
open to it: queueing, rolling back, charging, adding frames, and performing actions on the spot.

The scheduler's own actions are blind if the host is.
-/

namespace CommandScheduler

variable {E : Embedding}

/-! ## Blind operations -/

/-- The text of a context shows the numbers of entries, too. -/
def Query.IsBlind : Query → Prop
  | .backlog | .inspection => False
  | .limits | .quota | .overflowed | .depth | .frameCount | .frame _ | .sink => True

def Effect.IsBlind : Effect E → Prop
  | .ask query => query.IsBlind
  | _ => True

def Deed.IsBlind : Deed E → Prop
  | .effect e => e.IsBlind
  | .record _ | .openScope _ | .closeScope => True

def Instruction.IsBlind : Instruction E → Prop
  | .effect e => e.IsBlind
  | .perform .. => True
  | .run => False

/-- All work of the host is blind. -/
structure Host.Blind (host : Host E) : Prop where
  redirect : ∀ code origin sources chain flags frame,
    Script.Only Effect.IsBlind (host.redirect code origin sources chain flags frame)
  execute : ∀ code source chain flags frame,
    Script.Only Effect.IsBlind (host.execute code source chain flags frame)
  task : ∀ code frame, Script.Only Instruction.IsBlind (host.task code frame)
  line : ∀ code source frame, Script.Only Instruction.IsBlind (host.line code source frame)

def Work.Blind : Work E → Prop
  | .own procedure => Script.Only Deed.IsBlind procedure
  | .embedded program => Script.Only Instruction.IsBlind program

/-- A procedure of blind deeds. -/
abbrev Procedure.Blind {α : Type} (procedure : Procedure E α) : Prop :=
  Script.Only Deed.IsBlind procedure

/-! ## The scheduler's own actions -/

/-- What the scheduler does itself is blind; the fork limit, depths and frames are all that it asks
for. -/
theorem Host.Blind.within {host : Host E} (h : host.Blind) : host.Within Deed.IsBlind where
  effect := by
    intro effect own
    cases effect with
    | ask query =>
      cases query with
      | limits | depth | frame id => trivial
      | quota | overflowed | backlog | frameCount | sink | inspection => cases own
    | _ => trivial
  record := fun _ _ => trivial
  redirect := h.redirect
  execute := h.execute

/-- All actions are blind if the host is. -/
theorem Host.Blind.work {host : Host E} (h : host.Blind) (action : Action E) (frame : FrameId) :
    (action.work host frame).Blind := by
  have own {procedure : Procedure E Unit} (own : action.work host frame = .own procedure) :
      procedure.Blind :=
    (h.within.enclosed own).all (fun _ => trivial) trivial
  cases action with
  | task code => exact h.task code frame
  | line line source =>
    cases line with
    | chain chain => exact own rfl
    | custom code => exact h.line code source frame
  | topLevel | continuation | fallthrough | fanOut | execute | call => exact own rfl

end CommandScheduler
