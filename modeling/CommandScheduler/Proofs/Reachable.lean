import CommandScheduler.Proofs.Course
import CommandScheduler.Proofs.Queueing

/-!
# Reachable — the contexts of a root invocation

One context leads to another by deeds and by the moves of the run loop.  The frames of the entries
that are being executed are kept beside the context, innermost first: taking an entry from the queue
puts its frame on that list, and settling the entry takes it off again.

What leads from a new context to some moment is everything that has happened until then.  Moments
inside of a step, inside of nested runs and between runs are all reachable, and so is whatever a
program of the embedding program leaves behind.
-/

namespace CommandScheduler

variable {E : Embedding}

/-! ## Relations that runs carry along -/

/-- A preorder on contexts that holds across each effect, each action of the scheduler and each move
of the run loop; an entry is taken and settled in one move. -/
structure Carries (host : Host E) (R : Context E → Context E → Prop) : Prop where
  refl : ∀ ctx, R ctx ctx
  trans : ∀ {ctx mid ctx'}, R ctx mid → R mid ctx' → R ctx ctx'
  effect : ∀ (effect : Effect E) ctx, R ctx (effect.apply ctx).2
  own : ∀ {action : Action E} {frame : FrameId} {procedure : Procedure E Unit},
    action.work host frame = .own procedure → ∀ ctx, R ctx (procedure.apply ctx)
  step : ∀ {ctx started after entry}, ctx.pop? = some (entry, started) → R started after →
    R ctx (after.settle entry.frame)
  promote : ∀ ctx, R ctx ctx.promote
  limitReached : ∀ ctx limit, R ctx (ctx.notify (.limitReached limit))
  queueOverflowed : ∀ ctx bound, R ctx (ctx.notify (.queueOverflowed bound))
  finish : ∀ ctx outcome, R ctx (ctx.finish outcome).2

namespace Carries

variable {host : Host E} {R : Context E → Context E → Prop} {ctx ctx' : Context E}

theorem instruct (carries : Carries host R)
    {perform : Action E → FrameId → Context E → Option (Context E)}
    {drain : Context E → Option (Outcome × Context E)}
    (hperform : ∀ action frame ctx after, perform action frame ctx = some after → R ctx after)
    (hdrain : ∀ ctx result, drain ctx = some result → R ctx result.2)
    (op : Instruction E) (ctx : Context E) (result : op.Reply × Context E)
    (handled : Context.instruct perform drain op ctx = some result) : R ctx result.2 := by
  cases op with
  | effect effect =>
    cases handled
    exact carries.effect effect ctx
  | perform action frame =>
    rcases Option.map_eq_some_iff.mp handled with ⟨after, performed, rfl⟩
    exact hperform action frame ctx after performed
  | run => exact carries.trans (carries.promote ctx) (hdrain ctx.promote result handled)

/-- It holds across performing an action and across draining the queue. -/
theorem perform_drain (carries : Carries host R) (fuel : Nat) :
    (∀ action frame ctx after, Context.perform host fuel action frame ctx = some after →
      R ctx after) ∧
    (∀ ctx result, Context.drain host fuel ctx = some result → R ctx result.2) := by
  induction fuel with
  | zero =>
    refine ⟨?_, ?_⟩
    · intro action frame ctx after h
      simp [Context.perform] at h
    · intro ctx result h
      simp [Context.drain] at h
  | succ fuel ih =>
    rcases ih with ⟨hperform, hdrain⟩
    refine ⟨?_, ?_⟩
    · intro action frame ctx after h
      rw [Context.perform_succ] at h
      cases work : action.work host frame with
      | own procedure =>
        have eq : procedure.apply ctx = after := by simpa [work] using h
        exact eq ▸ carries.own work ctx
      | embedded program =>
        -- It holds across every instruction, be it an effect, an action or a nested run.
        rw [work] at h
        rcases Option.map_eq_some_iff.mp h with ⟨result, run, rfl⟩
        exact Script.run?_preserves
          (fun op mid result before handled =>
            carries.trans before (carries.instruct hperform hdrain op mid result handled))
          program ctx result (carries.refl ctx) run
    · intro ctx result h
      rw [Context.drain] at h
      split at h
      · cases h
        exact carries.trans (carries.limitReached ctx _) (carries.finish _ _)
      · cases popped : ctx.pop? with
        | none =>
          simp only [popped, Option.some.injEq] at h
          cases h
          exact carries.finish ctx _
        | some head =>
          rcases head with ⟨entry, started⟩
          simp only [popped] at h
          cases performed : Context.perform host fuel entry.action entry.frame started with
          | none => simp [performed] at h
          | some after =>
            simp only [performed] at h
            have settled := carries.step popped (hperform _ _ _ _ performed)
            split at h
            · cases h
              exact carries.trans settled
                (carries.trans (carries.queueOverflowed _ _) (carries.finish _ _))
            · exact carries.trans settled
                (carries.trans (carries.promote _) (hdrain _ _ h))

theorem perform (carries : Carries host R) {fuel : Nat} {action : Action E} {frame : FrameId}
    (performed : Context.perform host fuel action frame ctx = some ctx') : R ctx ctx' :=
  (carries.perform_drain fuel).1 action frame ctx ctx' performed

theorem drain (carries : Carries host R) {fuel : Nat} {result : Outcome × Context E}
    (drained : Context.drain host fuel ctx = some result) : R ctx result.2 :=
  (carries.perform_drain fuel).2 ctx result drained

theorem run (carries : Carries host R) {fuel : Nat} {outcome : Outcome}
    (ran : ctx.run host fuel = some (outcome, ctx')) : R ctx ctx' :=
  carries.trans (carries.promote ctx) (carries.drain ran)

theorem runProgram (carries : Carries host R) {fuel : Nat} {α : Type} {program : Program E α}
    {value : α} (ran : ctx.runProgram host fuel program = some (value, ctx')) : R ctx ctx' := by
  rcases carries.perform_drain fuel with ⟨hperform, hdrain⟩
  exact Script.run?_preserves
    (fun op mid result before handled =>
      carries.trans before (carries.instruct hperform hdrain op mid result handled))
    program ctx (value, ctx') (carries.refl ctx) ran

theorem turn (carries : Carries host R) {start : Start E} (turn : Turn host ctx start ctx') :
    R ctx ctx' := by
  rcases turn with ⟨-, popped, fuel, after, performed, -, rfl⟩
  exact carries.trans (carries.step popped (carries.perform performed)) (carries.promote _)

theorem turns (carries : Carries host R) {starts : List (Start E)}
    (turns : Turns host ctx starts ctx') : R ctx ctx' := by
  induction turns with
  | refl ctx => exact carries.refl ctx
  | head first _ ih => exact carries.trans (carries.turn first) ih

end Carries

/-! ## Contexts that lead to others -/

/-- The contexts that a context can turn into, with the frames of the entries being executed. -/
inductive Leads (running : List FrameId) (ctx : Context E) : List FrameId → Context E → Prop where
  | refl : Leads running ctx running ctx
  | deed {running' : List FrameId} {ctx' : Context E} (deed : Deed E) :
      Leads running ctx running' ctx' → Leads running ctx running' (deed.apply ctx').2
  | promote {running' : List FrameId} {ctx' : Context E} :
      Leads running ctx running' ctx' → Leads running ctx running' ctx'.promote
  | pop {running' : List FrameId} {ctx' started : Context E} {entry : Entry E} :
      Leads running ctx running' ctx' → ctx'.pop? = some (entry, started) →
        Leads running ctx (entry.frame :: running') started
  | settle {running' : List FrameId} {ctx' : Context E} {frame : FrameId} :
      Leads running ctx (frame :: running') ctx' → Leads running ctx running' (ctx'.settle frame)
  | finish {running' : List FrameId} {ctx' : Context E} (outcome : Outcome) :
      Leads running ctx running' ctx' → Leads running ctx running' (ctx'.finish outcome).2

namespace Leads

variable {running running' running'' : List FrameId} {ctx ctx' ctx'' : Context E}

theorem trans (first : Leads running ctx running' ctx')
    (second : Leads running' ctx' running'' ctx'') : Leads running ctx running'' ctx'' := by
  induction second with
  | refl => exact first
  | deed deed _ ih => exact ih.deed deed
  | promote _ ih => exact ih.promote
  | pop _ popped ih => exact ih.pop popped
  | settle _ ih => exact ih.settle
  | finish outcome _ ih => exact ih.finish outcome

theorem procedure {α : Type} (h : Leads running ctx running' ctx') (procedure : Procedure E α) :
    Leads running ctx running' (procedure.apply ctx') :=
  Script.run_preserves (fun op _ leads => .deed op leads) procedure ctx' h

theorem notify (h : Leads running ctx running' ctx') (notice : Notice) :
    Leads running ctx running' (ctx'.notify notice) :=
  .deed (.record [.notice notice]) h

/-- What runs do leads on.  While an entry is executed, its frame is on the list of running ones. -/
theorem carries (host : Host E) :
    Carries host fun ctx ctx' => ∀ running, Leads running ctx running ctx' where
  refl := fun _ _ => refl
  trans := fun first second running => (first running).trans (second running)
  effect := fun effect _ _ => refl.deed (.effect effect)
  own := fun _ _ _ => refl.procedure _
  step := fun popped executed _ => ((refl.pop popped).trans (executed _)).settle
  promote := fun _ _ => refl.promote
  limitReached := fun _ _ _ => refl.notify _
  queueOverflowed := fun _ _ _ => refl.notify _
  finish := fun _ outcome _ => refl.finish outcome

theorem instruct {host : Host E} {fuel : Nat} {op : Instruction E} {result : op.Reply × Context E}
    (handled : Context.instruct (Context.perform host fuel) (Context.drain host fuel) op ctx =
      some result) : Leads running ctx running result.2 := by
  rcases (carries host).perform_drain fuel with ⟨hperform, hdrain⟩
  exact (carries host).instruct hperform hdrain op ctx result handled running

theorem perform {host : Host E} {fuel : Nat} {action : Action E} {frame : FrameId}
    (performed : Context.perform host fuel action frame ctx = some ctx') :
    Leads running ctx running ctx' :=
  (carries host).perform performed running

theorem drain {host : Host E} {fuel : Nat} {result : Outcome × Context E}
    (drained : Context.drain host fuel ctx = some result) :
    Leads running ctx running result.2 :=
  (carries host).drain drained running

theorem run {host : Host E} {fuel : Nat} {outcome : Outcome}
    (ran : ctx.run host fuel = some (outcome, ctx')) : Leads running ctx running ctx' :=
  (carries host).run ran running

/-- A context leads to whatever a program makes of it. -/
theorem runProgram {host : Host E} {fuel : Nat} {α : Type} {program : Program E α} {value : α}
    (ran : ctx.runProgram host fuel program = some (value, ctx')) :
    Leads running ctx running ctx' :=
  (carries host).runProgram ran running

/-- A turn of the run loop leads through the start of its entry to the next turn. -/
theorem turn {host : Host E} {start : Start E} (turn : Turn host ctx start ctx') :
    Leads running ctx running ctx' :=
  (carries host).turn turn running

theorem turns {host : Host E} {starts : List (Start E)} (turns : Turns host ctx starts ctx') :
    Leads running ctx running ctx' :=
  (carries host).turns turns running

/-- The moves of the run loop touch neither the limits nor the quota nor the overflow mark, so what is
said of these has to be kept by deeds only. -/
theorem preserves {P : Limits → Quota → Bool → Prop}
    (kept : ∀ (deed : Deed E) (ctx : Context E), P ctx.limits ctx.quota ctx.overflowed →
      P (deed.apply ctx).2.limits (deed.apply ctx).2.quota (deed.apply ctx).2.overflowed)
    (leads : Leads running ctx running' ctx') (h : P ctx.limits ctx.quota ctx.overflowed) :
    P ctx'.limits ctx'.quota ctx'.overflowed := by
  induction leads with
  | refl => exact h
  | deed deed _ ih => exact kept deed _ ih
  | promote _ ih => exact ih
  | pop _ popped ih =>
    obtain ⟨pending, -, rfl⟩ := Context.pop?_eq_some popped
    exact ih
  | settle _ ih => exact ih
  | finish _ _ ih => exact ih

theorem limits (leads : Leads running ctx running' ctx') : ctx'.limits = ctx.limits :=
  leads.preserves (P := fun limits _ _ => limits = ctx.limits)
    (fun deed mid same => (Context.limits_deed deed mid).trans same) rfl

theorem overflowed (leads : Leads running ctx running' ctx') (h : ctx.overflowed = true) :
    ctx'.overflowed = true :=
  leads.preserves (P := fun _ _ overflowed => overflowed = true) Context.overflowed_deed h

/-- A context that has not overflowed had not done so before. -/
theorem intact (leads : Leads running ctx running' ctx') (h : ctx'.overflowed = false) :
    ctx.overflowed = false := by
  cases before : ctx.overflowed with
  | false => rfl
  | true => simp [leads.overflowed before] at h

end Leads

theorem Work.leads {host : Host E} {fuel : Nat} {work : Work E} {running : List FrameId}
    {ctx after : Context E} (performed : work.perform host fuel ctx = some after) :
    Leads running ctx running after := by
  cases work with
  | own procedure =>
    cases performed
    exact Leads.refl.procedure procedure
  | embedded program =>
    rcases Option.map_eq_some_iff.mp performed with ⟨result, ran, rfl⟩
    exact Leads.runProgram ran

/-- The contexts that a root invocation can be in, with the frames of the entries being executed. -/
def Reachable (running : List FrameId) (ctx : Context E) : Prop :=
  ∃ limits memory profiler, Leads [] (.create limits memory profiler) running ctx

theorem Reachable.then {running running' : List FrameId} {ctx ctx' : Context E}
    (h : Reachable running ctx) (leads : Leads running ctx running' ctx') :
    Reachable running' ctx' := by
  rcases h with ⟨limits, memory, profiler, start⟩
  exact ⟨limits, memory, profiler, start.trans leads⟩

/-! ## The scheduler on its own -/

/-- An embedding program that contributes no work. -/
@[reducible]
def Embedding.bare : Embedding :=
  { Task := Empty, Line := Empty, Executor := Empty, Redirector := Empty, Memory := Unit
    Mark := Empty }

/-- The only host of the bare embedding. -/
def Host.bare : Host .bare where
  redirect := fun code => code.elim
  execute := fun code => code.elim
  task := fun code => code.elim
  line := fun code => code.elim

end CommandScheduler
