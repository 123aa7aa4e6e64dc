import CommandScheduler.Proofs.Course

/-!
# Enclosed — the deeds of the scheduler's own actions

What an action of the scheduler does is made of deeds of a few kinds: the effects that it needs
itself, those of the host's routines, and records of what modifiers and commands do.  Apart from
these it opens at most one scope of the profiler, which it closes again before it is done, whatever
way it takes.

Here this is shown once for any property that all of these deeds have.
-/

namespace CommandScheduler

/-- Whether the event is written by a profiler. -/
def Event.isProfiled {Mark : Type} : Event Mark → Bool
  | .entered _ | .left | .notice (.profiled ..) => true
  | .applied _ | .executed _ | .fired .. | .presented .. | .traced .. | .closed _ | .mark _
  | .notice (.discarded ..) | .notice (.called ..) | .notice (.forkLimitReached _)
  | .notice .frameReleased | .notice (.limitReached _) | .notice (.queueOverflowed _) => false

theorem Script.Only.of_forall {Op : Type} {Reply : Op → Type} {α : Type} {p : Op → Prop}
    (h : ∀ op, p op) (script : Script Op Reply α) : Only p script := by
  induction script with
  | done value => exact .done value
  | call op next ih => exact .call (h op) ih

variable {E : Embedding}

/-- Whether the actions of the scheduler use the effect themselves. -/
def Effect.isOwn : Effect E → Bool
  | .ask .limits | .ask .depth | .ask (.frame _) => true
  | .enqueue .. | .schedule .. | .pushFrame _ | .discard _ | .charge | .trace _ | .fire ..
  | .present .. => true
  | .ask .quota | .ask .overflowed | .ask .backlog | .ask .frameCount | .ask .sink
  | .ask .inspection => false
  | .queueCommand .. | .queueCall .. | .discardFrom _ | .install _ | .load | .store _
  | .mark _ => false

/-! ## Properties of deeds -/

/-- The property holds for what the scheduler does itself, apart from the scopes of the profiler. -/
structure Deed.Usual (p : Deed E → Prop) : Prop where
  effect : ∀ effect : Effect E, effect.isOwn = true → p (.effect effect)
  record : ∀ events : List (Event E.Mark),
    (∀ event ∈ events, event.isProfiled = false) → p (.record events)

/-- The property holds for what the host's routines do, too. -/
structure Host.Within (host : Host E) (p : Deed E → Prop) : Prop extends Deed.Usual p where
  redirect : ∀ code origin sources chain flags frame,
    Script.Only (fun effect => p (.effect effect))
      (host.redirect code origin sources chain flags frame)
  execute : ∀ code source chain flags frame,
    Script.Only (fun effect => p (.effect effect)) (host.execute code source chain flags frame)

/-- A procedure with at most one scope, which is closed again.  Apart from that, all of its deeds
have the property. -/
inductive Procedure.Enclosed (p : Deed E → Prop) : Procedure E Unit → Prop where
  | only {procedure : Procedure E Unit} : Script.Only p procedure → Enclosed p procedure
  | after {α : Type} {first : Procedure E α} {next : α → Procedure E Unit} :
      Script.Only p first → (∀ value, Enclosed p (next value)) → Enclosed p (first >>= next)
  | scope {α : Type} {body : Procedure E α} {next : α → Procedure E Unit} (scope : String) :
      Script.Only p body → (∀ value, Script.Only p (next value)) →
        Enclosed p (do openScope scope; let value ← body; closeScope; next value)

variable {p : Deed E → Prop} {host : Host E}

/-- A property that the scopes have, too, holds for all deeds. -/
theorem Procedure.Enclosed.all {procedure : Procedure E Unit} (enclosed : procedure.Enclosed p)
    (opens : ∀ scope, p (.openScope scope)) (closes : p .closeScope) :
    Script.Only p procedure := by
  induction enclosed with
  | only only => exact only
  | after first _ ih => exact .bind first ih
  | scope scope body next =>
    refine .bind (.perform (opens scope)) fun _ => ?_
    refine .bind body fun value => ?_
    exact .bind (.perform closes) fun _ => next value

theorem Chain.runExecutable_unprofiled {V : Vocabulary} {Mark : Type} (chain : Chain V)
    (source : Source) :
    ∀ event ∈ (chain.runExecutable source : Except CommandError Int32 × List (Event Mark)).2,
      event.isProfiled = false := by
  have fires (callback : Callback) (result : Result) :
      ∀ event ∈ (callback.fire result : List (Event Mark)), event.isProfiled = false := by
    intro event mem
    rcases List.mem_map.mp mem with ⟨listener, -, rfl⟩
    rfl
  have begins (quiet : Bool) :
      ∀ event ∈ (if quiet then [] else [.executed source.name] : List (Event Mark)),
        event.isProfiled = false := by
    cases quiet <;> simp [Event.isProfiled]
  unfold runExecutable
  split
  · rename_i command _ _
    simp only [Command.execute]
    cases command.run source with
    | ok value => exact List.forall_mem_append.mpr ⟨begins command.quiet, fires _ _⟩
    | error error => exact List.forall_mem_append.mpr ⟨begins command.quiet, fires _ _⟩
  · simp

/-! ## The scheduler's own procedures -/

namespace Deed.Usual

variable (usual : Deed.Usual p)

include usual

theorem performs {effect : Effect E} (own : effect.isOwn = true) :
    Script.Only p (Procedure.effect effect) :=
  .call (usual.effect effect own) fun _ => .done ()

theorem records {events : List (Event E.Mark)}
    (unprofiled : ∀ event ∈ events, event.isProfiled = false) :
    Script.Only p (Procedure.record events) :=
  .perform (usual.record events unprofiled)

theorem frame? (id : FrameId) : Script.Only p (Procedure.frame? id) :=
  .perform (usual.effect _ rfl)

theorem currentDepth : Script.Only p Procedure.currentDepth :=
  .perform (usual.effect _ rfl)

theorem frameDepth (id : FrameId) : Script.Only p (Procedure.frameDepth id) := by
  refine .bind (usual.frame? id) ?_
  intro frame
  cases frame with
  | none => exact usual.currentDepth
  | some frame => exact .done _

theorem frameCallback (id : FrameId) : Script.Only p (Procedure.frameCallback id) := by
  refine .bind (usual.frame? id) ?_
  intro frame
  cases frame with
  | none => exact .done _
  | some frame => exact .done _

theorem scopeOf (id : FrameId) : Script.Only p (Procedure.scopeOf id) := by
  refine .bind (usual.frame? id) ?_
  intro frame
  cases frame with
  | none => exact .bind usual.currentDepth fun _ => .done _
  | some frame => exact .done _

theorem applyModifier (apply : Modifier) (origin : Source) (forked : Bool)
    (yielded : Array Source) (sources : List Source) :
    Script.Only p (Procedure.applyModifier apply origin forked yielded sources) := by
  induction sources generalizing yielded with
  | nil => exact .done _
  | cons source rest ih =>
    refine .bind (usual.records (by simp [Event.isProfiled])) ?_
    intro _
    cases apply source with
    | ok sources =>
      refine .bind (.perform (usual.effect _ rfl)) ?_
      intro limits
      split
      · refine .bind (usual.records (by simp [Event.isProfiled])) ?_
        intro _
        exact .bind (usual.performs rfl) fun _ => .done _
      · exact ih _
    | error error =>
      refine .bind (usual.performs rfl) ?_
      intro _
      split
      · exact ih _
      · exact .done _

theorem executeCommand (chain : Chain E) (flags : Flags) (source : Source) (frame : FrameId) :
    (Procedure.executeCommand chain flags source frame).Enclosed p := by
  let executed : Except CommandError Int32 × List (Event E.Mark) := chain.runExecutable source
  -- Whatever is told of the result stands between the charge and the end of the scope.
  have whole (tell : Procedure E Unit) (only : Script.Only p tell) : Procedure.Enclosed p (do
      Procedure.openScope ("execute " ++ chain.input)
      let value ← (do
        Procedure.effect .charge
        Procedure.record executed.2
        tell : Procedure E Unit)
      Procedure.closeScope
      (pure value : Procedure E Unit)) := by
    refine .scope _ ?_ fun _ => .done _
    refine .bind (usual.performs rfl) fun _ => ?_
    exact .bind (usual.records (chain.runExecutable_unprofiled source)) fun _ => only
  cases result : executed.1 with
  | ok value =>
    have returned (depth : Nat) :
        Script.Only p (Procedure.effect (.trace (.returned depth chain.input value))) :=
      usual.performs rfl
    have told := whole _ (.bind (usual.frameDepth frame) returned)
    simpa [Procedure.executeCommand, executed, result] using told
  | error error =>
    have presented : Script.Only p (Procedure.effect (.present source error flags.isForked)) :=
      usual.performs rfl
    have told := whole _ presented
    simpa [Procedure.executeCommand, executed, result] using told

theorem callFunction (function : Function E) (callback : Callback) (returnParent : Bool)
    (source : Source) (frame : FrameId) :
    Script.Only p (Procedure.callFunction function callback returnParent source frame) := by
  refine .bind (usual.performs rfl) ?_
  intro _
  refine .bind (usual.frameDepth frame) ?_
  intro depth
  refine .bind (usual.performs rfl) ?_
  intro _
  refine .bind (usual.records (by simp [Event.isProfiled])) ?_
  intro _
  split
  · exact .done _
  · refine .bind (usual.scopeOf frame) ?_
    intro outer
    exact .bind (.perform (usual.effect _ rfl)) fun _ => usual.performs rfl

theorem fallThrough (frame : FrameId) : Script.Only p (Procedure.fallThrough frame) := by
  refine .bind (usual.frameCallback frame) ?_
  intro callback
  exact .bind (usual.performs rfl) fun _ => usual.performs rfl

theorem expand (first : Action E) (rest : List (Action E)) (frame : FrameId) :
    Script.Only p (Procedure.expand first rest frame) := by
  refine .bind (usual.performs rfl) ?_
  intro _
  cases rest with
  | nil => exact .done _
  | cons next rest => exact usual.performs rfl

end Deed.Usual

theorem Procedure.only_ofRoutine {α : Type} {routine : Routine E α}
    (only : Script.Only (fun effect => p (.effect effect)) routine) :
    Script.Only p (ofRoutine routine) := by
  induction only with
  | done value => exact .done value
  | call first _ ih => exact .call first ih

namespace Host.Within

variable (within : host.Within p)

include within

theorem prepare (origin : Source) (frame : FrameId) (input : String) (terminal : Terminal E)
    (passed stages : List (Stage E)) (sources : List Source) (flags : Flags) :
    Script.Only p
      (Procedure.prepare host origin frame input terminal passed stages sources flags) := by
  induction stages generalizing passed sources flags with
  | nil => exact .done _
  | cons stage rest ih =>
    rcases stage with ⟨forked, redirect⟩
    cases redirect with
    | passthrough => exact ih _ _ _
    | modifier apply =>
      refine .bind (within.performs rfl) ?_
      intro _
      refine .bind (within.applyModifier apply origin _ _ _) ?_
      intro yielded
      cases yielded with
      | none => exact .done _
      | some yielded => exact ih _ _ _
    | returnRun =>
      -- Here a stage follows the cursor, so the routine has a simple form.
      refine .bind ?_ fun _ => .done _
      rw [Procedure.ofRoutine_returnRun origin sources _ _ rfl]
      split
      · split
        · exact within.performs rfl
        · exact .done _
      · exact .bind (within.performs rfl) fun _ => within.performs rfl
    | custom code =>
      exact .bind (Procedure.only_ofRoutine (within.redirect _ _ _ _ _ _)) fun _ => .done _

theorem takeOver (chain : Chain E) (flags : Flags) (frame : FrameId) (sources : List Source) :
    Script.Only p (Procedure.takeOver host chain flags frame sources) := by
  induction sources with
  | nil => exact .done _
  | cons source rest ih =>
    refine .bind ?_ fun _ => ih
    -- Both terminals that return share their routine.
    have giveBack (result : Result) : Script.Only p
        (Procedure.ofRoutine (Executor.returnResult result source frame : Routine E Unit)) := by
      rw [Procedure.ofRoutine_returnResult]
      refine .bind (within.performs rfl) ?_
      intro _
      refine .bind (within.frameCallback frame) ?_
      intro callback
      exact .bind (within.performs rfl) fun _ => within.performs rfl
    unfold Context.takeOver
    cases chain.terminal with
    | command command => exact .done _
    | returnValue value => exact giveBack _
    | returnFailure => exact giveBack _
    | call function =>
      simp only [Procedure.ofRoutine_callFunction]
      split
      · exact .bind (within.frameCallback frame) fun _ => within.performs rfl
      · exact within.performs rfl
    | custom code => exact Procedure.only_ofRoutine (within.execute _ _ _ _ _)

theorem launch (chain : Chain E) (sources : List Source) (flags : Flags) (frame : FrameId) :
    Script.Only p (Procedure.launch host chain sources flags frame) := by
  unfold Procedure.launch
  cases sources with
  | nil =>
    simp only
    split
    · exact within.performs rfl
    · exact .done _
  | cons first rest =>
    simp only
    split
    · exact .bind (within.frameCallback frame) fun _ => within.performs rfl
    · exact within.takeOver chain flags frame _

/-- The stages are walked within a scope; the terminal is scheduled after it has been closed. -/
theorem resolve (chain : Chain E) (origin : Source) (sources : List Source) (flags : Flags)
    (frame : FrameId) :
    (Procedure.resolve host chain origin sources flags frame).Enclosed p := by
  unfold Procedure.resolve
  split
  · exact .only (within.launch chain sources flags frame)
  · refine .scope _ (within.prepare _ _ _ _ _ _ _ _) ?_
    intro prepared
    cases prepared with
    | none => exact .done _
    | some prepared => exact within.launch _ _ _ frame

theorem start (chain : Chain E) (source : Source) (frame : FrameId) :
    (Procedure.start host chain source frame).Enclosed p := by
  refine .after (within.frameDepth frame) fun depth => ?_
  exact .after (within.performs rfl) fun _ => within.resolve _ _ _ _ frame

/-- All actions of the scheduler are enclosed. -/
theorem enclosed {action : Action E} {frame : FrameId} {procedure : Procedure E Unit}
    (own : action.work host frame = .own procedure) : procedure.Enclosed p := by
  cases action with
  | topLevel chain source =>
    cases own
    exact within.start chain source frame
  | continuation chain origin sources flags =>
    cases own
    exact within.resolve chain origin sources flags frame
  | fallthrough =>
    cases own
    exact .only (within.fallThrough frame)
  | fanOut first rest =>
    cases own
    exact .only (within.expand first rest frame)
  | task code => cases own
  | line line source =>
    cases line with
    | chain chain =>
      cases own
      exact within.start chain source frame
    | custom code => cases own
  | execute chain flags source =>
    cases own
    exact within.executeCommand chain flags source frame
  | call function callback returnParent source =>
    cases own
    exact .only (within.callFunction function callback returnParent source frame)

end Host.Within
end CommandScheduler
