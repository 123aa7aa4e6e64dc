import CommandScheduler.Proofs.Depth
import CommandScheduler.Proofs.Truncation

/-!
# Echo — what a step shows even if the queue overflows

A sketch depicts a context until the queue overflows.  What a native action can see of the context,
however, is not touched by an overflow, as its own frame stays.  So the sketch goes on to echo what
the action shows, to the end of the step.
-/

namespace CommandScheduler

variable {E : Embedding} {site : Site E} {running : List FrameId} {sketch : Sketch E}
  {ctx : Context E}

/-- The sketch shows what the action at the site sees of the context, and what it has shown so far;
what is queued may be lost. -/
structure Sketch.Echoes (site : Site E) (running : List FrameId) (sketch : Sketch E)
    (ctx : Context E) : Prop where
  limits : ctx.limits = site.limits
  sink : ctx.sink? = site.sink?
  depth : ctx.depth = site.frame.depth
  accounted : ctx.Accounted (site.id :: running)
  frame : ctx.frame? site.id = some site.frame
  /-- The next frame gets the handle that the site has foreseen. -/
  callee : sketch.callee? = none → site.callee = ⟨ctx.frames.next⟩
  observed : ctx.observed = sketch.tape.events

theorem Sketch.Depicts.echoes (h : sketch.Depicts site running ctx) :
    sketch.Echoes site running ctx where
  limits := h.limits
  sink := h.sink
  depth := h.depth
  accounted := h.accounted
  frame := h.frame
  callee := by
    intro own
    have callee := h.callee
    simpa [own] using callee
  observed := h.events

namespace Sketch.Echoes

/-- A deed leaves the limits, the depth and the own frame alone, whatever it queues. -/
theorem step (h : sketch.Echoes site running ctx) (deed : Deed E) {sketch' : Sketch E}
    (sink : (deed.apply ctx).2.sink? = ctx.sink?)
    (callee : sketch'.callee? = none → site.callee = ⟨(deed.apply ctx).2.frames.next⟩)
    (observed : (deed.apply ctx).2.observed = sketch'.tape.events) :
    sketch'.Echoes site running (deed.apply ctx).2 := by
  have evolves := h.accounted.deed deed
  have same := h.accounted.frame?_of_running evolves List.mem_cons_self List.mem_cons_self
  exact {
    limits := (Context.limits_deed deed ctx).trans h.limits
    sink := sink.trans h.sink
    depth := (Context.depth_deed deed ctx).trans h.depth
    accounted := evolves.accounted
    frame := same.trans h.frame
    callee
    observed }

theorem setting (h : sketch.Echoes site running ctx) : ctx.setting = site.setting := by
  rw [Context.setting, Site.setting, h.limits, h.sink]

theorem observed_record (h : sketch.Echoes site running ctx) (events : List (Event E.Mark)) :
    (ctx.record events).observed = (sketch.tape.write events).events := by
  rw [Context.observed_record, h.observed]
  rfl

/-- Scopes of the profiler are not observable. -/
theorem observed_profile (h : sketch.Echoes site running ctx) (profiler : Profiler)
    {events : List (Event E.Mark)} (unseen : events.filter Event.isObservable = []) :
    ({ ctx with profiler }.record events).observed = sketch.tape.events := by
  rw [Context.observed_record, unseen, List.append_nil]
  exact h.observed

/-- Queueing and rolling back show nothing. -/
theorem requeued (h : sketch.Echoes site running ctx) (deed : Deed E)
    (requeued : ctx.Requeued (deed.apply ctx).2) {sketch' : Sketch E}
    (tape : sketch'.tape = sketch.tape) (callee : sketch'.callee? = sketch.callee?) :
    sketch'.Echoes site running (deed.apply ctx).2 := by
  have next : (deed.apply ctx).2.frames.next = ctx.frames.next :=
    (congrArg View.nextFrame requeued.view :)
  refine h.step deed (congrArg View.sink? requeued.view :) ?_ ?_
  · rw [callee, next]
    exact h.callee
  · rw [requeued.observed, h.observed, tape]

/-- After a deed that the sketch allows, it still echoes the context. -/
theorem deed (h : sketch.Echoes site running ctx) (deed : Deed E) {reply : deed.Reply}
    {sketch' : Sketch E} (drawn : site.draw deed sketch = some (reply, sketch')) :
    (deed.apply ctx).1 = reply ∧ sketch'.Echoes site running (deed.apply ctx).2 := by
  cases deed with
  | record events =>
    cases drawn
    exact ⟨rfl, h.step (.record events) rfl h.callee (h.observed_record events)⟩
  | openScope scope =>
    cases drawn
    exact ⟨rfl, h.step (.openScope scope) rfl h.callee
      (h.observed_profile _ (ctx.profiler.enter_unseen scope))⟩
  | closeScope =>
    cases drawn
    exact ⟨rfl, h.step .closeScope rfl h.callee (h.observed_profile _ ctx.profiler.leave_unseen)⟩
  | effect effect =>
    cases effect with
    | ask query =>
      cases query with
      | limits =>
        cases drawn
        exact ⟨h.limits, h⟩
      | depth =>
        cases drawn
        exact ⟨h.depth, h⟩
      | frame id =>
        simp only [Site.draw] at drawn
        split at drawn
        · rename_i own
          cases drawn
          exact ⟨own ▸ h.frame, h⟩
        · cases drawn
      | quota | overflowed | backlog | frameCount | sink | inspection => cases drawn
    | charge =>
      cases drawn
      exact ⟨rfl, h.step (.effect .charge) rfl h.callee h.observed⟩
    | trace event =>
      cases drawn
      refine ⟨rfl, h.step (.effect (.trace event)) ?_ ?_ ?_⟩
      all_goals simp only [Deed.apply, Effect.apply, Context.trace_eq, h.setting]
      · rfl
      · exact h.callee
      · exact h.observed_record _
    | fire callback result =>
      cases drawn
      exact ⟨rfl, h.step (.effect (.fire callback result)) rfl h.callee (h.observed_record _)⟩
    | present source error forked =>
      cases drawn
      refine ⟨rfl, h.step (.effect (.present source error forked)) ?_ ?_ ?_⟩
      all_goals simp only [Deed.apply, Effect.apply, Context.present_eq, h.setting]
      · rfl
      · exact h.callee
      · exact h.observed_record _
    -- These may find the queue overflowed, in which case nothing is queued or discarded.
    | discard id =>
      simp only [Site.draw] at drawn
      split at drawn
      · cases drawn
        exact ⟨rfl, h.requeued (.effect (.discard id)) (ctx.requeued_discard id) rfl rfl⟩
      · cases drawn
    | enqueue id action =>
      simp only [Site.draw] at drawn
      split at drawn
      · cases drawn
        exact ⟨rfl, h.requeued (.effect (.enqueue id action)) (ctx.requeued_enqueue id action) rfl
          rfl⟩
      · cases drawn
    | schedule id actions =>
      simp only [Site.draw] at drawn
      split at drawn
      · cases drawn
        exact ⟨rfl, h.requeued (.effect (.schedule id actions)) (ctx.requeued_schedule id actions)
          rfl rfl⟩
      · cases drawn
    | pushFrame frame =>
      simp only [Site.draw] at drawn
      split at drawn
      · rename_i own
        cases drawn
        refine ⟨(h.callee own.1).symm, h.step (.effect (.pushFrame frame)) rfl ?_ h.observed⟩
        -- A body is the only frame that an action adds, so no further handle is foreseen.
        intro none
        cases none
      · cases drawn
    | queueCommand | queueCall | discardFrom | install | load | store | mark => cases drawn

/-- A procedure gets the same replies from the context as from the sketch. -/
theorem run {α : Type} {procedure : Procedure E α} {value : α} {sketch' : Sketch E}
    (h : sketch.Echoes site running ctx)
    (drawn : procedure.run? site.draw sketch = some (value, sketch')) :
    (procedure.run Deed.apply ctx).1 = value ∧
      sketch'.Echoes site running (procedure.apply ctx) := by
  induction procedure generalizing sketch ctx with
  | done value =>
    cases drawn
    exact ⟨rfl, h⟩
  | call op next ih =>
    cases first : site.draw op sketch with
    | none => simp [Script.run?, first] at drawn
    | some drawing =>
      rcases h.deed op first with ⟨reply, echoes⟩
      have rest : (next (op.apply ctx).1).run? site.draw drawing.2 = some (value, sketch') := by
        rw [reply]
        simpa [Script.run?, first] using drawn
      exact ih _ echoes rest

end Sketch.Echoes
end CommandScheduler
