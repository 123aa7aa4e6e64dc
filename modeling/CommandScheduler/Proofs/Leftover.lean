import CommandScheduler.Proofs.Overflow

/-!
# Leftover — frames that a run does not remove

A frame to which nothing refers is removed at the end of a step.  A run that finds nothing to take
has no step, so it leaves the frames behind that were added since the last one.  This is how a
request that is dropped after an overflow leaves its frame behind: no step ever follows, and the
frame stays for good.
-/

namespace CommandScheduler

variable {E : Embedding} {host : Host E} {running running' : List FrameId} {ctx ctx' : Context E}

/-! ## Runs without a step -/

/-- A run that finds nothing to take changes no frame. -/
theorem Course.frames_of_empty {starts : List (Start E)} {outcome : Outcome} {final : Context E}
    (course : Course host ctx starts outcome final) (empty : ctx.pop? = none) :
    starts = [] ∧ final.frames = ctx.frames ∧
      (outcome = .quotaExhausted ∨ outcome = .completed) := by
  cases course with
  | exhausted => exact ⟨rfl, rfl, .inl rfl⟩
  | completed => exact ⟨rfl, rfl, .inr rfl⟩
  | overflowed _ popped => simp [empty] at popped
  | turn turn _ => exact absurd (empty.symm.trans turn.popped) (by simp)

theorem Context.promote_pop?_eq_none_iff (ctx : Context E) :
    ctx.promote.pop? = none ↔ ctx.queued = 0 := by
  have waiting : ctx.promote.pending.entries = ctx.waiting := rfl
  rw [Context.pop?_eq_none_iff, waiting, ctx.queued_eq_length, List.length_eq_zero_iff]

/-! ## After an overflow -/

namespace Context.Accounted

/-- An overflowed context accepts nothing. -/
theorem enqueue_eq_self (h : ctx.Accounted running) (overflowed : ctx.overflowed = true)
    (id : FrameId) (action : Action E) : ctx.enqueue id action = ctx := by
  have empty : ctx.queued = 0 := by
    rw [ctx.queued_eq_length, h.cleared overflowed, List.length_nil]
  simp [Context.enqueue, empty, overflowed]

theorem enqueueAll_eq_self (h : ctx.Accounted running) (overflowed : ctx.overflowed = true)
    (id : FrameId) (actions : List (Action E)) :
    actions.foldl (fun ctx action => ctx.enqueue id action) ctx = ctx := by
  induction actions with
  | nil => rfl
  | cons action rest ih => rw [List.foldl_cons, h.enqueue_eq_self overflowed, ih]

/-- Nothing is pending after an overflow, so a rollback has nobody to release a frame for. -/
theorem frames_rollBack (h : ctx.Accounted running) (overflowed : ctx.overflowed = true)
    (scope : Scope) : (ctx.rollBack scope).frames = ctx.frames := by
  have empty := (h.queue_eq_nil overflowed).1
  cases scope with
  | clearAll => simp [Context.rollBack, Context.clearPending, empty, FrameTable.releaseAll]
  | discardFrom depth =>
    simp [Context.rollBack, Context.discardFrom, Context.notify, Context.record, Backlog.front,
      empty, FrameTable.releaseAll]

/-- After an overflow, deeds only add frames. -/
theorem live_suffix_deed (h : ctx.Accounted running) (overflowed : ctx.overflowed = true)
    (deed : Deed E) : ctx.frames.live <:+ (deed.apply ctx).2.frames.live := by
  have unchanged {after : Context E} (same : after.frames = ctx.frames) :
      ctx.frames.live <:+ after.frames.live :=
    same ▸ List.suffix_refl _
  have asked (callback : Callback) (action : Action E) :
      ctx.frames.live <:+ ((ctx.pushTopFrame callback).2.enqueue (ctx.pushTopFrame callback).1
        action).frames.live := by
    rw [(h.pushTopFrame callback).accounted.enqueue_eq_self overflowed]
    exact List.suffix_cons _ _
  -- Frames come in front of the others, even if nothing is queued to them then.
  cases deed with
  | record | openScope | closeScope => exact unchanged rfl
  | effect effect =>
    cases effect with
    | enqueue frame action =>
      exact unchanged (congrArg Context.frames (h.enqueue_eq_self overflowed frame action) :)
    | schedule frame actions =>
      refine unchanged ?_
      simp only [Deed.apply, Effect.apply, Context.schedule_eq_foldl,
        h.enqueueAll_eq_self overflowed]
    | pushFrame frame => exact List.suffix_cons _ _
    | queueCommand chain source callback => exact asked callback _
    | queueCall function source callback => exact asked callback _
    | discard frame => exact unchanged (h.frames_rollBack overflowed _)
    | discardFrom depth => exact unchanged (h.frames_rollBack overflowed (.discardFrom depth))
    | trace event =>
      rcases ctx.exists_trace_eq event with ⟨events, eq⟩
      exact unchanged (congrArg Context.frames eq :)
    | present source error forked =>
      rcases ctx.exists_trace_eq (.error error.message) with ⟨events, eq⟩
      exact unchanged (congrArg Context.frames eq :)
    | ask | charge | install | fire | load | store | mark => exact unchanged rfl

/-- Outside of all entries, no step ever follows an overflow, and so all frames stay. -/
theorem live_suffix (h : ctx.Accounted []) (overflowed : ctx.overflowed = true)
    (leads : Leads [] ctx running' ctx') :
    running' = [] ∧ ctx.frames.live <:+ ctx'.frames.live := by
  induction leads with
  | refl => exact ⟨rfl, List.suffix_refl _⟩
  | @deed during mid deed leads ih =>
    rcases ih with ⟨rfl, kept⟩
    have later := (h.leads leads).accounted.live_suffix_deed (leads.overflowed overflowed) deed
    exact ⟨rfl, kept.trans later⟩
  | promote _ ih => exact ih
  | pop leads popped =>
    simp [h.pop?_eq_none_of_overflowed overflowed leads] at popped
  | settle _ ih => cases ih.1
  | finish _ _ ih => exact ih

end Context.Accounted

/-! ## What an outermost run leaves -/

/-- A run outside of all entries that ends with nothing queued leaves no frame behind if there was
anything to take.  Otherwise it changes no frame.  So what is left are frames to which nothing was
ever queued and that were added since the last step; after an overflow, when no step follows any
more, they are never removed. -/
theorem frames_left_by_run {fuel : Nat} {outcome : Outcome} {final : Context E}
    (h : Reachable [] ctx) (ran : ctx.run host fuel = some (outcome, final))
    (drained : outcome ≠ .quotaExhausted) :
    (0 < ctx.queued → final.frameCount = 0) ∧
    (ctx.queued = 0 → outcome = .completed ∧ final.frames = ctx.frames) ∧
    (∀ id slot, final.frames.slot? id = some slot →
      slot.references = 0 ∧ id ∈ ctx.frames.fresh) ∧
    (final.overflowed = true → ∀ running' ctx', Leads [] final running' ctx' →
      ∀ id frame, final.frame? id = some frame → ctx'.frame? id = some frame) := by
  have accounted := h.accounted
  have finished := (h.then (.run ran)).accounted
  rcases Course.of_drain ran with ⟨starts, course⟩
  -- The last step of a run sweeps all frames that nothing refers to.
  have some (queued : 0 < ctx.queued) : final.frameCount = 0 := by
    refine course.frameCount_eq_zero accounted.promote.accounted rfl (.inr ?_) drained
    -- A run without a start would have found nothing to take.
    rintro rfl
    cases course with
    | exhausted => exact drained rfl
    | completed _ popped =>
      have none := ctx.promote_pop?_eq_none_iff.mp popped
      omega
  have none (empty : ctx.queued = 0) : outcome = .completed ∧ final.frames = ctx.frames := by
    obtain ⟨-, frames, ends⟩ := course.frames_of_empty (ctx.promote_pop?_eq_none_iff.mpr empty)
    exact ⟨ends.resolve_left drained, frames⟩
  refine ⟨some, none, ?_, ?_⟩
  · intro id slot found
    rcases Nat.eq_zero_or_pos ctx.queued with empty | queued
    · rw [(none empty).2] at found
      have waiting : ctx.waiting = [] := by
        rw [← List.length_eq_zero_iff, ← ctx.queued_eq_length]
        exact empty
      have held := accounted.balanced.held
      rw [waiting] at held
      have unused : slot.references = 0 := held.references id slot found
      exact ⟨unused, held.fresh id slot found unused⟩
    · have cleared : final.frames.slots = [] := List.length_eq_zero_iff.mp (some queued)
      simp [FrameTable.slot?, cleared, FrameTable.slotOf] at found
  · intro overflowed running' ctx' leads id frame live
    have kept := (finished.live_suffix overflowed leads).2
    have distinct := (finished.leads leads).accounted.balanced.held.distinct
    exact FrameTable.frame?_of_mem_live distinct
      (kept.subset (FrameTable.mem_live_of_frame? live))

namespace Context

/-- The command has made the queue overflow, and another one was asked for after that. -/
def refused : Context .bare :=
  let ended := (forking.run .bare 3).get (by decide +kernel)
  (Deed.say.apply ended.2).2

theorem reachable_refused : Reachable [] refused := by
  have ran : forking.run .bare 3 = some ((forking.run .bare 3).get (by decide +kernel)) :=
    (Option.some_get _).symm
  exact ⟨_, _, _, (leads_forking.trans (.run ran)).deed .say⟩

/-- The next run finds nothing to take. -/
theorem refused_run : ∃ final, refused.run .bare 1 = some (.completed, final) := by
  have ran : (refused.run .bare 1).map Prod.fst = some .completed := by decide +kernel
  rcases Option.map_eq_some_iff.mp ran with ⟨⟨outcome, final⟩, ran, rfl⟩
  exact ⟨final, ran⟩

end Context

/-- The refused command has left a frame, which is never removed. -/
theorem frames_left_by_run_of_refused :
    ∃ final : Context .bare, Context.refused.run .bare 1 = some (.completed, final) ∧
      final.frameCount = 1 ∧ final.overflowed = true ∧
      ∀ running' ctx', Leads [] final running' ctx' →
        ∀ id frame, final.frame? id = some frame → ctx'.frame? id = some frame := by
  rcases Context.refused_run with ⟨final, ran⟩
  obtain ⟨-, none, -, forGood⟩ :=
    frames_left_by_run Context.reachable_refused ran Outcome.noConfusion
  have same := (none (by decide +kernel)).2
  have leads : Leads [] Context.refused [] final := .run ran
  have overflowed := leads.overflowed (by decide +kernel)
  refine ⟨final, ran, ?_, overflowed, forGood overflowed⟩
  rw [Context.frameCount, same]
  decide +kernel

/-- So a run that completes can leave a frame behind. -/
theorem frame_left_after_overflow :
    ¬ ∀ (ctx final : Context .bare) (fuel : Nat) (outcome : Outcome), Reachable [] ctx →
      ctx.run .bare fuel = some (outcome, final) →
      (outcome = .completed ∨ outcome = .overflowed) → final.frameCount = 0 := by
  intro swept
  rcases Context.refused_run with ⟨final, ran⟩
  have none := swept _ final 1 _ Context.reachable_refused ran (.inl rfl)
  have left : ((Context.refused.run .bare 1).map (·.2.frameCount)) = some 1 := by decide +kernel
  simp [ran, none] at left

end CommandScheduler
