import CommandScheduler.Proofs.Rollback

/-!
# Depth — the current depth while an entry is executed

There is one current depth, set when an entry is taken and reset to zero when a run loop ends.
Nothing in between touches it.  An entry therefore finds there the depth of its frame until a run
loop that it has entered itself comes to its end, and zero from then on; so does a program outside of
all entries, from the beginning.
-/

namespace CommandScheduler

variable {E : Embedding} {host : Host E} {running : List FrameId} {ctx moment : Context E}

/-! ## What sets the current depth -/

namespace Context

theorem depth_enqueueAll (ctx : Context E) (id : FrameId) (actions : List (Action E)) :
    (actions.foldl (fun ctx action => ctx.enqueue id action) ctx).depth = ctx.depth := by
  induction actions generalizing ctx with
  | nil => rfl
  | cons action rest ih => exact (ih (ctx.enqueue id action)).trans (ctx.depth_enqueue id action)

/-- No deed touches the current depth. -/
theorem depth_deed (deed : Deed E) (ctx : Context E) : (deed.apply ctx).2.depth = ctx.depth := by
  cases deed with
  | record | openScope | closeScope => rfl
  | effect effect =>
    cases effect with
    | enqueue frame action => exact ctx.depth_enqueue frame action
    | schedule frame actions =>
      simp only [Deed.apply, Effect.apply, schedule_eq_foldl]
      exact ctx.depth_enqueueAll frame (fan actions)
    | queueCommand chain source callback => exact depth_enqueue _ _ _
    | queueCall function source callback => exact depth_enqueue _ _ _
    | discard frame => exact ctx.depth_rollBack _
    | trace event =>
      rcases ctx.exists_trace_eq event with ⟨events, eq⟩
      exact (congrArg Context.depth eq :)
    | present source error forked =>
      rcases ctx.exists_trace_eq (.error error.message) with ⟨events, eq⟩
      exact (congrArg Context.depth eq :)
    | ask | pushFrame | discardFrom | charge | install | fire | load | store | mark => rfl

end Context

theorem Course.depth_eq_zero {starts : List (Start E)} {outcome : Outcome} {final : Context E}
    (course : Course host ctx starts outcome final) : final.depth = 0 := by
  induction course with
  | exhausted | completed | overflowed => rfl
  | turn _ _ ih => exact ih

/-! ## Moments of a piece of work -/

/-- Whether nothing of the work is left. -/
def Work.isDone : Work E → Bool
  | .own (.done _) | .embedded (.done _) => true
  | .own (.call ..) | .embedded (.call ..) => false

/-- Begun in the first context, the work comes to the second one with the given rest still to do.
The flag tells whether a run loop that it entered has ended before.  What is performed as part of the
work belongs to it; the entries of a nested run do not. -/
inductive Passes (host : Host E) : Work E → Context E → Bool → Work E → Context E → Prop where
  | here (work : Work E) (ctx : Context E) : Passes host work ctx false work ctx
  | deed {deed : Deed E} {next : deed.Reply → Procedure E Unit} {ctx moment : Context E}
      {resumed : Bool} {rest : Work E} :
      Passes host (.own (next (deed.apply ctx).1)) (deed.apply ctx).2 resumed rest moment →
        Passes host (.own (.call deed next)) ctx resumed rest moment
  | effect {effect : Effect E} {next : effect.Reply → Program E Unit} {ctx moment : Context E}
      {resumed : Bool} {rest : Work E} :
      Passes host (.embedded (next (effect.apply ctx).1)) (effect.apply ctx).2 resumed rest moment →
        Passes host (.embedded (.call (.effect effect) next)) ctx resumed rest moment
  /-- Within an action that is performed on the spot. -/
  | inside {action : Action E} {frame : FrameId} {next : Unit → Program E Unit}
      {ctx moment : Context E} {resumed : Bool} {rest : Work E} :
      Passes host (action.work host frame) ctx resumed rest moment →
        Passes host (.embedded (.call (.perform action frame) next)) ctx resumed rest moment
  /-- After an action that was performed on the spot. -/
  | behind {action : Action E} {frame : FrameId} {next : Unit → Program E Unit}
      {ctx mid moment : Context E} {first later : Bool} {done rest : Work E} :
      Passes host (action.work host frame) ctx first done mid → done.isDone = true →
      Passes host (.embedded (next ())) mid later rest moment →
        Passes host (.embedded (.call (.perform action frame) next)) ctx (first || later) rest
          moment
  /-- After a run loop that the work has entered. -/
  | run {fuel : Nat} {outcome : Outcome} {next : Outcome → Program E Unit}
      {ctx mid moment : Context E} {resumed : Bool} {rest : Work E} :
      ctx.run host fuel = some (outcome, mid) →
      Passes host (.embedded (next outcome)) mid resumed rest moment →
        Passes host (.embedded (.call .run next)) ctx true rest moment

namespace Passes

variable {work rest : Work E} {resumed : Bool}

theorem leads (passes : Passes host work ctx resumed rest moment) :
    Leads running ctx running moment := by
  induction passes with
  | here => exact .refl
  | deed _ ih => exact (Leads.refl.deed _).trans ih
  | effect _ ih => exact (Leads.refl.deed (.effect _)).trans ih
  | inside _ ih => exact ih
  | behind _ _ _ first later => exact first.trans later
  | run ran _ ih => exact (Leads.run ran).trans ih

/-- The depth stays what it was until a nested run ends, and is zero afterwards. -/
theorem depth_eq (passes : Passes host work ctx resumed rest moment) :
    moment.depth = if resumed then 0 else ctx.depth := by
  induction passes with
  | here => rfl
  | deed _ ih => rw [ih, Context.depth_deed]
  | @effect effect _ ctx _ _ _ _ ih =>
    have same : (effect.apply ctx).2.depth = ctx.depth := Context.depth_deed (.effect effect) ctx
    rw [ih, same]
  | inside _ ih => exact ih
  | @behind _ _ _ _ _ _ before after _ _ _ _ _ first later =>
    -- A run that has ended in either part leaves zero for the rest.
    rw [later, first]
    cases before <;> cases after <;> rfl
  | run ran _ ih =>
    rcases Course.of_drain ran with ⟨starts, course⟩
    rw [ih, course.depth_eq_zero]
    simp

end Passes

/-! ### Work that ends -/

/-- The work passes to an end in the second context. -/
def Work.PassesTo (host : Host E) (work : Work E) (ctx after : Context E) : Prop :=
  ∃ resumed rest, Passes host work ctx resumed rest after ∧ rest.isDone = true

theorem Procedure.passesTo (host : Host E) (procedure : Procedure E Unit) (ctx : Context E) :
    (Work.own procedure).PassesTo host ctx (procedure.apply ctx) := by
  induction procedure generalizing ctx with
  | done value => exact ⟨false, _, .here _ ctx, rfl⟩
  | call deed next ih =>
    rcases ih (deed.apply ctx).1 (deed.apply ctx).2 with ⟨resumed, rest, passes, done⟩
    exact ⟨resumed, rest, .deed passes, done⟩

/-- A program passes to its end if the actions that it performs on the spot do. -/
theorem Program.passesTo {fuel : Nat}
    (performs : ∀ action frame (ctx after : Context E),
      Context.perform host fuel action frame ctx = some after →
        (action.work host frame).PassesTo host ctx after)
    {program : Program E Unit} {result : Unit × Context E}
    (ran : ctx.runProgram host fuel program = some result) :
    (Work.embedded program).PassesTo host ctx result.2 := by
  induction program generalizing ctx with
  | done value =>
    cases ran
    exact ⟨false, _, .here _ ctx, rfl⟩
  | call op next ih =>
    cases op with
    | effect effect =>
      rcases ih (effect.apply ctx).1 ran with ⟨resumed, rest, passes, done⟩
      exact ⟨resumed, rest, .effect passes, done⟩
    | perform action frame =>
      cases performed : Context.perform host fuel action frame ctx with
      | none => simp [Context.runProgram, Script.run?, Context.instruct, performed] at ran
      | some mid =>
        rcases performs action frame ctx mid performed with ⟨first, done, passes, isDone⟩
        have later : mid.runProgram host fuel (next ()) = some result := by
          simpa [Context.runProgram, Script.run?, Context.instruct, performed] using ran
        rcases ih () later with ⟨second, rest, behind, isDone'⟩
        exact ⟨first || second, rest, .behind passes isDone behind, isDone'⟩
    | run =>
      cases drained : ctx.run host fuel with
      | none =>
        have stuck : Context.drain host fuel ctx.promote = none := drained
        simp [Context.runProgram, Script.run?, Context.instruct, stuck] at ran
      | some ended =>
        have ends : Context.drain host fuel ctx.promote = some ended := drained
        have later : ended.2.runProgram host fuel (next ended.1) = some result := by
          simpa [Context.runProgram, Script.run?, Context.instruct, ends] using ran
        rcases ih ended.1 later with ⟨resumed, rest, passes, done⟩
        exact ⟨true, rest, .run drained passes, done⟩

theorem Context.perform_passesTo {fuel : Nat} {action : Action E} {frame : FrameId}
    {after : Context E} (performed : Context.perform host fuel action frame ctx = some after) :
    (action.work host frame).PassesTo host ctx after := by
  -- What is performed on the spot has less fuel.
  induction fuel generalizing action frame ctx after with
  | zero => simp [Context.perform] at performed
  | succ fuel ih =>
    rw [Context.perform_succ] at performed
    cases work : action.work host frame with
    | own procedure =>
      simp only [work, Option.some.injEq] at performed
      exact performed ▸ procedure.passesTo host ctx
    | embedded program =>
      rw [work] at performed
      rcases Option.map_eq_some_iff.mp performed with ⟨result, ran, rfl⟩
      exact Program.passesTo (fun _ _ _ _ => ih) ran

/-! ## The depth that an entry finds -/

/-- While an entry is executed its frame is live and has the depth that the entry knows; this is the
current depth to begin with. -/
theorem Reachable.frame?_of_passes (h : Reachable running ctx) {started : Context E}
    {entry : Entry E} (popped : ctx.pop? = some (entry, started)) {work rest : Work E}
    {resumed : Bool} (passes : Passes host work started resumed rest moment) :
    Reachable (entry.frame :: running) moment ∧
      ∃ frame, moment.frame? entry.frame = some frame ∧ frame.depth = entry.depth ∧
        started.depth = frame.depth := by
  have begun := h.then (Leads.refl.pop popped)
  obtain ⟨pending, front, eq⟩ := Context.pop?_eq_some popped
  have waits : entry ∈ ctx.waiting := List.mem_append_right _ (front ▸ List.mem_cons_self)
  rcases h.accounted.balanced.exists_frame? waits with ⟨frame, live, depth⟩
  have startedLive : started.frame? entry.frame = some frame := by
    rw [eq]
    exact live
  have startedDepth : started.depth = entry.depth := by rw [eq]
  -- The entry holds its frame from before it is taken until it is settled.
  have evolves := begun.accounted.leads passes.leads
  have same := begun.accounted.frame?_of_running evolves List.mem_cons_self List.mem_cons_self
  exact ⟨begun.then passes.leads, frame, same.trans startedLive, depth,
    startedDepth.trans depth.symm⟩

/-- Outside of all entries the current depth is zero.  While an entry is executed, its frame is live,
and at every moment of its own work the current depth is the depth of this frame, until a run loop
that it has entered ends; from then on the current depth is zero.  This holds for the entries of
every run loop, however it is nested, and the work of an entry that ends has passed through such
moments only. -/
theorem depth_until_resumed (host : Host E) :
    (∀ limits memory profiler program resumed rest moment,
      Passes host (.embedded program) (.create limits memory profiler) resumed rest moment →
        Reachable [] moment ∧ moment.depth = 0) ∧
    (∀ running ctx starts mid started (entry : Entry E), Reachable running ctx →
      Turns host ctx.promote starts mid → mid.pop? = some (entry, started) →
      (∀ resumed rest moment,
        Passes host (entry.action.work host entry.frame) started resumed rest moment →
          Reachable (entry.frame :: running) moment ∧
          ∃ frame, moment.frame? entry.frame = some frame ∧ frame.depth = entry.depth ∧
            moment.depth = if resumed then 0 else frame.depth) ∧
      (∀ fuel after, Context.perform host fuel entry.action entry.frame started = some after →
        ∃ resumed rest,
          Passes host (entry.action.work host entry.frame) started resumed rest after ∧
            rest.isDone = true)) := by
  refine ⟨?_, ?_⟩
  · intro limits memory profiler program resumed rest moment passes
    refine ⟨⟨limits, memory, profiler, passes.leads⟩, ?_⟩
    have new : (Context.create limits memory profiler : Context E).depth = 0 := rfl
    rw [passes.depth_eq, new, ite_self]
  · intro running ctx starts mid started entry reachable turns popped
    refine ⟨?_, fun fuel after => Context.perform_passesTo⟩
    intro resumed rest moment passes
    have before := reachable.then (Leads.refl.promote.trans (.turns turns))
    obtain ⟨executed, frame, live, depth, begun⟩ := before.frame?_of_passes popped passes
    exact ⟨executed, frame, live, depth, by rw [passes.depth_eq, begun]⟩

/-! ## A task that enters the run loop -/

/-- An embedding program that contributes a single task. -/
@[reducible]
def Embedding.single : Embedding :=
  { Embedding.bare with Task := Unit }

/-- The host for which the task is the given program. -/
def Host.single (program : Program .single Unit) : Host .single where
  redirect := fun code => code.elim
  execute := fun code => code.elim
  task := fun _ _ => program
  line := fun code => code.elim

/-- The host whose task enters the run loop. -/
def Host.resuming : Host .single :=
  .single (.call .run fun _ => .done ())

namespace Context

/-- The task is pending in a frame of depth one. -/
def resumable : Context .single :=
  let queue : Procedure .single Unit := do
    let frame ← Procedure.pushFrame { depth := 1, scope := .discardFrom 1 }
    Procedure.effect (.enqueue frame (.task ()))
  queue.apply (.create {} () .off)

theorem reachable_resumable : Reachable [] resumable :=
  ⟨{}, (), .off, Leads.refl.procedure _⟩

/-- The task is taken, enters the run loop, and goes on after it. -/
theorem resumable_passes : ∃ entry started moment, resumable.promote.pop? = some (entry, started) ∧
    entry.depth = 1 ∧
    Passes .resuming (entry.action.work .resuming entry.frame) started true (.embedded (.done ()))
      moment := by
  -- That the nested run ends is computed; what it leaves does not have to be.
  have ran : (resumable.promote.pop?.bind fun head =>
      (head.2.run .resuming 1).map Prod.fst) = some .completed := by decide +kernel
  rcases Option.bind_eq_some_iff.mp ran with ⟨⟨entry, started⟩, popped, ended⟩
  rcases Option.map_eq_some_iff.mp ended with ⟨⟨outcome, moment⟩, ran, -⟩
  have taken : resumable.promote.pop?.map (·.1) = some ⟨1, ⟨0⟩, .task ()⟩ := rfl
  rw [popped] at taken
  cases taken
  exact ⟨_, started, moment, popped, rfl, .run ran (.here _ _)⟩

end Context

/-- Before the nested run the task finds its own depth, and after it zero. -/
theorem depth_until_resumed_of_task :
    ∃ (entry : Entry Embedding.single) (started moment : Context .single),
      Context.resumable.promote.pop? = some (entry, started) ∧
      Passes .resuming (entry.action.work .resuming entry.frame) started true (.embedded (.done ()))
        moment ∧
      started.depth = 1 ∧ moment.depth = 0 := by
  rcases Context.resumable_passes with ⟨entry, started, moment, popped, one, passes⟩
  have depths := ((depth_until_resumed .resuming).2 _ _ _ _ _ _ Context.reachable_resumable
    (.refl _) popped).1
  obtain ⟨-, frame, -, depth, before⟩ := depths _ _ _ (.here _ _)
  obtain ⟨-, _, -, -, later⟩ := depths _ _ _ passes
  exact ⟨entry, started, moment, popped, passes, before.trans (depth.trans one), later⟩

/-- So the current depth is not always the depth of the entry that is executed. -/
theorem depth_zero_after_nested_run :
    ¬ ∀ (running : List FrameId) (ctx mid started moment : Context .single)
      (starts : List (Start .single)) (entry : Entry Embedding.single) (resumed : Bool)
      (rest : Work .single), Reachable running ctx → Turns .resuming ctx.promote starts mid →
      mid.pop? = some (entry, started) →
      Passes .resuming (entry.action.work .resuming entry.frame) started resumed rest moment →
        ∃ frame, moment.frame? entry.frame = some frame ∧ moment.depth = frame.depth := by
  intro follows
  rcases Context.resumable_passes with ⟨entry, started, moment, popped, one, passes⟩
  have reachable := Context.reachable_resumable.then Leads.refl.promote
  obtain ⟨frame, live, same⟩ := follows [] _ _ started moment [] entry true _
    Context.reachable_resumable (.refl _) popped passes
  obtain ⟨-, owner, ownerLive, depth, -⟩ := reachable.frame?_of_passes popped passes
  cases live.symm.trans ownerLive
  have stale : moment.depth = 0 := passes.depth_eq
  omega

end CommandScheduler
