import CommandScheduler.Proofs.Lockstep

/-!
# Observers — watching a run does not change it

A sink and a profiler are told of the work, and the log tells what they were told.  Without them and
without these events a context is *unwatched*.  Whatever is done to a context is done in the same
way to the unwatched one, so two contexts that differ only in their observers go through the same
run.
-/

namespace CommandScheduler

variable {E : Embedding}

/-- Whether an event tells of a sink or of the profiler. -/
def Event.isWatching {Mark : Type} : Event Mark → Bool
  | .traced .. | .closed _ | .entered _ | .left | .notice (.profiled ..) => true
  | .applied _ | .executed _ | .fired .. | .presented .. | .mark _
  | .notice (.discarded ..) | .notice (.called ..) | .notice (.forkLimitReached _)
  | .notice .frameReleased | .notice (.limitReached _) | .notice (.queueOverflowed _) => false

namespace Context

/-- The context without its observers and without what the log tells of them. -/
def unwatched (ctx : Context E) : Context E :=
  { ctx with sink? := none, profiler := .off, log := ctx.log.filter (! ·.isWatching) }

variable (ctx : Context E)

theorem unwatched_record (events : List (Event E.Mark)) :
    (ctx.record events).unwatched = ctx.unwatched.record (events.filter (! ·.isWatching)) := by
  have log : (ctx.log ++ events).filter (! ·.isWatching) =
      ctx.log.filter (! ·.isWatching) ++ events.filter (! ·.isWatching) :=
    Array.toList_inj.mp (by simp)
  simp only [unwatched, record, log]

theorem unwatched_notify {notice : Notice}
    (unprofiled : (Event.notice notice : Event E.Mark).isWatching = false) :
    (ctx.notify notice).unwatched = ctx.unwatched.notify notice := by
  rw [notify, unwatched_record]
  simp [unprofiled, notify]

/-- What is told to observers alone cannot be seen without them. -/
theorem unwatched_record_of_watching {events : List (Event E.Mark)}
    (watching : ∀ event ∈ events, event.isWatching = true) :
    (ctx.record events).unwatched = ctx.unwatched := by
  rw [unwatched_record, List.filter_eq_nil_iff.mpr (by simpa using watching), record_nil]

theorem unwatched_trace (event : TraceEvent) : (ctx.trace event).unwatched = ctx.unwatched := by
  unfold trace
  cases ctx.sink? with
  | none => rfl
  | some sink => exact ctx.unwatched_record_of_watching (by simp [Event.isWatching])

theorem unwatched_openScope (scope : String) : (ctx.openScope scope).unwatched = ctx.unwatched := by
  refine unwatched_record_of_watching _ ?_
  cases ctx.profiler <;> simp [Event.isWatching]

theorem unwatched_closeScope : ctx.closeScope.unwatched = ctx.unwatched := by
  refine unwatched_record_of_watching _ ?_
  rcases ctx.profiler with _ | _ | (_ | ⟨scope, scopes⟩) <;>
    simp [Event.isWatching]

theorem unwatched_enqueue (id : FrameId) (action : Action E) :
    (ctx.enqueue id action).unwatched = ctx.unwatched.enqueue id action := by
  have limits : ctx.unwatched.limits = ctx.limits := rfl
  have queued : ctx.unwatched.queued = ctx.queued := rfl
  have overflowed : ctx.unwatched.overflowed = ctx.overflowed := rfl
  have frames : ctx.unwatched.frames = ctx.frames := rfl
  simp only [enqueue, limits, queued]
  split
  · rfl
  · simp only [overflowed, frames]
    split
    · rfl
    · cases ctx.frames.retain? id with
      | none => exact unwatched_notify _ rfl
      | some held => rfl

theorem unwatched_schedule (id : FrameId) (actions : List (Action E)) :
    (ctx.schedule id actions).unwatched = ctx.unwatched.schedule id actions := by
  rw [schedule_eq_foldl, schedule_eq_foldl]
  induction fan actions generalizing ctx with
  | nil => rfl
  | cons action rest ih =>
    rw [List.foldl_cons, List.foldl_cons, ih, unwatched_enqueue]

theorem unwatched_scheduleBelow (id : FrameId) (callback : Callback) (returnParent : Bool)
    (actions : List (Action E)) :
    (ctx.scheduleBelow id callback returnParent actions).unwatched =
      ctx.unwatched.scheduleBelow id callback returnParent actions :=
  unwatched_schedule _ _ _

theorem unwatched_discard (id : FrameId) :
    (ctx.discard id).unwatched = ctx.unwatched.discard id := by
  have scope : ctx.unwatched.scopeOf id = ctx.scopeOf id := rfl
  rw [discard, discard, scope]
  cases ctx.scopeOf id with
  | clearAll => rfl
  | discardFrom depth => exact unwatched_notify _ rfl

theorem unwatched_queue (request : Request E) :
    (request.queue ctx).unwatched = request.queue ctx.unwatched := by
  cases request <;> exact unwatched_enqueue _ _ _

/-- Asking for work does not depend on observers either. -/
theorem unwatched_asked (limits : Limits) (memory : E.Memory) (profiler : Profiler)
    (sink? : Option Sink) (requests : List (Request E)) :
    (asked limits memory profiler sink? requests).unwatched =
      asked limits memory .off none requests := by
  have queued (ctx : Context E) :
      (requests.foldl Request.queue ctx).unwatched =
        requests.foldl Request.queue ctx.unwatched := by
    induction requests generalizing ctx with
    | nil => rfl
    | cons request rest ih =>
      rw [List.foldl_cons, List.foldl_cons, ih, unwatched_queue]
  exact queued _

end Context

/-- Native work and the run loop do not look at observers. -/
theorem synchronous_unwatched :
    Synchronous (E := E) fun _ ctx ctx' => ctx'.unwatched = ctx.unwatched where
  limits h := (congrArg Context.limits h :)
  forkLimit h := (congrArg (fun ctx => ctx.limits.forkLimit) h :)
  quota h := (congrArg Context.quota h :)
  overflowed h := (congrArg Context.overflowed h :)
  pending h := (congrArg Context.pending h :)
  frameDepth h _ := (congrArg (Context.frameDepth · _) h :)
  frameCallback h _ := (congrArg (Context.frameCallback · _) h :)
  record h events := by
    rw [Context.unwatched_record, Context.unwatched_record, h]
  trace h event := by
    rw [Context.unwatched_trace, Context.unwatched_trace, h]
  openScope h scope := by
    rw [Context.unwatched_openScope, Context.unwatched_openScope, h]
  closeScope h := by
    rw [Context.unwatched_closeScope, Context.unwatched_closeScope, h]
  charge h := (congrArg Context.charge h :)
  enqueue h _ action := by
    rw [Context.unwatched_enqueue, Context.unwatched_enqueue, h]
  discard h _ := by
    rw [Context.unwatched_discard, Context.unwatched_discard, h]
  scheduleBelow h _ callback returnParent actions := by
    rw [Context.unwatched_scheduleBelow, Context.unwatched_scheduleBelow, h]
  take {_ _ _ entry pending} h _ :=
    (congrArg (fun ctx => { ctx with pending, depth := entry.depth }) h :)
  settle {_ _ _ id} h := (congrArg (Context.settle · id) h :)
  promote h := (congrArg Context.promote h :)
  finish h outcome := (congrArg (fun ctx => (ctx.finish outcome).2) h :)

/-- Observation does not disturb execution.  Whatever native programs are asked of two new contexts
that differ only in their sinks and their profilers, both runs end in the same way.  After every step
and in the end the contexts differ only in their observers and in what the log tells of them: so the
same modifiers have been applied, the same commands executed, the same listeners told and the same
errors presented, in the same order, and the same work is left, with the same quota. -/
theorem observers_change_nothing (host : Host E) (limits : Limits) (memory : E.Memory)
    (profiler profiler' : Profiler) (sink? sink?' : Option Sink) {requests : List (Request E)}
    (native : ∀ request ∈ requests, request.isNative = true) :
    (∀ starts next,
      Turns host (Context.asked limits memory profiler sink? requests).promote starts next →
        ∃ starts' next',
          Turns host (Context.asked limits memory profiler' sink?' requests).promote starts' next' ∧
          starts'.map Start.entry = starts.map Start.entry ∧ next'.unwatched = next.unwatched) ∧
    ∃ outcome final final' enough,
      (∀ fuel, enough ≤ fuel →
        (Context.asked limits memory profiler sink? requests).run host fuel =
          some (outcome, final) ∧
        (Context.asked limits memory profiler' sink?' requests).run host fuel =
          some (outcome, final')) ∧
      final'.unwatched = final.unwatched := by
  have asked := Asked.of_requests limits memory profiler sink? requests native
  have same := Context.unwatched_asked limits memory profiler sink? requests
  have same' := Context.unwatched_asked limits memory profiler' sink?' requests
  have promoted : (Context.asked limits memory profiler' sink?' requests).promote.unwatched =
      (Context.asked limits memory profiler sink? requests).promote.unwatched :=
    congrArg Context.promote (same'.trans same.symm)
  refine ⟨fun starts next turns => synchronous_unwatched.turns promoted asked.native turns, ?_⟩
  rcases asked.native.bounded host with ⟨bound, -, -, ⟨outcome, final⟩, drained⟩
  rcases Course.of_drain drained with ⟨starts, course⟩
  obtain ⟨starts', final', course', -, finals⟩ :=
    synchronous_unwatched.course promoted asked.native course
  rcases course.exists_enough course' with ⟨enough, runs⟩
  exact ⟨outcome, final, final', enough, runs, finals⟩

/-- A command is executed for one of two sources, and the modifier fails for the other one.  With a
sink and a logging profiler the log is longer, but the same has been done. -/
theorem observers_change_nothing_of_error :
    ∃ (requests : List (Request Embedding.bare)) (sink : Sink) (final final' : Context .bare)
      (enough : Nat),
      (∀ fuel, enough ≤ fuel →
        (Context.asked {} () .off none requests).run .bare fuel = some (.completed, final) ∧
        (Context.asked {} () (.logging []) (some sink) requests).run .bare fuel =
          some (.completed, final')) ∧
      final.log.size = 5 ∧ final'.log.size = 10 ∧ final'.unwatched = final.unwatched := by
  let fork : Stage Embedding.bare :=
    { forked := true, redirect := .modifier fun source => .ok [source, { name := "sam" }] }
  let pick : Stage Embedding.bare :=
    { redirect := .modifier fun source =>
        if source.name = "sam" then .error (.failed "away") else .ok [source] }
  let chain : Chain Embedding.bare :=
    .ofStages "fork pick say" [fork, pick] (.command { run := fun _ => .ok 1 })
  let requests : List (Request Embedding.bare) := [.command chain { name := "alex" } .empty]
  have native : ∀ request ∈ requests, request.isNative = true := by
    intro request mem
    rw [List.mem_singleton.mp mem]
    rfl
  let sink : Sink := { serial := 0, label := "watch", kind := .recorder }
  obtain ⟨-, outcome, final, final', enough, runs, same⟩ :=
    observers_change_nothing .bare {} () .off (.logging []) none (some sink) native
  have ran : ((Context.asked {} () .off none requests).run .bare 8).map
      (fun result => (result.1, result.2.log.size)) = some (.completed, 5) := by
    decide +kernel
  have ran' : ((Context.asked {} () (.logging []) (some sink) requests).run .bare 8).map
      (fun result => (result.1, result.2.log.size)) = some (.completed, 10) := by
    decide +kernel
  rcases Option.map_eq_some_iff.mp ran with ⟨result, drained, seen⟩
  rcases Option.map_eq_some_iff.mp ran' with ⟨result', drained', seen'⟩
  cases Context.drain_unique drained fun fuel le => (runs fuel le).1
  cases Context.drain_unique drained' fun fuel le => (runs fuel le).2
  rcases Prod.mk.inj seen with ⟨rfl, short⟩
  rcases Prod.mk.inj seen' with ⟨-, long⟩
  exact ⟨requests, sink, final, final', enough, runs, short, long, same⟩

end CommandScheduler
