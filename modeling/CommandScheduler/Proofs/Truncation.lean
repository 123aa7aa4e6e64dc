import CommandScheduler.Proofs.Ending
import CommandScheduler.Proofs.Lockstep

/-!
# Truncation — what tighter limits change

The same native work is done in two contexts, one of them with a lower command limit and a shorter
queue.  Until it overflows, the two contexts differ in nothing but limits and quotas.  When it
overflows in the middle of a step, its queue is gone; but all that the rest of the step can see is
the frame of its own entry, which stays.  So a step always writes the same observable events, and
the tighter limits only decide after which step the run stops.
-/

namespace CommandScheduler

variable {E : Embedding}

namespace Context

/-- The observable events so far. -/
def observed (ctx : Context E) : List (Event E.Mark) :=
  ctx.log.toList.filter Event.isObservable

theorem observed_record (ctx : Context E) (events : List (Event E.Mark)) :
    (ctx.record events).observed = ctx.observed ++ events.filter Event.isObservable := by
  simp [observed, record]

end Context

/-! ## What a step sees and shows -/

/-- What native actions can see of a context, frames apart, and what they show of it. -/
structure View (E : Embedding) where
  forkLimit : Nat
  sink? : Option Sink
  depth : Nat
  /-- The serial number of the next frame. -/
  nextFrame : Nat
  observed : List (Event E.Mark)

namespace Context

def view (ctx : Context E) : View E :=
  { forkLimit := ctx.limits.forkLimit
    sink? := ctx.sink?
    depth := ctx.depth
    nextFrame := ctx.frames.next
    observed := ctx.observed }

theorem view_record (ctx : Context E) (events : List (Event E.Mark)) :
    (ctx.record events).view =
      { ctx.view with observed := ctx.view.observed ++ events.filter Event.isObservable } := by
  simp only [view, observed_record]
  rfl

/-- The second context has come out of the first one by changes of the queue alone. -/
structure Requeued (ctx ctx' : Context E) : Prop where
  limits : ctx'.limits = ctx.limits
  quota : ctx'.quota = ctx.quota
  view : ctx'.view = ctx.view

theorem Requeued.refl (ctx : Context E) : ctx.Requeued ctx :=
  ⟨rfl, rfl, rfl⟩

theorem Requeued.trans {ctx ctx' ctx'' : Context E} (first : ctx.Requeued ctx')
    (second : ctx'.Requeued ctx'') : ctx.Requeued ctx'' :=
  ⟨second.limits.trans first.limits, second.quota.trans first.quota, second.view.trans first.view⟩

/-- A notice is not observable. -/
theorem requeued_notify (ctx : Context E) (notice : Notice) : ctx.Requeued (ctx.notify notice) := by
  have unseen : (ctx.notify notice).observed = ctx.observed := by
    rw [notify, observed_record]
    exact List.append_nil _
  exact ⟨rfl, rfl, by simp only [view, unseen]; rfl⟩

theorem requeued_frames (ctx : Context E) {frames : FrameTable}
    (next : frames.next = ctx.frames.next) (overflowed : Bool) (staging : Array (Entry E))
    (pending : Backlog E) : ctx.Requeued { ctx with frames, overflowed, staging, pending } :=
  ⟨rfl, rfl, by simp only [view, next]; rfl⟩

theorem requeued_enqueue (ctx : Context E) (id : FrameId) (action : Action E) :
    ctx.Requeued (ctx.enqueue id action) := by
  rcases ctx.enqueue_cases id action with
    ⟨-, eq⟩ | ⟨-, eq⟩ | ⟨-, -, eq⟩ | ⟨-, -, depth, frames, retained, eq⟩
  · rw [eq]
    refine ctx.requeued_frames ?_ _ _ _
    simp [FrameTable.next_releaseAll]
  · rw [eq]
    exact .refl ctx
  · rw [eq]
    exact ctx.requeued_notify _
  · rw [eq]
    rcases Option.map_eq_some_iff.mp retained with ⟨slot, -, same⟩
    cases same
    refine ctx.requeued_frames ?_ _ _ _
    rfl

theorem requeued_schedule (ctx : Context E) (id : FrameId) (actions : List (Action E)) :
    ctx.Requeued (ctx.schedule id actions) := by
  rw [schedule_eq_foldl]
  exact List.foldlRecOn (motive := ctx.Requeued) (fan actions) _ (.refl ctx)
    fun after h action _ => h.trans (after.requeued_enqueue id action)

theorem requeued_discard (ctx : Context E) (id : FrameId) : ctx.Requeued (ctx.discard id) := by
  unfold discard rollBack
  split
  · refine ctx.requeued_frames ?_ _ _ _
    simp [FrameTable.next_releaseAll]
  · refine Requeued.trans (ctx.requeued_frames ?_ _ _ _) (requeued_notify _ _)
    simp [FrameTable.next_releaseAll]

/-- The context without its limits. -/
def unlimited (ctx : Context E) : Context E :=
  { ctx with limits := {}, quota := ⟨0⟩ }

theorem unlimited_discard (ctx : Context E) (id : FrameId) :
    (ctx.discard id).unlimited = ctx.unlimited.discard id := by
  have scope : ctx.unlimited.scopeOf id = ctx.scopeOf id := rfl
  unfold discard
  rw [scope]
  cases ctx.scopeOf id <;> rfl

end Context

/-! ## The same work under tighter limits -/

/-- Two contexts at the same point of the same work, the first one with tighter limits. -/
structure Curbed (running : List FrameId) (tight loose : Context E) : Prop where
  view : loose.view = tight.view
  /-- The frames of the entries that are being executed are the same in both. -/
  frames : ∀ id ∈ running, loose.frame? id = tight.frame? id
  room : tight.limits.maxQueueDepth ≤ loose.limits.maxQueueDepth
  funds : tight.quota.remaining ≤ loose.quota.remaining
  /-- Before an overflow nothing else differs. -/
  same : tight.overflowed = false → loose.unlimited = tight.unlimited
  tightAccounted : tight.Accounted running
  looseAccounted : loose.Accounted running

namespace Curbed

variable {running : List FrameId} {tight loose tight' loose' : Context E} {id : FrameId}

/-- Contexts that differ in nothing but their limits. -/
theorem of_same (same : loose.unlimited = tight.unlimited)
    (forkLimit : loose.limits.forkLimit = tight.limits.forkLimit)
    (room : tight.limits.maxQueueDepth ≤ loose.limits.maxQueueDepth)
    (funds : tight.quota.remaining ≤ loose.quota.remaining)
    (tightAccounted : tight.Accounted running) (looseAccounted : loose.Accounted running) :
    Curbed running tight loose := by
  have seen : { loose.view with forkLimit := 0 } = { tight.view with forkLimit := 0 } :=
    congrArg (fun ctx => { ctx.view with forkLimit := 0 }) same
  have view : loose.view = tight.view := by
    simpa [Context.view, forkLimit] using seen
  have frames : loose.frames = tight.frames := (congrArg Context.frames same :)
  exact ⟨view, fun id _ => by simp only [Context.frame?, frames], room, funds, fun _ => same,
    tightAccounted, looseAccounted⟩

/-- After an operation that works on both contexts in the same way. -/
theorem step (h : Curbed running tight loose) (evolves : tight.Evolves running tight')
    (evolves' : loose.Evolves running loose') (limits : tight'.limits = tight.limits)
    (limits' : loose'.limits = loose.limits)
    (funds : tight'.quota.remaining ≤ loose'.quota.remaining) (view : loose'.view = tight'.view)
    (same : tight'.overflowed = false → loose'.unlimited = tight'.unlimited) :
    Curbed running tight' loose' where
  view := view
  frames := by
    intro id mem
    calc
      loose'.frame? id
          = loose.frame? id := h.looseAccounted.frame?_of_running evolves' mem mem
      _ = tight.frame? id := h.frames id mem
      _ = tight'.frame? id := (h.tightAccounted.frame?_of_running evolves mem mem).symm
  room := by
    rw [limits, limits']
    exact h.room
  funds := funds
  same := same
  tightAccounted := evolves.accounted
  looseAccounted := evolves'.accounted

/-! ### Questions -/

theorem sink (h : Curbed running tight loose) : loose.sink? = tight.sink? :=
  (congrArg View.sink? h.view :)

theorem depth (h : Curbed running tight loose) : loose.depth = tight.depth :=
  (congrArg View.depth h.view :)

theorem forkLimit (h : Curbed running tight loose) :
    loose.limits.forkLimit = tight.limits.forkLimit :=
  (congrArg View.forkLimit h.view :)

theorem observed (h : Curbed running tight loose) : loose.observed = tight.observed :=
  (congrArg View.observed h.view :)

theorem frameDepth (h : Curbed running tight loose) (mem : id ∈ running) :
    loose.frameDepth id = tight.frameDepth id := by
  simp only [Context.frameDepth, h.frames id mem, h.depth]

theorem frameCallback (h : Curbed running tight loose) (mem : id ∈ running) :
    loose.frameCallback id = tight.frameCallback id := by
  simp only [Context.frameCallback, h.frames id mem]

theorem scopeOf (h : Curbed running tight loose) (mem : id ∈ running) :
    loose.scopeOf id = tight.scopeOf id := by
  simp only [Context.scopeOf, h.frames id mem, h.depth]

/-! ### Operations -/

theorem record (h : Curbed running tight loose) (events : List (Event E.Mark)) :
    Curbed running (tight.record events) (loose.record events) := by
  refine h.step (h.tightAccounted.record events) (h.looseAccounted.record events) rfl rfl h.funds ?_
    fun intact => congrArg (Context.record · events) (h.same intact)
  rw [Context.view_record, Context.view_record, h.view]

theorem trace (h : Curbed running tight loose) (event : TraceEvent) :
    Curbed running (tight.trace event) (loose.trace event) := by
  unfold Context.trace
  rw [h.sink]
  cases tight.sink? with
  | none => exact h
  | some sink => exact h.record _

/-- Scopes are not observable. -/
theorem profile (h : Curbed running tight loose)
    {step : Profiler → Profiler × List (Event E.Mark)}
    (unseen : ∀ profiler, (step profiler).2.filter Event.isObservable = []) :
    Curbed running
      ({ tight with profiler := (step tight.profiler).1 }.record (step tight.profiler).2)
      ({ loose with profiler := (step loose.profiler).1 }.record (step loose.profiler).2) := by
  let stepped (ctx : Context E) : Context E :=
    { ctx with profiler := (step ctx.profiler).1 }.record (step ctx.profiler).2
  have view (ctx : Context E) : (stepped ctx).view = ctx.view := by
    rw [Context.view_record, unseen, List.append_nil]
    rfl
  refine h.step (h.tightAccounted.congr rfl rfl rfl rfl rfl)
    (h.looseAccounted.congr rfl rfl rfl rfl rfl) rfl rfl h.funds ?_ fun intact => congrArg stepped (h.same intact)
  exact (view loose).trans (h.view.trans (view tight).symm)

theorem openScope (h : Curbed running tight loose) (scope : String) :
    Curbed running (tight.openScope scope) (loose.openScope scope) :=
  h.profile fun profiler => profiler.enter_unseen scope

theorem closeScope (h : Curbed running tight loose) :
    Curbed running tight.closeScope loose.closeScope :=
  h.profile fun profiler => profiler.leave_unseen

theorem charge (h : Curbed running tight loose) : Curbed running tight.charge loose.charge := by
  refine h.step (h.tightAccounted.congr rfl rfl rfl rfl rfl)
    (h.looseAccounted.congr rfl rfl rfl rfl rfl) rfl rfl ?_ h.view h.same
  have funds := h.funds
  simp only [Context.charge, Quota.charge]
  omega

theorem pushFrame (h : Curbed running tight loose) (frame : Frame) :
    (loose.pushFrame frame).1 = (tight.pushFrame frame).1 ∧
      Curbed running (tight.pushFrame frame).2 (loose.pushFrame frame).2 := by
  have next : loose.frames.next = tight.frames.next := (congrArg View.nextFrame h.view :)
  refine ⟨congrArg FrameId.mk next, ?_⟩
  refine h.step (h.tightAccounted.pushFrame frame) (h.looseAccounted.pushFrame frame) rfl rfl
    h.funds ?_ fun intact => congrArg (fun ctx => (ctx.pushFrame frame).2) (h.same intact)
  exact (congrArg (fun view : View E => { view with nextFrame := view.nextFrame + 1 }) h.view :)

/-- After an operation that only changes the queue. -/
theorem requeue (h : Curbed running tight loose) (evolves : tight.Evolves running tight')
    (evolves' : loose.Evolves running loose') (requeued : tight.Requeued tight')
    (requeued' : loose.Requeued loose')
    (same : tight'.overflowed = false → loose'.unlimited = tight'.unlimited) :
    Curbed running tight' loose' := by
  refine h.step evolves evolves' requeued.limits requeued'.limits ?_ ?_ same
  · rw [requeued.quota, requeued'.quota]
    exact h.funds
  · rw [requeued.view, requeued'.view, h.view]

/-- Where the tighter limits have room for an action, so have the looser ones. -/
theorem enqueue (h : Curbed running tight loose) (id : FrameId) (action : Action E) :
    Curbed running (tight.enqueue id action) (loose.enqueue id action) := by
  refine h.requeue (h.tightAccounted.enqueue id action) (h.looseAccounted.enqueue id action)
    (tight.requeued_enqueue id action) (loose.requeued_enqueue id action) ?_
  intro after
  have notFull : ¬ tight.limits.maxQueueDepth < tight.queued := by
    intro full
    simp [Context.overflowed_enqueue_of_full full] at after
  have leads : Leads running tight running (tight.enqueue id action) :=
    Leads.refl.deed (.effect (.enqueue id action))
  have intact := leads.intact after
  have same := h.same intact
  have queued : loose.queued = tight.queued := (congrArg Context.queued same :)
  have notFull' : ¬ loose.limits.maxQueueDepth < loose.queued := by
    have room := h.room
    omega
  have intact' : loose.overflowed = false := (congrArg Context.overflowed same :).trans intact
  have frames : loose.frames = tight.frames := (congrArg Context.frames same :)
  simp only [Context.enqueue, notFull, notFull', intact, intact', frames, if_false,
    Bool.false_eq_true]
  cases tight.frames.retain? id with
  | none => exact (congrArg (Context.notify · .frameReleased) same :)
  | some held =>
    rcases held with ⟨depth, frames⟩
    let entry : Entry E := { depth, frame := id, action }
    exact (congrArg (fun ctx : Context E =>
      { ctx with frames, overflowed := false, staging := ctx.staging.push entry }) same :)

theorem schedule (h : Curbed running tight loose) (id : FrameId) (actions : List (Action E)) :
    Curbed running (tight.schedule id actions) (loose.schedule id actions) := by
  rw [Context.schedule_eq_foldl, Context.schedule_eq_foldl]
  induction fan actions generalizing tight loose with
  | nil => exact h
  | cons action rest ih => exact ih (h.enqueue id action)

/-- A new frame gets the same handle in both contexts. -/
theorem scheduleIn (h : Curbed running tight loose) (frame : Frame) (actions : List (Action E)) :
    Curbed running
      ((tight.pushFrame frame).2.schedule (tight.pushFrame frame).1 actions)
      ((loose.pushFrame frame).2.schedule (loose.pushFrame frame).1 actions) := by
  rcases h.pushFrame frame with ⟨id, pushed⟩
  rw [id]
  exact pushed.schedule _ actions

theorem discard (h : Curbed running tight loose) (id : FrameId) :
    Curbed running (tight.discard id) (loose.discard id) := by
  refine h.requeue (h.tightAccounted.discard id) (h.looseAccounted.discard id)
    (tight.requeued_discard id) (loose.requeued_discard id) ?_
  intro after
  have leads : Leads running tight running (tight.discard id) :=
    Leads.refl.deed (.effect (.discard id))
  rw [Context.unlimited_discard, Context.unlimited_discard, h.same (leads.intact after)]

/-- Native work does the same under both limits, even if the queue overflows meanwhile. -/
theorem lockstep : Lockstep (E := E) Curbed where
  forkLimit := forkLimit
  frameDepth := frameDepth
  frameCallback := frameCallback
  record := record
  trace := trace
  openScope := openScope
  closeScope := closeScope
  charge := charge
  enqueue h _ := h.enqueue _
  discard h _ := h.discard _
  scheduleBelow h mem callback returnParent actions := by
    unfold Context.scheduleBelow
    rw [h.frameDepth mem, h.scopeOf mem]
    exact h.scheduleIn _ actions

end Curbed

/-! ## The log only grows -/

namespace Context

theorem observed_prefix_record (ctx : Context E) (events : List (Event E.Mark)) :
    ctx.observed <+: (ctx.record events).observed := by
  rw [observed_record]
  exact List.prefix_append _ _

theorem observed_prefix_trace (ctx : Context E) (event : TraceEvent) :
    ctx.observed <+: (ctx.trace event).observed := by
  rcases ctx.exists_trace_eq event with ⟨events, eq⟩
  rw [eq]
  exact ctx.observed_prefix_record events

theorem Requeued.observed {ctx ctx' : Context E} (h : ctx.Requeued ctx') :
    ctx'.observed = ctx.observed :=
  (congrArg View.observed h.view :)

/-- No deed takes an observable event back. -/
theorem observed_prefix_deed (deed : Deed E) (ctx : Context E) :
    ctx.observed <+: (deed.apply ctx).2.observed := by
  have requeued {mid after : Context E} (h : mid.Requeued after) :
      mid.observed <+: after.observed :=
    h.observed ▸ List.prefix_refl _
  cases deed with
  | record events => exact ctx.observed_prefix_record events
  | openScope scope => exact Context.observed_prefix_record { ctx with profiler := _ } _
  | closeScope => exact Context.observed_prefix_record { ctx with profiler := _ } _
  | effect effect =>
    cases effect with
    | enqueue frame action => exact requeued (ctx.requeued_enqueue frame action)
    | schedule frame actions => exact requeued (ctx.requeued_schedule frame actions)
    | queueCommand chain source callback =>
      let pushed := ctx.pushTopFrame callback
      exact (requeued (pushed.2.requeued_enqueue pushed.1 (.topLevel chain source)) :)
    | queueCall function source callback =>
      let pushed := ctx.pushTopFrame callback
      exact (requeued (pushed.2.requeued_enqueue pushed.1
        (.call function (source.callback.chain callback) false source)) :)
    | discard frame => exact requeued (ctx.requeued_discard frame)
    | discardFrom depth =>
      exact Context.observed_prefix_record { ctx with pending := _, frames := _ } _
    | trace event => exact ctx.observed_prefix_trace event
    | present source error forked =>
      exact (ctx.observed_prefix_trace _).trans (observed_prefix_record _ _)
    | fire callback result => exact ctx.observed_prefix_record _
    | mark mark => exact ctx.observed_prefix_record _
    | ask | pushFrame | charge | install | load | store => exact List.prefix_refl _

end Context

theorem Leads.observed_prefix {running running' : List FrameId} {ctx ctx' : Context E}
    (leads : Leads running ctx running' ctx') : ctx.observed <+: ctx'.observed := by
  induction leads with
  | refl => exact List.prefix_refl _
  | deed deed _ ih => exact ih.trans (Context.observed_prefix_deed deed _)
  | promote _ ih => exact ih
  | pop _ popped ih =>
    obtain ⟨pending, -, rfl⟩ := Context.pop?_eq_some popped
    exact ih
  | settle _ ih => exact ih
  | finish _ _ ih => exact ih

theorem Course.observed_prefix {host : Host E} {ctx final : Context E} {starts : List (Start E)}
    {outcome : Outcome} (course : Course host ctx starts outcome final) :
    ctx.observed <+: final.observed := by
  rcases course.exists_drain with ⟨fuel, drained⟩
  have leads : Leads [] ctx [] final := Leads.drain drained
  exact leads.observed_prefix

/-! ## Runs -/

/-- A run that takes an entry shows at least what the entry shows, and goes on after it unless the
queue has overflowed. -/
theorem Course.of_performed {host : Host E} {ctx started after final : Context E} {entry : Entry E}
    {fuel : Nat} {starts : List (Start E)} {outcome : Outcome}
    (course : Course host ctx starts outcome final) (funded : ctx.quota.isExhausted = false)
    (popped : ctx.pop? = some (entry, started))
    (performed : Context.perform host fuel entry.action entry.frame started = some after) :
    after.observed <+: final.observed ∧
      (after.overflowed = false →
        ∃ rest, Course host (after.settle entry.frame).promote rest outcome final) := by
  cases course with
  | exhausted exhausted => simp [funded] at exhausted
  | completed _ empty => simp [popped] at empty
  | @overflowed _ after' start fuel' _ popped' performed' overflowed =>
    cases popped.symm.trans popped'
    obtain rfl := Context.perform_unique performed performed'
    refine ⟨Context.observed_prefix_record (after.settle _) _, ?_⟩
    intro intact
    exact absurd (overflowed.symm.trans intact) Bool.noConfusion
  | @turn _ next _ start rest _ turn course =>
    rcases turn with ⟨-, popped', fuel', after', performed', -, rfl⟩
    cases popped.symm.trans popped'
    obtain rfl := Context.perform_unique performed performed'
    exact ⟨course.observed_prefix, fun _ => ⟨rest, course⟩⟩

namespace Curbed

variable {running : List FrameId} {tight loose started : Context E}

/-- Both contexts take the same entry. -/
theorem pop (h : Curbed running tight loose) {entry : Entry E}
    (popped : tight.pop? = some (entry, started)) :
    ∃ started', loose.pop? = some (entry, started') ∧
      Curbed (entry.frame :: running) started started' := by
  have same := h.same (h.tightAccounted.intact_of_pop popped)
  have pending : loose.pending = tight.pending := (congrArg Context.pending same :)
  have evolves := h.tightAccounted.pop popped
  rcases Option.map_eq_some_iff.mp popped with ⟨⟨first, backlog⟩, taken, eq⟩
  cases eq
  let started' : Context E := { loose with pending := backlog, depth := entry.depth }
  have popped' : loose.pop? = some (entry, started') := by
    simp [Context.pop?, pending, taken, started']
  refine ⟨started', popped', ?_⟩
  exact .of_same (congrArg (fun ctx : Context E =>
    { ctx with pending := backlog, depth := entry.depth }) same :) h.forkLimit h.room h.funds
    evolves.accounted (h.looseAccounted.pop popped').accounted

/-- Both contexts execute the same entry, even if the queue overflows meanwhile. -/
theorem execute {host : Host E} (h : Curbed running tight loose) {entry : Entry E}
    (popped : tight.pop? = some (entry, started)) (native : entry.action.isNative = true)
    {fuel : Nat} {after : Context E}
    (performed : Context.perform host fuel entry.action entry.frame started = some after) :
    ∃ started' after', loose.pop? = some (entry, started') ∧
      Context.perform host 1 entry.action entry.frame started' = some after' ∧
      Curbed (entry.frame :: running) after after' := by
  obtain ⟨started', popped', curbed⟩ := h.pop popped
  obtain ⟨after₁, after', performed₁, performed', curbed'⟩ :=
    lockstep.perform host curbed List.mem_cons_self native
  obtain rfl := Context.perform_unique performed performed₁
  exact ⟨started', after', popped', performed', curbed'⟩

/-- Both contexts go on after a step. -/
theorem settle {frame : FrameId} (h : Curbed (frame :: running) tight loose)
    (intact : tight.overflowed = false) :
    Curbed running (tight.settle frame).promote (loose.settle frame).promote :=
  .of_same (congrArg (fun ctx : Context E => (ctx.settle frame).promote) (h.same intact) :)
    h.forkLimit h.room h.funds h.tightAccounted.settle.accounted.promote.accounted
    h.looseAccounted.settle.accounted.promote.accounted

/-- Where the tighter limits leave quota, so do the looser ones. -/
theorem funded (h : Curbed running tight loose) (funded : tight.quota.isExhausted = false) :
    loose.quota.isExhausted = false := by
  have funds := h.funds
  simp only [Quota.isExhausted, decide_eq_false_iff_not] at funded ⊢
  omega

/-- Of two runs of the same native work, the one under tighter limits shows the beginning of what
the other one shows. -/
theorem course {host : Host E} (h : Curbed [] tight loose) {starts : List (Start E)}
    {outcome : Outcome} {final : Context E} (course : Course host tight starts outcome final)
    (orderly : tight.overflowed = false → Orderly tight) {starts' : List (Start E)}
    {outcome' : Outcome} {final' : Context E}
    (course' : Course host loose starts' outcome' final') : final.observed <+: final'.observed := by
  induction course generalizing loose starts' with
  | @exhausted tight _ =>
    have stopped : ((tight.notify (.limitReached tight.limits.commandLimit)).finish
        .quotaExhausted).2.observed = tight.observed := (tight.requeued_notify _).observed
    rw [stopped, ← h.observed]
    exact course'.observed_prefix
  | @completed tight _ _ =>
    have stopped : (tight.finish .completed).2.observed = tight.observed := rfl
    rw [stopped, ← h.observed]
    exact course'.observed_prefix
  | @overflowed tight after start fuel funded popped performed overflowed =>
    have native := (orderly (h.tightAccounted.intact_of_pop popped)).native_of_pop popped
    obtain ⟨started', after', popped', performed', curbed⟩ := h.execute popped native performed
    -- The looser limits may bear more of what the step queues, but it shows the same.
    have shown := (course'.of_performed (h.funded funded) popped' performed').1
    have stopped := ((after.settle start.entry.frame).requeued_notify
      (.queueOverflowed (after.settle start.entry.frame).limits.maxQueueDepth)).observed
    have settled : (after.settle start.entry.frame).observed = after.observed := rfl
    rw [curbed.observed, ← settled, ← stopped] at shown
    exact shown
  | @turn tight next final start starts outcome turn _ ih =>
    rcases turn with ⟨funded, popped, fuel, after, performed, intact, rfl⟩
    have turn : Turn host tight start _ := ⟨funded, popped, fuel, after, performed, intact, rfl⟩
    have orderly := orderly (h.tightAccounted.intact_of_pop popped)
    obtain ⟨started', after', popped', performed', curbed⟩ :=
      h.execute popped (orderly.native_of_pop popped) performed
    have same := curbed.same intact
    have intact' : after'.overflowed = false := (congrArg Context.overflowed same :).trans intact
    obtain ⟨rest, later⟩ :=
      (course'.of_performed (h.funded funded) popped' performed').2 intact'
    exact ih (curbed.settle intact) (fun _ => orderly.turn turn) later

/-! ## Requests -/

theorem queue (h : Curbed running tight loose) (request : Request E) :
    Curbed running (request.queue tight) (request.queue loose) := by
  -- A request is a single action that is queued in a new frame.
  cases request with
  | command chain source callback =>
    unfold Request.queue Context.queueCommand Context.pushTopFrame
    rw [h.depth]
    exact h.scheduleIn _ [_]
  | call function source callback =>
    unfold Request.queue Context.queueCall Context.pushTopFrame
    rw [h.depth]
    exact h.scheduleIn _ [_]

theorem asked {limits limits' : Limits} (forkLimit : limits'.forkLimit = limits.forkLimit)
    (commandLimit : limits.commandLimit ≤ limits'.commandLimit)
    (maxQueueDepth : limits.maxQueueDepth ≤ limits'.maxQueueDepth) (memory : E.Memory)
    (profiler : Profiler) (sink? : Option Sink) (requests : List (Request E)) :
    Curbed [] (.asked limits memory profiler sink? requests)
      (.asked limits' memory profiler sink? requests) := by
  have accounted (limits : Limits) :=
    ((Context.Accounted.create limits memory profiler : Context.Accounted (E := E) [] _).install
      sink?).accounted
  have funds : (Quota.ofLimit limits.commandLimit).remaining ≤
      (Quota.ofLimit limits'.commandLimit).remaining := by
    simp only [Quota.ofLimit]
    omega
  have new : Curbed [] ((Context.create limits memory profiler : Context E).install sink?)
      ((Context.create limits' memory profiler).install sink?) :=
    .of_same rfl forkLimit maxQueueDepth funds (accounted limits) (accounted limits')
  unfold Context.asked
  generalize (Context.create limits memory profiler : Context E).install sink? = tight at new
  generalize (Context.create limits' memory profiler : Context E).install sink? = loose at new
  induction requests generalizing tight loose with
  | nil => exact new
  | cons request rest ih => exact ih _ _ (new.queue request)

theorem promote (h : Curbed running tight loose) :
    Curbed running tight.promote loose.promote :=
  h.step h.tightAccounted.promote h.looseAccounted.promote rfl rfl h.funds h.view
    fun intact => congrArg Context.promote (h.same intact)

end Curbed

/-- Limits only truncate.  Whatever native programs are asked of a new context, running them ends,
and with a lower command limit, a shorter queue, or both, the run shows the beginning of what it
would have shown: the modifiers applied, the commands executed, the results told to callbacks, the
errors presented and the trace events, in their order.  Overflows in the middle of a step or while
the requests are being queued make no difference to this. -/
theorem limits_truncate (host : Host E) {limits limits' : Limits}
    (forkLimit : limits'.forkLimit = limits.forkLimit)
    (commandLimit : limits.commandLimit ≤ limits'.commandLimit)
    (maxQueueDepth : limits.maxQueueDepth ≤ limits'.maxQueueDepth) (memory : E.Memory)
    (profiler : Profiler) (sink? : Option Sink) {requests : List (Request E)}
    (native : ∀ request ∈ requests, request.isNative = true) :
    ∃ outcome final outcome' final' enough,
      (∀ fuel, enough ≤ fuel →
        (Context.asked limits memory profiler sink? requests).run host fuel =
          some (outcome, final) ∧
        (Context.asked limits' memory profiler sink? requests).run host fuel =
          some (outcome', final')) ∧
      final.log.toList.filter Event.isObservable <+:
        final'.log.toList.filter Event.isObservable := by
  obtain ⟨starts, outcome, final, course⟩ :=
    Context.asked_ends host limits memory profiler sink? native
  obtain ⟨starts', outcome', final', course'⟩ :=
    Context.asked_ends host limits' memory profiler sink? native
  have asked := Asked.of_requests limits memory profiler sink? requests native
  have curbed := Curbed.asked forkLimit commandLimit maxQueueDepth memory profiler sink? requests
  have shown := curbed.promote.course course asked.orderly course'
  rcases course.exists_drain with ⟨enough, drained⟩
  rcases course'.exists_drain with ⟨enough', drained'⟩
  refine ⟨outcome, final, outcome', final', max enough enough', ?_, shown⟩
  intro fuel le
  exact ⟨Context.drain_mono (Nat.le_trans (Nat.le_max_left _ _) le) drained,
    Context.drain_mono (Nat.le_trans (Nat.le_max_right _ _) le) drained'⟩

/-- A command is forked for two sources, and only one of the two executions fits into the short
queue. -/
theorem limits_truncate_of_overflow :
    ∃ (requests : List (Request Embedding.bare)) (final final' : Context .bare) (enough : Nat),
      (∀ fuel, enough ≤ fuel →
        (Context.asked { maxQueueDepth := 0 } () .off none requests).run .bare fuel =
          some (.overflowed, final) ∧
        (Context.asked {} () .off none requests).run .bare fuel = some (.completed, final')) ∧
      final.observed.length = 1 ∧ final'.observed.length = 3 ∧
      final.log.toList.filter Event.isObservable <+:
        final'.log.toList.filter Event.isObservable := by
  let fork : Stage Embedding.bare :=
    { forked := true, redirect := .modifier fun source => .ok [source, source] }
  let chain : Chain Embedding.bare :=
    .ofStages "fork say" [fork] (.command { run := fun _ => .ok 1 })
  let requests : List (Request Embedding.bare) := [.command chain { name := "alex" } .empty]
  have native : ∀ request ∈ requests, request.isNative = true := by
    intro request mem
    rw [List.mem_singleton.mp mem]
    rfl
  let tight : Limits := { maxQueueDepth := 0 }
  let loose : Limits := {}
  have forkLimit : loose.forkLimit = tight.forkLimit := rfl
  have commandLimit : tight.commandLimit ≤ loose.commandLimit := Nat.le_refl _
  have maxQueueDepth : tight.maxQueueDepth ≤ loose.maxQueueDepth := Nat.zero_le _
  obtain ⟨outcome, final, outcome', final', enough, runs, shown⟩ :=
    limits_truncate .bare forkLimit commandLimit maxQueueDepth () .off none native
  -- Both runs are short enough to be followed to their ends.
  have ran : ((Context.asked { maxQueueDepth := 0 } () .off none requests).run .bare 8).map
      (fun result => (result.1, result.2.observed.length)) = some (.overflowed, 1) := by
    decide +kernel
  have ran' : ((Context.asked {} () .off none requests).run .bare 8).map
      (fun result => (result.1, result.2.observed.length)) = some (.completed, 3) := by
    decide +kernel
  rcases Option.map_eq_some_iff.mp ran with ⟨result, drained, seen⟩
  rcases Option.map_eq_some_iff.mp ran' with ⟨result', drained', seen'⟩
  rcases runs (max 8 enough) (Nat.le_max_right 8 enough) with ⟨late, late'⟩
  cases late.symm.trans (Context.drain_mono (Nat.le_max_left 8 enough) drained)
  cases late'.symm.trans (Context.drain_mono (Nat.le_max_left 8 enough) drained')
  rcases Prod.mk.inj seen with ⟨rfl, one⟩
  rcases Prod.mk.inj seen' with ⟨rfl, three⟩
  exact ⟨requests, final, final', enough, runs, one, three, shown⟩

end CommandScheduler
