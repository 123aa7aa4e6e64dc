import CommandScheduler.Proofs.Termination

/-!
# Lockstep — the same native work in two contexts

Native work looks at little of its context and changes it only by a few operations.  A relation
between contexts that all of these operations keep, and under which the little that is looked at is
the same, is therefore kept by every native action; and if the run loop cannot tell the two contexts
apart either, they go through the same run.
-/

namespace CommandScheduler

variable {E : Embedding}

namespace Context

/-- Queues actions in a new frame below another one, as a call does. -/
def scheduleBelow (ctx : Context E) (id : FrameId) (callback : Callback) (returnParent : Bool)
    (actions : List (Action E)) : Context E :=
  let depth := ctx.frameDepth id
  let scope := if returnParent then ctx.scopeOf id else .discardFrom (depth + 1)
  let (inner, ctx) := ctx.pushFrame { depth := depth + 1, callback, scope }
  ctx.schedule inner actions

/-- A call that has something to do queues it below the frame of the call. -/
theorem callFunction_eq (function : Function E) (callback : Callback) (returnParent : Bool)
    (source : Source) (frame : FrameId) (ctx : Context E) :
    ctx.callFunction function callback returnParent source frame =
      let depth := ctx.charge.frameDepth frame
      let called := (ctx.charge.trace (.called depth function.id function.lines.length)).notify
        (.called function.id depth function.lines.length)
      if function.lines.isEmpty then
        called
      else
        called.scheduleBelow frame callback returnParent (function.lines.map (.line · source)) := by
  -- Neither the sink nor the log has a say in how deep the frame is.
  rcases ctx.charge.exists_trace_eq (.called (ctx.charge.frameDepth frame) function.id
    function.lines.length) with ⟨events, eq⟩
  simp only [callFunction, eq]
  rfl

end Context

/-- A relation that native work keeps.  It may speak of the frames whose entries are being executed,
which are the only ones that the work looks at. -/
structure Lockstep (R : List FrameId → Context E → Context E → Prop) : Prop where
  forkLimit : ∀ {running ctx ctx'}, R running ctx ctx' →
    ctx'.limits.forkLimit = ctx.limits.forkLimit
  frameDepth : ∀ {running ctx ctx' id}, R running ctx ctx' → id ∈ running →
    ctx'.frameDepth id = ctx.frameDepth id
  frameCallback : ∀ {running ctx ctx' id}, R running ctx ctx' → id ∈ running →
    ctx'.frameCallback id = ctx.frameCallback id
  record : ∀ {running ctx ctx'}, R running ctx ctx' → ∀ events,
    R running (ctx.record events) (ctx'.record events)
  trace : ∀ {running ctx ctx'}, R running ctx ctx' → ∀ event,
    R running (ctx.trace event) (ctx'.trace event)
  openScope : ∀ {running ctx ctx'}, R running ctx ctx' → ∀ scope,
    R running (ctx.openScope scope) (ctx'.openScope scope)
  closeScope : ∀ {running ctx ctx'}, R running ctx ctx' →
    R running ctx.closeScope ctx'.closeScope
  charge : ∀ {running ctx ctx'}, R running ctx ctx' → R running ctx.charge ctx'.charge
  enqueue : ∀ {running ctx ctx' id}, R running ctx ctx' → id ∈ running → ∀ action,
    R running (ctx.enqueue id action) (ctx'.enqueue id action)
  discard : ∀ {running ctx ctx' id}, R running ctx ctx' → id ∈ running →
    R running (ctx.discard id) (ctx'.discard id)
  scheduleBelow : ∀ {running ctx ctx' id}, R running ctx ctx' → id ∈ running →
    ∀ callback returnParent actions,
      R running (ctx.scheduleBelow id callback returnParent actions)
        (ctx'.scheduleBelow id callback returnParent actions)

namespace Lockstep

variable {R : List FrameId → Context E → Context E → Prop} {running : List FrameId}
  {ctx ctx' : Context E} {frame : FrameId}

theorem present (same : Lockstep R) (h : R running ctx ctx') (source : Source)
    (error : CommandError) (forked : Bool) :
    R running (ctx.present source error forked) (ctx'.present source error forked) :=
  same.record (same.trace h _) _

theorem schedule (same : Lockstep R) (h : R running ctx ctx') (mem : frame ∈ running)
    (actions : List (Action E)) :
    R running (ctx.schedule frame actions) (ctx'.schedule frame actions) := by
  rw [Context.schedule_eq_foldl, Context.schedule_eq_foldl]
  induction fan actions generalizing ctx ctx' with
  | nil => exact h
  | cons action rest ih => exact ih (same.enqueue h mem action)

/-! ## Resolving a chain -/

theorem applyModifier (same : Lockstep R) (h : R running ctx ctx') (apply : Modifier)
    (origin : Source) (forked : Bool) (yielded : Array Source) (sources : List Source) :
    ∃ result after after',
      ctx.applyModifier apply origin forked yielded sources = (result, after) ∧
      ctx'.applyModifier apply origin forked yielded sources = (result, after') ∧
      R running after after' := by
  induction sources generalizing yielded ctx ctx' with
  | nil => exact ⟨_, ctx, ctx', rfl, rfl, h⟩
  | cons source rest ih =>
    have applied := same.record h [.applied source.name]
    simp only [Context.applyModifier]
    cases apply source with
    | ok sources =>
      -- The fork limit is the only limit that a step looks at.
      simp only [same.forkLimit applied]
      split
      · exact ⟨none, _, _, rfl, rfl, same.present (same.record applied _) _ _ _⟩
      · exact ih applied _
    | error error =>
      have presented := same.present applied source error forked
      cases forked with
      | true => exact ih presented _
      | false => exact ⟨none, _, _, rfl, rfl, presented⟩

theorem returnRun (same : Lockstep R) (h : R running ctx ctx') (mem : frame ∈ running)
    (origin : Source) (sources : List Source) (chain next : Chain E)
    (ahead : chain.next? = some next) (flags : Flags) :
    R running ((Executor.returnRun origin sources chain flags frame).apply ctx)
      ((Executor.returnRun origin sources chain flags frame).apply ctx') := by
  simp only [Routine.apply, ← Procedure.run_ofRoutine,
    Procedure.ofRoutine_returnRun origin sources chain next ahead]
  by_cases empty : sources.isEmpty = true
  · by_cases returning : flags.isReturn = true
    · simpa [empty, returning, Effect.apply] using same.enqueue h mem _
    · simpa [empty, returning] using h
  · simpa [empty, Effect.apply] using same.enqueue (same.discard h mem) mem _

theorem prepare (same : Lockstep R) (host : Host E) (h : R running ctx ctx')
    (mem : frame ∈ running) (origin : Source) (input : String) (terminal : Terminal E)
    (passed stages : List (Stage E)) (sources : List Source) (flags : Flags)
    (native : stages.all (·.redirect.isNative) = true) :
    ∃ result after after',
      ctx.prepare host origin frame input terminal passed stages sources flags =
        (result, after) ∧
      ctx'.prepare host origin frame input terminal passed stages sources flags =
        (result, after') ∧
      R running after after' := by
  induction stages generalizing passed sources flags ctx ctx' with
  | nil => exact ⟨_, ctx, ctx', rfl, rfl, h⟩
  | cons stage rest ih =>
    rcases stage with ⟨forked, redirect⟩
    rcases (Bool.and_eq_true _ _).mp native with ⟨first, later⟩
    cases redirect with
    | passthrough => exact ih h _ _ _ later
    | modifier apply =>
      obtain ⟨result, after, after', eq, eq', next⟩ :=
        same.applyModifier (same.charge h) apply origin (flags.forkedIf forked).isForked #[] sources
      simp only [Context.prepare, eq, eq']
      cases result with
      | none => exact ⟨none, after, after', rfl, rfl, next⟩
      | some yielded => exact ih next _ _ _ later
    | returnRun =>
      exact ⟨none, _, _, rfl, rfl, same.returnRun h mem origin sources _ _ rfl _⟩
    | custom code => cases first

theorem takeOver (same : Lockstep R) (host : Host E) (h : R running ctx ctx')
    (mem : frame ∈ running) (chain : Chain E) (native : chain.terminal.isNative = true)
    (source : Source) (flags : Flags) :
    R running ((Context.takeOver host chain source flags frame).apply ctx)
      ((Context.takeOver host chain source flags frame).apply ctx') := by
  have returns (result : Result) :
      R running ((Executor.returnResult result source frame).apply ctx)
        ((Executor.returnResult result source frame).apply ctx') := by
    have told := same.record h (source.callback.fire result)
    have callback := same.frameCallback told mem
    simpa [Routine.apply, ← Procedure.run_ofRoutine, Procedure.ofRoutine_returnResult, Effect.apply,
      Context.fire, callback] using same.discard (same.record told _) mem
  unfold Context.takeOver
  cases kind : chain.terminal with
  | command command => exact h
  | returnValue value => exact returns _
  | returnFailure => exact returns _
  | call function =>
    have callback := same.frameCallback h mem
    simp only [Routine.apply, ← Procedure.run_ofRoutine, Procedure.ofRoutine_callFunction]
    by_cases returning : flags.isReturn = true
    · simpa [returning, Effect.apply, callback] using same.enqueue h mem _
    · simpa [returning, Effect.apply] using same.enqueue h mem _
  | custom code => simp [kind, Terminal.isNative] at native

theorem launch (same : Lockstep R) (host : Host E) (h : R running ctx ctx')
    (mem : frame ∈ running) (chain : Chain E) (native : chain.terminal.isNative = true)
    (sources : List Source) (flags : Flags) :
    R running (ctx.launch host chain sources flags frame)
      (ctx'.launch host chain sources flags frame) := by
  cases sources with
  | nil =>
    simp only [Context.launch]
    split
    · exact same.enqueue h mem _
    · exact h
  | cons first rest =>
    simp only [Context.launch, same.frameCallback h mem]
    split
    · exact same.schedule h mem _
    · generalize first :: rest = sources
      induction sources generalizing ctx ctx' with
      | nil => exact h
      | cons source rest ih => exact ih (same.takeOver host h mem chain native source flags)

theorem resolve (same : Lockstep R) (host : Host E) (h : R running ctx ctx')
    (mem : frame ∈ running) {chain : Chain E} (native : chain.isNative = true) (origin : Source)
    (sources : List Source) (flags : Flags) :
    R running (ctx.resolve host chain origin sources flags frame)
      (ctx'.resolve host chain origin sources flags frame) := by
  rcases chain with ⟨input, passed, ahead, terminal⟩
  rcases (Bool.and_eq_true _ _).mp native with ⟨stages, last⟩
  let chain : Chain E := { input, passed, ahead, terminal }
  by_cases atEnd : chain.isTerminal = true
  · have launched := same.launch host h mem chain last sources flags
    simpa only [Context.resolve, chain, atEnd, if_true] using launched
  · obtain ⟨prepared, after, after', eq, eq', next⟩ :=
      same.prepare host (same.openScope h ("prepare " ++ input)) mem origin input terminal passed
        ahead sources flags stages
    simp only [Context.resolve, chain, atEnd, if_false, eq, eq', Bool.false_eq_true]
    cases prepared with
    | none => exact same.closeScope next
    | some reached => exact same.launch host (same.closeScope next) mem chain.atTerminal last _ _

/-! ## The actions -/

theorem start (same : Lockstep R) (host : Host E) (h : R running ctx ctx')
    (mem : frame ∈ running) {chain : Chain E} (native : chain.isNative = true) (source : Source) :
    R running (ctx.start host chain source frame) (ctx'.start host chain source frame) := by
  unfold Context.start
  rw [same.frameDepth h mem]
  exact same.resolve host (same.trace h _) mem native source [source] .initial

theorem executeCommand (same : Lockstep R) (h : R running ctx ctx') (mem : frame ∈ running)
    (chain : Chain E) (flags : Flags) (source : Source) :
    R running (ctx.executeCommand chain flags source frame)
      (ctx'.executeCommand chain flags source frame) := by
  have charged := same.charge (same.openScope h ("execute " ++ chain.input))
  unfold Context.executeCommand
  cases (chain.runExecutable source : Except CommandError Int32 × List (Event E.Mark)) with
  | mk result events =>
    have executed := same.record charged events
    cases result with
    | ok value =>
      simp only [same.frameDepth executed mem]
      exact same.closeScope (same.trace executed _)
    | error error => exact same.closeScope (same.present executed _ _ _)

theorem callFunction (same : Lockstep R) (h : R running ctx ctx') (mem : frame ∈ running)
    (function : Function E) (callback : Callback) (returnParent : Bool) (source : Source) :
    R running (ctx.callFunction function callback returnParent source frame)
      (ctx'.callFunction function callback returnParent source frame) := by
  have charged := same.charge h
  rw [Context.callFunction_eq, Context.callFunction_eq]
  simp only [same.frameDepth charged mem]
  generalize ctx.charge.frameDepth frame = depth
  have called := same.record (same.trace charged (.called depth function.id function.lines.length))
    [.notice (.called function.id depth function.lines.length)]
  split
  · exact called
  · exact same.scheduleBelow called mem _ _ _

theorem fallThrough (same : Lockstep R) (h : R running ctx ctx') (mem : frame ∈ running) :
    R running (ctx.fallThrough frame) (ctx'.fallThrough frame) := by
  unfold Context.fallThrough
  rw [same.frameCallback h mem]
  exact same.discard (same.record h _) mem

theorem expand (same : Lockstep R) (h : R running ctx ctx') (mem : frame ∈ running)
    (first : Action E) (rest : List (Action E)) :
    R running (ctx.expand first rest frame) (ctx'.expand first rest frame) := by
  have queued := same.enqueue h mem first
  cases rest with
  | nil => exact queued
  | cons next rest => exact same.enqueue queued mem _

/-- A native action does the same in both contexts. -/
theorem perform (same : Lockstep R) (host : Host E) (h : R running ctx ctx')
    (mem : frame ∈ running) {action : Action E} (native : action.isNative = true) :
    ∃ after after', Context.perform host 1 action frame ctx = some after ∧
      Context.perform host 1 action frame ctx' = some after' ∧ R running after after' := by
  cases action with
  | topLevel chain source => exact ⟨_, _, rfl, rfl, same.start host h mem native source⟩
  | continuation chain origin sources flags =>
    exact ⟨_, _, rfl, rfl, same.resolve host h mem native origin sources flags⟩
  | fallthrough => exact ⟨_, _, rfl, rfl, same.fallThrough h mem⟩
  | fanOut first rest => exact ⟨_, _, rfl, rfl, same.expand h mem first rest⟩
  | task code => cases native
  | line line source =>
    cases line with
    | chain chain => exact ⟨_, _, rfl, rfl, same.start host h mem native source⟩
    | custom code => cases native
  | execute chain flags source =>
    exact ⟨_, _, rfl, rfl, same.executeCommand h mem chain flags source⟩
  | call function callback returnParent source =>
    exact ⟨_, _, rfl, rfl, same.callFunction h mem function callback returnParent source⟩

end Lockstep

/-! ## Runs -/

/-- A relation that native work keeps and that the run loop keeps, too, because it takes the same
decisions in both contexts. -/
structure Synchronous (R : List FrameId → Context E → Context E → Prop) : Prop
    extends Lockstep R where
  limits : ∀ {running ctx ctx'}, R running ctx ctx' → ctx'.limits = ctx.limits
  quota : ∀ {running ctx ctx'}, R running ctx ctx' → ctx'.quota = ctx.quota
  overflowed : ∀ {running ctx ctx'}, R running ctx ctx' → ctx'.overflowed = ctx.overflowed
  pending : ∀ {running ctx ctx'}, R running ctx ctx' → ctx'.pending = ctx.pending
  take : ∀ {running ctx ctx' entry pending}, R running ctx ctx' →
    ctx.pending.pop? = some (entry, pending) →
      R (entry.frame :: running) { ctx with pending, depth := entry.depth }
        { ctx' with pending, depth := entry.depth }
  settle : ∀ {running ctx ctx' id}, R (id :: running) ctx ctx' →
    R running (ctx.settle id) (ctx'.settle id)
  promote : ∀ {running ctx ctx'}, R running ctx ctx' → R running ctx.promote ctx'.promote
  finish : ∀ {running ctx ctx'}, R running ctx ctx' → ∀ outcome,
    R running (ctx.finish outcome).2 (ctx'.finish outcome).2

namespace Synchronous

variable {R : List FrameId → Context E → Context E → Prop} {running : List FrameId}
  {ctx ctx' next final started : Context E} {host : Host E} {entry : Entry E}

theorem isExhausted (same : Synchronous R) (h : R running ctx ctx') :
    ctx'.quota.isExhausted = ctx.quota.isExhausted :=
  congrArg Quota.isExhausted (same.quota h)

/-- Both contexts take the same entry. -/
theorem pop (same : Synchronous R) (h : R running ctx ctx')
    (popped : ctx.pop? = some (entry, started)) :
    ∃ started', ctx'.pop? = some (entry, started') ∧ R (entry.frame :: running) started started' := by
  rcases Option.map_eq_some_iff.mp popped with ⟨⟨first, pending⟩, taken, eq⟩
  cases eq
  have popped' : ctx'.pop? = some (entry, { ctx' with pending, depth := entry.depth }) := by
    simp [Context.pop?, same.pending h, taken]
  exact ⟨_, popped', same.take h taken⟩

/-- Neither context has anything to take, or both have. -/
theorem pop?_eq_none (same : Synchronous R) (h : R running ctx ctx') (empty : ctx.pop? = none) :
    ctx'.pop? = none := by
  rw [Context.pop?_eq_none_iff] at empty ⊢
  rw [same.pending h, empty]

/-- Both contexts execute the same entry, whether or not the queue overflows meanwhile. -/
theorem execute (same : Synchronous R) (h : R [] ctx ctx') (native : ctx.Native)
    (popped : ctx.pop? = some (entry, started)) {fuel : Nat} {after : Context E}
    (performed : Context.perform host fuel entry.action entry.frame started = some after) :
    ∃ started' after', ctx'.pop? = some (entry, started') ∧
      Context.perform host 1 entry.action entry.frame started' = some after' ∧
      R [] (after.settle entry.frame) (after'.settle entry.frame) := by
  obtain ⟨started', popped', related⟩ := same.pop h popped
  obtain ⟨after₁, after', performed₁, performed', related'⟩ :=
    same.perform host related List.mem_cons_self (native.of_pop popped)
  obtain rfl := Context.perform_unique performed performed₁
  exact ⟨started', after', popped', performed', same.settle related'⟩

/-- Where the first context goes through a turn, so does the second one. -/
theorem turn (same : Synchronous R) (h : R [] ctx ctx') (native : ctx.Native) {start : Start E}
    (turn : Turn host ctx start next) :
    ∃ start' next', Turn host ctx' start' next' ∧ start'.entry = start.entry ∧ R [] next next' := by
  rcases turn with ⟨funded, popped, fuel, after, performed, intact, rfl⟩
  obtain ⟨started', after', popped', performed', settled⟩ := same.execute h native popped performed
  exact ⟨⟨start.entry, started'⟩, _, ⟨(same.isExhausted h).trans funded, popped', 1, after',
    performed', (same.overflowed settled).trans intact, rfl⟩, rfl, same.promote settled⟩

theorem turns (same : Synchronous R) (h : R [] ctx ctx') (native : ctx.Native)
    {starts : List (Start E)} (turns : Turns host ctx starts next) :
    ∃ starts' next', Turns host ctx' starts' next' ∧
      starts'.map Start.entry = starts.map Start.entry ∧ R [] next next' := by
  induction turns generalizing ctx' with
  | refl => exact ⟨[], ctx', .refl ctx', rfl, h⟩
  | head first _ ih =>
    obtain ⟨start', mid', first', entry, related⟩ := same.turn h native first
    obtain ⟨starts', next', rest, entries, last⟩ := ih related (native.turn first)
    exact ⟨_, next', .head first' rest, by simp [entry, entries], last⟩

/-- Both contexts go through the same run. -/
theorem course (same : Synchronous R) (h : R [] ctx ctx') (native : ctx.Native)
    {starts : List (Start E)} {outcome : Outcome} (course : Course host ctx starts outcome final) :
    ∃ starts' final', Course host ctx' starts' outcome final' ∧
      starts'.map Start.entry = starts.map Start.entry ∧ R [] final final' := by
  induction course generalizing ctx' with
  | @exhausted ctx exhausted =>
    have told := same.finish (same.record h [.notice (.limitReached ctx.limits.commandLimit)])
      .quotaExhausted
    have course : Course host ctx' [] .quotaExhausted _ :=
      .exhausted ((same.isExhausted h).trans exhausted)
    rw [same.limits h] at course
    exact ⟨[], _, course, rfl, told⟩
  | completed funded empty =>
    exact ⟨[], _, .completed ((same.isExhausted h).trans funded) (same.pop?_eq_none h empty), rfl,
      same.finish h _⟩
  | @overflowed ctx after start fuel funded popped performed overflowed =>
    obtain ⟨started', after', popped', performed', settled⟩ :=
      same.execute h native popped performed
    have told := same.finish (same.record settled
      [.notice (.queueOverflowed (after.settle start.entry.frame).limits.maxQueueDepth)])
      .overflowed
    let start' : Start E := ⟨start.entry, started'⟩
    have course : Course host ctx' [start'] .overflowed _ :=
      .overflowed ((same.isExhausted h).trans funded) popped' performed'
        ((same.overflowed settled).trans overflowed)
    rw [same.limits settled] at course
    exact ⟨[start'], _, course, rfl, told⟩
  | turn first _ ih =>
    obtain ⟨start', mid', first', entry, related⟩ := same.turn h native first
    obtain ⟨starts', final', rest, entries, last⟩ := ih related (native.turn first)
    exact ⟨_, final', .turn first' rest, by simp [entry, entries], last⟩

end Synchronous
end CommandScheduler
