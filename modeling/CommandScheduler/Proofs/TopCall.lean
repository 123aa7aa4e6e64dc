import CommandScheduler.Proofs.Widening

/-!
# TopCall — two ways to call a function at the top

A function can be called as a root invocation, or as the terminal of a root command that returns it.
The command takes two free turns to come to its call.  From there on both do the same, although the
frames of the function have different scopes.
-/

namespace CommandScheduler

variable {E : Embedding}

/-- The chain that returns what a function gives. -/
def Chain.returning {V : Vocabulary} (input : String) (forked : Bool) (function : Function V) :
    Chain V :=
  .ofStages input [{ forked, redirect := .returnRun }] (.call function)

/-! ## The first turns -/

namespace Context

/-- A root entry is being executed, and nothing else is queued. -/
def begun (base : Context E) (callback : Callback) (fresh : List FrameId) : Context E :=
  { base with
    pending := .empty
    depth := 0
    frames := {
      next := 1
      slots := [(⟨0⟩, { frame := .root callback, references := 1 })]
      fresh } }

/-- A root entry waits, and nothing else is queued. -/
def alone (base : Context E) (callback : Callback) (fresh : List FrameId) (action : Action E) :
    Context E :=
  { base.begun callback fresh with
    pending := { entries := [{ depth := 0, frame := ⟨0⟩, action }] } }

variable {base : Context E} {callback : Callback} {fresh : List FrameId} {host : Host E}

theorem turn_alone {action : Action E} {after : Context E}
    (funded : base.quota.isExhausted = false)
    (performed : perform host 1 action ⟨0⟩ (base.begun callback fresh) = some after)
    (intact : after.overflowed = false) :
    Turn host (base.alone callback fresh action)
      ⟨{ depth := 0, frame := ⟨0⟩, action }, base.begun callback fresh⟩
      (after.settle ⟨0⟩).promote :=
  ⟨funded, rfl, 1, after, performed, intact, rfl⟩

/-- A root entry that queues another action in its place. -/
theorem enqueue_begun (base : Context E) (callback : Callback) (intact : base.overflowed = false)
    (staged : base.staging = #[]) (new : fresh = [] ∨ fresh = [⟨0⟩]) (action : Action E) :
    ((base.begun callback fresh).enqueue ⟨0⟩ action).overflowed = false ∧
      (((base.begun callback fresh).enqueue ⟨0⟩ action).settle ⟨0⟩).promote =
        base.alone callback [] action := by
  rcases base with ⟨⟩
  cases intact
  cases staged
  rcases new with rfl | rfl <;> exact ⟨rfl, rfl⟩

/-- A returning chain passes its only stage. -/
theorem start_begun (host : Host E) (base : Context E) (callback : Callback) (fresh : List FrameId)
    (input : String) (forked : Bool) (function : Function E) (source : Source) :
    (base.begun callback fresh).start host (.returning input forked function) source ⟨0⟩ =
      ((((base.trace (.command 0 input)).openScope ("prepare " ++ input)).begun callback
        fresh).enqueue ⟨0⟩ (.continuation (Chain.returning input forked function).atTerminal source
          [source] (Flags.initial.forkedIf forked).setReturn)).closeScope := by
  have depth : (base.begun callback fresh).frameDepth ⟨0⟩ = 0 := rfl
  have traced : (base.begun callback fresh).trace (.command 0 input) =
      (base.trace (.command 0 input)).begun callback fresh := by
    rcases base with ⟨limits, quota, overflowed, pending, staging, depth, frames, _ | sink⟩ <;> rfl
  have text : (Chain.returning input forked function).input = input := rfl
  rw [start, depth, text, traced]
  rfl

/-- At its terminal the chain calls the function on behalf of its frame. -/
theorem resolve_begun (host : Host E) (base : Context E) (callback : Callback)
    (fresh : List FrameId) (input : String) (forked : Bool) (function : Function E)
    (source : Source) :
    (base.begun callback fresh).resolve host (Chain.returning input forked function).atTerminal
        source [source] (Flags.initial.forkedIf forked).setReturn ⟨0⟩ =
      (base.begun callback fresh).enqueue ⟨0⟩
        (.call function (source.callback.chain callback) true source) := by
  cases forked <;> rfl

theorem closeScope_promote_settle (ctx : Context E) (id : FrameId) :
    (ctx.closeScope.settle id).promote = (ctx.settle id).promote.closeScope := rfl

theorem closeScope_alone (base : Context E) (callback : Callback) (fresh : List FrameId)
    (action : Action E) :
    base.closeScope.alone callback fresh action = (base.alone callback fresh action).closeScope :=
  rfl

/-- The two free turns in which a returning chain comes to its call. -/
theorem turns_returning (host : Host E) (funded : base.quota.isExhausted = false)
    (intact : base.overflowed = false) (staged : base.staging = #[]) (callback : Callback)
    (input : String) (forked : Bool) (function : Function E) (source : Source) :
    ∃ starts, starts.length = 2 ∧
      Turns host (base.alone callback [⟨0⟩] (.topLevel (.returning input forked function) source))
        starts
        (((base.trace (.command 0 input)).openScope ("prepare " ++ input)).closeScope.alone callback
          [] (.call function (source.callback.chain callback) true source)) := by
  let flags := (Flags.initial.forkedIf forked).setReturn
  let chain : Chain E := .returning input forked function
  let next : Action E := .continuation chain.atTerminal source [source] flags
  let call : Action E := .call function (source.callback.chain callback) true source
  let prepared := (base.trace (.command 0 input)).openScope ("prepare " ++ input)
  have same : prepared.quota = base.quota ∧ prepared.overflowed = base.overflowed ∧
      prepared.staging = base.staging := by
    rcases base.exists_trace_eq (.command 0 input) with ⟨events, eq⟩
    simp only [prepared, eq]
    exact ⟨rfl, rfl, rfl⟩
  rcases same with ⟨quota, overflowed, staging⟩
  -- The stage takes the place of the command, and the call then that of the stage.  Both are
  -- queued in the frame of the command, so the call is at depth zero as in the other invocation.
  have first : ∃ start, Turn host (base.alone callback [⟨0⟩] (.topLevel chain source)) start
      (prepared.closeScope.alone callback [] next) := by
    obtain ⟨room, settled⟩ := enqueue_begun prepared callback (overflowed.trans intact)
      (staging.trans staged) (.inr rfl) next
    have performed : perform host 1 (.topLevel chain source) ⟨0⟩ (base.begun callback [⟨0⟩]) =
        some ((prepared.begun callback [⟨0⟩]).enqueue ⟨0⟩ next).closeScope :=
      congrArg some (start_begun host base callback [⟨0⟩] input forked function source)
    rw [closeScope_alone, ← settled, ← closeScope_promote_settle]
    exact ⟨_, turn_alone funded performed room⟩
  have second : ∃ start, Turn host (prepared.closeScope.alone callback [] next) start
      (prepared.closeScope.alone callback [] call) := by
    obtain ⟨room, settled⟩ := enqueue_begun prepared.closeScope callback
      (overflowed.trans intact) (staging.trans staged) (.inl rfl) call
    have performed : perform host 1 next ⟨0⟩ (prepared.closeScope.begun callback []) =
        some ((prepared.closeScope.begun callback []).enqueue ⟨0⟩ call) :=
      congrArg some (resolve_begun host prepared.closeScope callback [] input forked function source)
    rw [← settled]
    exact ⟨_, turn_alone ((congrArg Quota.isExhausted quota).trans funded) performed room⟩
  rcases first with ⟨start, first⟩
  rcases second with ⟨start', second⟩
  exact ⟨[start, start'], rfl, .head first (.single second)⟩

end Context

/-! ## The turn of the call -/

/-- After the turn of a call its lines wait one level below the caller.  Their frame has the scope of
the caller's if the call returns for the caller, and one of its own if it does not. -/
theorem Orderly.callee {host : Host E} {ctx next : Context E} {start : Start E}
    {function : Function E} {callback : Callback} {returnParent : Bool} {source : Source}
    (h : Orderly ctx) (turn : Turn host ctx start next)
    (call : start.entry.action = .call function callback returnParent source) :
    (∀ entry ∈ next.pending.entries,
      entry.depth = start.entry.depth + 1 ∨ entry ∈ start.context.pending.entries) ∧
    (function.lines ≠ [] → ∃ owner, ctx.frame? start.entry.frame = some owner ∧
      next.frame? ⟨ctx.frames.next⟩ = some
        { depth := owner.depth + 1
          callback
          scope := if returnParent then owner.scope else .discardFrom (owner.depth + 1) }) := by
  have native := h.native_of_pop turn.popped
  obtain ⟨-, owner, procedure, sketch, step⟩ := h.poised.exists_sketch turn native
  let site := start.site ctx owner
  have own := step.own
  rw [call] at own native
  cases own
  -- What the step has queued, and in which frame, can be read off its sketch.
  cases (site.run?_callFunction function native callback returnParent source _).symm.trans step.run
  constructor
  · intro entry mem
    rw [step.settled.pending, site.entries_called] at mem
    rcases List.mem_append.mp mem with new | old
    · rcases List.mem_map.mp new with ⟨action, -, rfl⟩
      exact .inl (congrArg (· + 1) step.depth)
    · exact .inr ((Flow.prune_suffix _ _ _).subset old)
  · intro some
    have target := step.target
    have lines : function.lines.isEmpty = false := by simpa using some
    simp only [Site.called, lines, Bool.false_eq_true, if_false] at target
    exact ⟨owner, step.live, target (Action.fan_ne_nil (by simpa using some))⟩

/-- At the top both calls queue the same lines, although one of them returns for a caller whose
rollback clears everything. -/
theorem Aligned.call {lead : List (Event E.Mark)} {extra : List FrameId} {narrow wide : Context E}
    (h : Aligned lead extra narrow wide) {id : FrameId} (top : narrow.frameDepth id = 0)
    (clear : wide.scopeOf id = .clearAll) (function : Function E) (callback : Callback)
    (source : Source) :
    Aligned lead extra (narrow.callFunction function callback false source id)
      (wide.callFunction function callback true source id) := by
  have depth : wide.frameDepth id = 0 := (h.frameDepth id).trans top
  have charged (ctx : Context E) : ctx.charge.frameDepth id = ctx.frameDepth id := rfl
  rw [Context.callFunction_eq, Context.callFunction_eq]
  simp only [charged, top, depth]
  let event : TraceEvent := .called 0 function.id function.lines.length
  let notice : Notice := .called function.id 0 function.lines.length
  let called (ctx : Context E) : Context E := (ctx.charge.trace event).notify notice
  have queued : Aligned lead extra (called narrow) (called wide) :=
    (h.charge.trace event).record [.notice notice]
  have kept (ctx : Context E) : (called ctx).frameDepth id = ctx.frameDepth id ∧
      (called ctx).scopeOf id = ctx.scopeOf id := by
    rcases ctx.charge.exists_trace_eq event with ⟨events, eq⟩
    simp only [called, eq]
    exact ⟨rfl, rfl⟩
  split
  · exact queued
  · -- The lines wait at depth one, where both scopes have the same wider form.
    refine queued.scheduleIn ?_ _
    change Frame.widened
        { depth := (called wide).frameDepth id + 1, callback, scope := (called wide).scopeOf id } =
      Frame.widened
        { depth := (called narrow).frameDepth id + 1
          callback
          scope := .discardFrom ((called narrow).frameDepth id + 1) }
    rw [(kept wide).1, (kept wide).2, (kept narrow).1, top, depth, clear]
    rfl

theorem Context.Inner.of_waiting {ctx : Context E} (accounted : ctx.Accounted [])
    (swept : ctx.frames.fresh = []) (deep : ∀ entry ∈ ctx.waiting, 0 < entry.depth) :
    ctx.Inner := by
  intro id frame live
  have held : id ∈ ctx.waiting.map Entry.frame :=
    accounted.balanced.held.mem_of_frame? swept live
  rcases List.mem_map.mp held with ⟨entry, mem, rfl⟩
  rw [accounted.balanced.depths entry mem frame live]
  exact deep entry mem

namespace Aligned

variable {host : Host E} {lead : List (Event E.Mark)} {base base' : Context E} {callback : Callback}
  {function : Function E} {heard : Callback} {source : Source}

/-- The contexts in which the two calls start.  Only the sink of the second one has been told of
anything. -/
theorem begun (new : base.observed = []) (callback : Callback) (input : String) :
    Aligned (base.sink?.toList.map (.traced · (.command 0 input))) [⟨0⟩]
      (base.begun callback [⟨0⟩])
      (((base.trace (.command 0 input)).openScope ("prepare " ++ input)).closeScope.begun callback
        []) := by
  have profiled (ctx : Context E) : (ctx.openScope ("prepare " ++ input)).closeScope.observed =
      ctx.observed := by
    rw [Context.observed_closeScope, Context.observed_openScope]
  have told : (base.trace (.command 0 input)).observed =
      base.sink?.toList.map (.traced · (.command 0 input)) := by
    unfold Context.trace
    cases base.sink? with
    | none => exact new
    | some sink =>
      rw [Context.observed_record, new]
      rfl
  constructor
  · rcases base.exists_trace_eq (.command 0 input) with ⟨events, eq⟩
    rw [eq]
    rfl
  · calc
      _ = (base.trace (.command 0 input)).observed := profiled _
      _ = base.sink?.toList.map (.traced · (.command 0 input)) ++ base.observed := by
            rw [told, new, List.append_nil]

/-- What the call does is the same in both root invocations, also if the queue overflows. -/
theorem execute (h : Aligned lead [⟨0⟩] (base.begun callback [⟨0⟩]) (base'.begun callback []))
    (accounted : (base.begun callback [⟨0⟩]).Accounted [⟨0⟩]) {fuel : Nat} {after : Context E}
    (performed : Context.perform host fuel (.call function heard false source) ⟨0⟩
      (base.begun callback [⟨0⟩]) = some after) :
    ∃ after', Context.perform host 1 (.call function heard true source) ⟨0⟩
        (base'.begun callback []) = some after' ∧
      Aligned lead [] (after.settle ⟨0⟩) (after'.settle ⟨0⟩) := by
  have same : Context.perform host 1 (.call function heard false source) ⟨0⟩
      (base.begun callback [⟨0⟩]) = some _ := rfl
  -- A call is done in one go, so no other fuel gives anything else.
  obtain rfl := Context.perform_unique same performed
  exact ⟨_, rfl, (h.call rfl rfl function heard source).settle
    (accounted.leads (.perform performed)).accounted fun _ => List.mem_singleton.mp⟩

/-- After the turn of the call no frame is at the top. -/
theorem sunk {narrow wide : Context E} {start : Start E} (h : Aligned lead [] narrow wide)
    (orderly : Orderly (base.alone callback [⟨0⟩] (.call function heard false source)))
    (turn : Turn host (base.alone callback [⟨0⟩] (.call function heard false source)) start narrow) :
    Sunk lead [] narrow wide := by
  have popped : (base.alone callback [⟨0⟩] (.call function heard false source)).pop? =
      some (⟨0, ⟨0⟩, .call function heard false source⟩, base.begun callback [⟨0⟩]) := rfl
  have accounted := (orderly.turn turn).accounted
  rcases start with ⟨entry, started⟩
  cases popped.symm.trans turn.popped
  -- Nothing else was pending, so all that waits now was queued by the call.
  have deep : ∀ entry ∈ narrow.waiting, 0 < entry.depth := by
    intro entry mem
    have pending : entry ∈ narrow.pending.entries := by
      simpa [Context.waiting, turn.staging_eq] using mem
    rcases (orderly.callee turn rfl).1 entry pending with below | old
    · exact below ▸ Nat.succ_pos _
    · cases old
  exact ⟨h, accounted, .of_waiting accounted turn.fresh_eq deep⟩

/-- If the call ends its turn in the first root invocation, it does so in the second one. -/
theorem turn (h : Aligned lead [⟨0⟩] (base.begun callback [⟨0⟩]) (base'.begun callback []))
    (accounted : (base.begun callback [⟨0⟩]).Accounted [⟨0⟩]) {start : Start E} {narrow : Context E}
    (turn : Turn host (base.alone callback [⟨0⟩] (.call function heard false source)) start narrow) :
    ∃ wide,
      Turn host (base'.alone callback [] (.call function heard true source))
        ⟨⟨0, ⟨0⟩, .call function heard true source⟩, base'.begun callback []⟩ wide ∧
      Aligned lead [] narrow wide := by
  have quota : base'.quota = base.quota := (congrArg Context.quota h.same :)
  have popped : (base.alone callback [⟨0⟩] (.call function heard false source)).pop? =
      some (⟨0, ⟨0⟩, .call function heard false source⟩, base.begun callback [⟨0⟩]) := rfl
  rcases turn with ⟨funded, popped₁, fuel, after, performed, intact, rfl⟩
  rcases start with ⟨entry, started⟩
  cases popped.symm.trans popped₁
  obtain ⟨after', performed', settled⟩ := h.execute accounted performed
  have intact' : (after'.settle ⟨0⟩).overflowed = false :=
    (congrArg Context.overflowed settled.same :).trans intact
  have funded' := (congrArg Quota.isExhausted quota).trans funded
  exact ⟨_, ⟨funded', rfl, 1, after', performed', intact', rfl⟩,
    settled.promote⟩

/-- From their calls on, both root invocations run alike. -/
theorem course (h : Aligned lead [⟨0⟩] (base.begun callback [⟨0⟩]) (base'.begun callback []))
    (orderly : Orderly (base.alone callback [⟨0⟩] (.call function heard false source)))
    (funded : base.quota.isExhausted = false) {starts : List (Start E)} {outcome : Outcome}
    {final : Context E}
    (course : Course host (base.alone callback [⟨0⟩] (.call function heard false source)) starts
      outcome final) :
    ∃ starts' final',
      Course host (base'.alone callback [] (.call function heard true source)) starts' outcome
        final' ∧ Aligned lead [] final final' := by
  let chained := base'.alone callback [] (.call function heard true source)
  let start' : Start E := ⟨⟨0, ⟨0⟩, .call function heard true source⟩, base'.begun callback []⟩
  have popped : (base.alone callback [⟨0⟩] (.call function heard false source)).pop? =
      some (⟨0, ⟨0⟩, .call function heard false source⟩, base.begun callback [⟨0⟩]) := rfl
  have begun := (orderly.accounted.pop popped).accounted
  cases course with
  | exhausted exhausted => exact absurd (exhausted.symm.trans funded) Bool.noConfusion
  | completed _ empty => cases popped.symm.trans empty
  | @overflowed _ after start _ _ popped₁ performed overflowed =>
    rcases start with ⟨entry, started⟩
    cases popped.symm.trans popped₁
    obtain ⟨after', performed', settled⟩ := h.execute begun performed
    have quota : base'.quota = base.quota := (congrArg Context.quota h.same :)
    have limits : (after'.settle start'.entry.frame).limits = (after.settle ⟨0⟩).limits :=
      (congrArg Context.limits settled.same :)
    have course : Course host chained [start'] .overflowed _ :=
      .overflowed ((congrArg Quota.isExhausted quota).trans funded) rfl performed'
        ((congrArg Context.overflowed settled.same :).trans overflowed)
    let notice : Notice := .queueOverflowed (after.settle ⟨0⟩).limits.maxQueueDepth
    rw [limits] at course
    exact ⟨_, _, course, (settled.record [.notice notice]).finish .overflowed⟩
  | @turn _ next _ start _ _ turn rest =>
    rcases h.turn begun turn with ⟨wide, turn', aligned⟩
    have native : next.Native :=
      Context.Native.turn ⟨orderly.accounted, orderly.staged, orderly.native⟩ turn
    -- The frame of the call is gone, and it was the only one at the top.
    obtain ⟨starts', final', rest', -, last⟩ :=
      Sunk.synchronous.course (aligned.sunk orderly turn) native rest
    exact ⟨_, final', .turn turn' rest', last.toAligned⟩

end Aligned

/-! ## Whole runs -/

/-- A function that is called as a root invocation, and the chain that returns it as a root command,
give the same: both runs end in the same way, with the same quota and as many frames, and whatever
they show, in the same order, is the same but for one event.  If the second run starts at all, its
sink is first told of the command.  All this although the frame of the function is confined to its
own level in the first run and clears everything in the second one. -/
theorem call_runs_as_returned (host : Host E) (limits : Limits) (memory : E.Memory)
    (profiler : Profiler) (sink? : Option Sink) {function : Function E}
    (native : function.isNative = true) (source : Source) (callback : Callback) (input : String)
    (forked : Bool) :
    let new : Context E := (Context.create limits memory profiler).install sink?
    let direct := new.queueCall function source callback
    let chained := new.queueCommand (.returning input forked function) source callback
    (∃ outcome final final' enough,
      (∀ fuel, enough ≤ fuel →
        direct.run host fuel = some (outcome, final) ∧
        chained.run host fuel = some (outcome, final')) ∧
      final'.observed = (if new.quota.isExhausted then []
        else sink?.toList.map (.traced · (.command 0 input))) ++ final.observed ∧
      final'.quota = final.quota ∧ final'.frameCount = final.frameCount) ∧
    ∀ start next, Turn host direct.promote start next → function.lines ≠ [] →
      next.frame? ⟨1⟩ = some
        { depth := 1, callback := source.callback.chain callback, scope := .discardFrom 1 } ∧
      ∃ starts next', Turns host chained.promote starts next' ∧ starts.length = 3 ∧
        next'.frame? ⟨1⟩ = some
          { depth := 1, callback := source.callback.chain callback, scope := .clearAll } := by
  intro new direct chained
  let heard := source.callback.chain callback
  let call : Request E := .call function source callback
  let command : Request E := .command (.returning input forked function) source callback
  have callNative : call.isNative = true := native
  have commandNative : command.isNative = true := native
  have orderly : Orderly direct.promote := .of_request limits memory profiler sink? callNative
  have orderly' : Orderly chained.promote := .of_request limits memory profiler sink? commandNative
  have aligned := Aligned.begun (rfl : new.observed = []) callback input
  have popped : direct.promote.pop? =
      some (⟨0, ⟨0⟩, .call function heard false source⟩, new.begun callback [⟨0⟩]) := rfl
  have begun := (orderly.accounted.pop popped).accounted
  constructor
  · cases exhausted : new.quota.isExhausted with
    | true =>
      have course : Course host direct.promote [] .quotaExhausted _ := .exhausted exhausted
      have course' : Course host chained.promote [] .quotaExhausted _ := .exhausted exhausted
      rcases course.exists_enough course' with ⟨enough, runs⟩
      exact ⟨_, _, _, enough, runs, rfl, rfl, rfl⟩
    | false =>
      obtain ⟨starts, outcome, final, course⟩ := Context.asked_ends host limits memory profiler
        sink? (List.forall_mem_singleton.mpr callNative)
      replace course : Course host direct.promote starts outcome final := course
      obtain ⟨starts', final', rest, same⟩ := aligned.course orderly exhausted course
      obtain ⟨before, -, turns⟩ :=
        Context.turns_returning host exhausted rfl rfl callback input forked function source
      rcases course.exists_enough (turns.course rest) with ⟨enough, runs⟩
      exact ⟨outcome, final, final', enough, runs, same.observed,
        (congrArg Context.quota same.same :), same.frameCount⟩
  · intro start next turn some
    have funded : new.quota.isExhausted = false := turn.funded
    have entry := congrArg Prod.fst (Option.some.inj (turn.popped.symm.trans popped))
    obtain ⟨owner, live, callee⟩ := (orderly.callee turn (congrArg Entry.action entry)).2 some
    rw [congrArg Entry.frame entry] at live
    cases live
    obtain ⟨before, two, turns⟩ :=
      Context.turns_returning host funded rfl rfl callback input forked function source
    obtain ⟨next', turn', -⟩ := aligned.turn begun turn
    obtain ⟨owner, live', callee'⟩ := ((orderly'.turns turns).callee turn' rfl).2 some
    cases live'
    exact ⟨callee, _, next', turns.trans (.single turn'), by simp [two], callee'⟩

/-- A function whose second line returns what another function gives; its third line is skipped. -/
theorem call_runs_as_returned_of_nested :
    ∃ (function : Function Embedding.bare) (sink : Sink) (final final' : Context .bare)
      (enough : Nat),
      let new : Context .bare := (Context.create {} () .off).install (some sink)
      (∀ fuel, enough ≤ fuel →
        (new.queueCall function (.named "alex") .empty).run .bare fuel =
          some (.completed, final) ∧
        (new.queueCommand (.returning "return run outer" false function) (.named "alex")
          .empty).run .bare fuel = some (.completed, final')) ∧
      final.observed.length = 11 ∧ final.quota = ⟨65533⟩ ∧ final'.quota = final.quota ∧
      final'.observed = .traced sink (.command 0 "return run outer") :: final.observed := by
  let say : Chain Embedding.bare := .ofStages "say" [] (.command { run := fun _ => .ok 1 })
  let give : Chain Embedding.bare := .ofStages "return 3" [] (.returnValue 3)
  let inner : Function Embedding.bare := .ofChains "inner" [give, say]
  let outer : Function Embedding.bare :=
    .ofChains "outer" [say, .returning "return run inner" false inner, say]
  have native : outer.isNative = true := rfl
  let sink : Sink := { serial := 0, label := "watch", kind := .recorder }
  obtain ⟨⟨outcome, final, final', enough, runs, shown, quota, -⟩, -⟩ :=
    call_runs_as_returned .bare {} () .off (some sink) native (.named "alex") .empty
      "return run outer" false
  let new : Context .bare := (Context.create {} () .off).install (some sink)
  have ran : ((new.queueCall outer (.named "alex") .empty).run .bare 12).map
      (fun result => (result.1, result.2.observed.length, result.2.quota)) =
        some (.completed, 11, ⟨65533⟩) := by
    decide +kernel
  rcases Option.map_eq_some_iff.mp ran with ⟨result, drained, seen⟩
  cases Context.drain_unique drained fun fuel le => (runs fuel le).1
  rcases Prod.mk.inj seen with ⟨rfl, seen⟩
  rcases Prod.mk.inj seen with ⟨length, left⟩
  exact ⟨outer, sink, final, final', enough, runs, length, left, quota, shown⟩

end CommandScheduler
