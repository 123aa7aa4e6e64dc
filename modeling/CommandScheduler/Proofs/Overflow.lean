import CommandScheduler.Proofs.Accounting
import CommandScheduler.Proofs.History

/-!
# Overflow — when the queue overflows, and what follows

The queue overflows when an action is to be queued while more entries wait than the bound allows, so
it holds one entry more than the bound at most.  After an overflow the context stays empty for good:
nothing is queued and nothing is started any more.  The entries that are being executed run to their
ends, and each of their run loops, innermost first, then ends with the overflow as its outcome.

A run loop reports only overflows of its own entries.  One that begins on a context that has
overflowed before has nothing to take and ends as if all work had been done.
-/

namespace CommandScheduler

variable {E : Embedding} {running running' : List FrameId} {ctx ctx' : Context E}

/-! ## The step into an overflow -/

namespace Context

theorem overflowed_enqueue_iff (intact : ctx.overflowed = false) (id : FrameId)
    (action : Action E) :
    (ctx.enqueue id action).overflowed = true ↔ ctx.limits.maxQueueDepth < ctx.queued := by
  refine ⟨?_, fun full => overflowed_enqueue_of_full full id action⟩
  intro overflowed
  rcases ctx.enqueue_cases id action with
    ⟨full, -⟩ | ⟨before, -⟩ | ⟨-, -, eq⟩ | ⟨-, -, depth, frames, -, eq⟩
  · exact full
  · simp [intact] at before
  all_goals
    -- The mark stays what it is if the action is dropped or staged.
    have same : (ctx.enqueue id action).overflowed = ctx.overflowed :=
      (congrArg Context.overflowed eq :)
    simp [same, intact] at overflowed

/-- Actions that are queued one after another make the queue overflow if one of them finds more
entries than the bound allows. -/
theorem overflowed_enqueueAll_iff (intact : ctx.overflowed = false) (id : FrameId)
    (actions : List (Action E)) :
    (actions.foldl (fun ctx action => ctx.enqueue id action) ctx).overflowed = true ↔
      ∃ moment ∈ ctx.queueings id actions, ctx.limits.maxQueueDepth < moment.queued := by
  induction actions generalizing ctx with
  | nil => simp [queueings, intact]
  | cons action rest ih =>
    simp only [List.foldl_cons, queueings, List.mem_cons, exists_eq_or_imp]
    cases after : (ctx.enqueue id action).overflowed with
    | true =>
      have full := (overflowed_enqueue_iff intact id action).mp after
      simp [full, overflowed_enqueueAll after id rest]
    | false =>
      have room : ¬ ctx.limits.maxQueueDepth < ctx.queued := by
        intro full
        simp [overflowed_enqueue_of_full full id action] at after
      rw [ih after, ctx.limits_enqueue]
      simp [room]

/-- A deed makes the queue overflow if it queues an action while more entries wait than the bound
allows. -/
theorem overflowed_deed_iff (intact : ctx.overflowed = false) (deed : Deed E) :
    (deed.apply ctx).2.overflowed = true ↔
      ∃ moment ∈ deed.queueings ctx, ctx.limits.maxQueueDepth < moment.queued := by
  rcases deed.exists_queues ctx with ⟨mid, id, actions, queues⟩
  rw [queues.result, queues.queueings, ← queues.limits]
  exact overflowed_enqueueAll_iff (queues.overflowed.trans intact) id actions

end Context

/-- On the way from one context to another, some deed queues an action while more entries wait than
the bound allows. -/
def Overfilled (running : List FrameId) (ctx : Context E) (running' : List FrameId)
    (ctx' : Context E) : Prop :=
  ∃ (during : List FrameId) (mid : Context E) (deed : Deed E), Leads running ctx during mid ∧
    mid.overflowed = false ∧
    (∃ moment ∈ deed.queueings mid, mid.limits.maxQueueDepth < moment.queued) ∧
    Leads during (deed.apply mid).2 running' ctx'

theorem Overfilled.then {running'' : List FrameId} {ctx'' : Context E}
    (h : Overfilled running ctx running' ctx') (leads : Leads running' ctx' running'' ctx'') :
    Overfilled running ctx running'' ctx'' := by
  rcases h with ⟨during, mid, deed, earlier, intact, full, later⟩
  exact ⟨during, mid, deed, earlier, intact, full, later.trans leads⟩

/-- Nothing but a queue that is too long makes a context overflow. -/
theorem Leads.overfilled (leads : Leads running ctx running' ctx')
    (intact : ctx.overflowed = false) (overflowed : ctx'.overflowed = true) :
    Overfilled running ctx running' ctx' := by
  induction leads with
  | refl => simp [intact] at overflowed
  | @deed during mid deed leads ih =>
    -- Either it has overflowed before, or it is this deed.
    cases before : mid.overflowed with
    | true => exact (ih before).then (Leads.refl.deed deed)
    | false =>
      have full := (Context.overflowed_deed_iff before deed).mp overflowed
      exact ⟨during, mid, deed, leads, before, full, .refl⟩
  | promote _ ih => exact (ih overflowed).then Leads.refl.promote
  | @pop during mid started entry _ popped ih =>
    obtain ⟨pending, -, eq⟩ := Context.pop?_eq_some popped
    have before : mid.overflowed = true := by
      rw [eq] at overflowed
      exact overflowed
    exact (ih before).then (Leads.refl.pop popped)
  | settle _ ih => exact (ih overflowed).then Leads.refl.settle
  | finish outcome _ ih => exact (ih overflowed).then (Leads.refl.finish outcome)

/-! ## After an overflow -/

namespace Context.Accounted

/-- An overflowed context is empty. -/
theorem queue_eq_nil (h : ctx.Accounted running) (overflowed : ctx.overflowed = true) :
    ctx.pending.entries = [] ∧ ctx.staging = #[] := by
  rcases List.append_eq_nil_iff.mp (h.cleared overflowed) with ⟨staging, pending⟩
  exact ⟨pending, Array.toList_eq_nil_iff.mp staging⟩

/-- After an overflow there is never anything to take. -/
theorem pop?_eq_none_of_overflowed (h : ctx.Accounted running) (overflowed : ctx.overflowed = true)
    (leads : Leads running ctx running' ctx') : ctx'.pop? = none := by
  have empty := (h.leads leads).accounted.queue_eq_nil (leads.overflowed overflowed)
  exact (ctx'.pop?_eq_none_iff).mpr empty.1

/-- With room in the queue, an action for a live frame makes it longer by one entry. -/
theorem queued_enqueue (h : ctx.Accounted running) (intact : ctx.overflowed = false)
    (room : ctx.queued ≤ ctx.limits.maxQueueDepth) {id : FrameId} {frame : Frame}
    (live : ctx.frame? id = some frame) (action : Action E) :
    (ctx.enqueue id action).overflowed = false ∧
      (ctx.enqueue id action).queued = ctx.queued + 1 := by
  rcases Context.enqueue_of_room h intact room live action with ⟨frames, -, -, -, eq⟩
  rw [eq]
  exact ⟨intact, by simp [Context.queued, Nat.add_assoc]⟩

end Context.Accounted

/-! ## Runs -/

/-- A run loop whose entry ends with the queue overflowed ends right after it. -/
theorem Turns.run_overflowed {host : Host E} {before : List (Start E)} {mid started after : Context E}
    {entry : Entry E} {fuel : Nat} (turns : Turns host ctx.promote before mid)
    (funded : mid.quota.isExhausted = false) (popped : mid.pop? = some (entry, started))
    (performed : Context.perform host fuel entry.action entry.frame started = some after)
    (overflowed : after.overflowed = true) :
    ∃ enough final, ∀ fuel, enough ≤ fuel → ctx.run host fuel = some (.overflowed, final) := by
  let start : Start E := ⟨entry, started⟩
  have last : Course host mid [start] .overflowed _ :=
    .overflowed funded popped performed overflowed
  rcases (turns.course last).exists_drain with ⟨enough, drained⟩
  exact ⟨enough, _, fun fuel le => Context.drain_mono le drained⟩

/-- A run reports the overflows of its own entries, and no others. -/
theorem Course.outcome_overflowed_iff {host : Host E} {starts : List (Start E)} {outcome : Outcome}
    {final : Context E} (course : Course host ctx starts outcome final)
    (h : ctx.Accounted running) :
    outcome = .overflowed ↔ ctx.overflowed = false ∧ final.overflowed = true := by
  induction course with
  | @exhausted ctx =>
    have same : ((ctx.notify (.limitReached ctx.limits.commandLimit)).finish
        .quotaExhausted).2.overflowed = ctx.overflowed := rfl
    rw [same]
    simp
  | @completed ctx =>
    have same : (ctx.finish .completed).2.overflowed = ctx.overflowed := rfl
    rw [same]
    simp
  | overflowed _ popped _ overflowed =>
    have intact := h.intact_of_pop popped
    exact ⟨fun _ => ⟨intact, overflowed⟩, fun _ => rfl⟩
  | turn turn _ ih =>
    have intact := h.intact_of_pop turn.popped
    have later := ih (h.leads (.turn turn)).accounted
    rw [later, turn.intact, intact]

/-- The queue never holds more than one entry beyond its bound.  It overflows exactly when an action
is queued while it does hold that many, and then stays empty for good: no entry is started any more,
and each run loop whose entry ends after the overflow ends with that outcome, however it is nested. -/
theorem overflow_latched {α : Type} (host : Host E) (limits : Limits) (memory : E.Memory)
    (profiler : Profiler) (program : Program E α) (fuel : Nat) :
    let new : Context E := .create limits memory profiler
    (∀ running ctx, Leads [] new running ctx →
      ctx.queued ≤ limits.maxQueueDepth + 1 ∧
      (ctx.overflowed = false →
        (∀ deed : Deed E, (deed.apply ctx).2.overflowed = true ↔
          ∃ moment ∈ deed.queueings ctx, limits.maxQueueDepth < moment.queued) ∧
        (ctx.queued ≤ limits.maxQueueDepth → ∀ id frame action, ctx.frame? id = some frame →
          (ctx.enqueue id action).overflowed = false ∧
            (ctx.enqueue id action).queued = ctx.queued + 1)) ∧
      (ctx.overflowed = true → Overfilled [] new running ctx ∧
        ∀ running' ctx', Leads running ctx running' ctx' → ctx'.overflowed = true ∧
          ctx'.pending.entries = [] ∧ ctx'.staging = #[] ∧ ctx'.pop? = none) ∧
      (∀ before mid entry started spent after, Turns host ctx.promote before mid →
        mid.quota.isExhausted = false → mid.pop? = some (entry, started) →
        Context.perform host spent entry.action entry.frame started = some after →
        after.overflowed = true →
          ∃ enough final, ∀ fuel, enough ≤ fuel → ctx.run host fuel = some (.overflowed, final))) ∧
    (∀ before moment after,
      new.programHistory host fuel program = before ++ .seen moment :: after →
      (∃ running, Leads [] new running moment) ∧
        (moment.overflowed = true → ∀ action, .started action ∉ after)) := by
  intro new
  have created : new.Accounted [] := .create limits memory profiler
  refine ⟨?_, ?_⟩
  · intro running ctx leads
    have accounted := (created.leads leads).accounted
    have same : ctx.limits = limits := leads.limits
    refine ⟨?_, ?_, ?_, ?_⟩
    · rw [ctx.queued_eq_length, ← same]
      exact accounted.bounded
    · intro intact
      rw [← same]
      refine ⟨Context.overflowed_deed_iff intact, ?_⟩
      intro room id frame action live
      exact accounted.queued_enqueue intact room live action
    · intro overflowed
      refine ⟨leads.overfilled rfl overflowed, ?_⟩
      intro running' ctx' later
      have still := later.overflowed overflowed
      rcases (accounted.leads later).accounted.queue_eq_nil still with ⟨pending, staging⟩
      exact ⟨still, pending, staging, accounted.pop?_eq_none_of_overflowed overflowed later⟩
    · intro before mid entry started spent after turns funded popped performed overflowed
      exact turns.run_overflowed funded popped performed overflowed
  · intro before moment after eq
    rcases (new.programHistory_told host fuel program []).exists_told with ⟨running', ctx', told⟩
    rw [eq] at told
    rcases told.split_seen with ⟨during, earlier, later⟩
    refine ⟨⟨during, earlier.leads⟩, ?_⟩
    intro overflowed
    refine later.started_notMem ?_
    intro during' mid leads _
    exact (created.leads earlier.leads).accounted.pop?_eq_none_of_overflowed overflowed leads

/-- A command that forks for two sources. -/
def Chain.forking : Chain Embedding.bare :=
  let fork : Stage Embedding.bare :=
    { forked := true, redirect := .modifier fun source => .ok [source, source] }
  .ofStages "fork say" [fork] (.command { run := fun _ => .ok 1 })

/-- The command is queued, and there is no room for another entry. -/
def Context.forking : Context .bare :=
  (Context.create { maxQueueDepth := 0 } () .off).queueCommand .forking { name := "alex" } .empty

theorem Context.leads_forking : Leads [] (.create { maxQueueDepth := 0 } () .off) [] forking :=
  Leads.refl.deed (.effect (.queueCommand .forking { name := "alex" } .empty))

/-- A queue that may hold one entry takes a command, but not the two executions that it forks into.
-/
theorem overflow_latched_of_fork :
    ∃ (ctx after moment : Context .bare) (running : List FrameId) (program : Program .bare Bool)
        (earlier later : List (Happening .bare)),
      Leads [] (.create { maxQueueDepth := 0 } () .off) [] ctx ∧ ctx.queued = 1 ∧
      (ctx.enqueue ⟨0⟩ .fallthrough).overflowed = true ∧
      Leads [] ctx running after ∧ after.overflowed = true ∧ after.pop? = none ∧
      Overfilled [] (.create { maxQueueDepth := 0 } () .off) running after ∧
      (∃ enough final, ∀ fuel, enough ≤ fuel → ctx.run .bare fuel = some (.overflowed, final)) ∧
      (Context.create { maxQueueDepth := 0 } () .off).programHistory .bare 8 program =
        earlier ++ .seen moment :: later ∧ ∀ action, .started action ∉ later := by
  let program : Program .bare Bool := do
    Program.ofRoutine (.effect (.queueCommand .forking { name := "alex" } .empty))
    let _ ← Program.run
    Program.ofRoutine (.effect (.ask .overflowed))
  let new : Context .bare := .create { maxQueueDepth := 0 } () .off
  let history := new.programHistory .bare 8 program
  obtain ⟨contexts, moments⟩ := overflow_latched .bare { maxQueueDepth := 0 } () .off program 8
  -- The command is queued in a frame of its own.
  have pushed : Leads [] new [] (new.pushTopFrame .empty).2 :=
    Leads.refl.deed (.effect (.pushFrame _))
  obtain ⟨-, accepts, -, -⟩ := contexts _ _ pushed
  obtain ⟨intact, one⟩ :=
    (accepts rfl).2 (Nat.le_refl 0) ⟨0⟩ _ (.topLevel .forking { name := "alex" }) rfl
  have queued := Context.leads_forking
  obtain ⟨-, fills, -, runs⟩ := contexts _ _ queued
  have full := ((fills intact).1 (.effect (.enqueue ⟨0⟩ .fallthrough))).mpr
    ⟨_, List.mem_singleton_self _, Nat.zero_lt_one⟩
  -- Its resolution forks, and the second of the two executions is too much.
  let ctx := Context.forking
  have forked : (ctx.promote.pop?.bind fun head =>
      Context.perform .bare 1 head.1.action head.1.frame head.2).map (·.overflowed) = some true := by
    decide +kernel
  rcases Option.map_eq_some_iff.mp forked with ⟨after, forked, overflowed⟩
  rcases Option.bind_eq_some_iff.mp forked with ⟨⟨entry, started⟩, popped, performed⟩
  have leads : Leads [] ctx [entry.frame] after :=
    (Leads.refl.promote.pop popped).trans (.perform performed)
  obtain ⟨-, -, latched, -⟩ := contexts _ _ (queued.trans leads)
  obtain ⟨overfilled, still⟩ := latched overflowed
  obtain ⟨-, -, -, nothing⟩ := still _ _ .refl
  have ends := runs _ _ entry started 1 after (.refl _) rfl popped performed overflowed
  have shown : (history[6]?.bind Happening.moment?).map (·.overflowed) = some true := by
    decide +kernel
  rcases exists_moment shown with ⟨moment, split, late⟩
  exact ⟨ctx, after, moment, [entry.frame], program, _, _, queued, one, full, leads, overflowed,
    nothing, overfilled, ends, split, (moments _ _ _ split).2 late⟩

/-! ## What a run reports -/

/-- A run that begins after an overflow takes nothing. -/
theorem Course.outcome_of_overflowed {host : Host E} {starts : List (Start E)} {outcome : Outcome}
    {final : Context E} (course : Course host ctx starts outcome final)
    (h : ctx.Accounted running) (overflowed : ctx.overflowed = true) :
    outcome = if ctx.quota.isExhausted then .quotaExhausted else .completed := by
  have nothing := h.pop?_eq_none_of_overflowed overflowed .refl
  cases course with
  | exhausted exhausted => rw [if_pos exhausted]
  | completed funded _ => simp [funded]
  | overflowed _ popped _ _ => simp [nothing] at popped
  | turn turn _ => exact absurd (nothing.symm.trans turn.popped) (by simp)

/-- A run tells of an overflow if the queue has overflowed in the course of it.  An overflow between
two runs leaves nothing to take, so that the next run ends like one that has done all work, if it has
any units of the quota. -/
theorem run_reports_own_overflow (h : Reachable running ctx) {host : Host E} {fuel : Nat}
    {outcome : Outcome} {final : Context E} (ran : ctx.run host fuel = some (outcome, final)) :
    (outcome = .overflowed ↔ ctx.overflowed = false ∧ final.overflowed = true) ∧
    (ctx.overflowed = true →
      outcome = if ctx.quota.isExhausted then .quotaExhausted else .completed) := by
  have promoted := h.accounted.promote.accounted
  rcases Course.of_drain ran with ⟨starts, course⟩
  refine ⟨course.outcome_overflowed_iff promoted, ?_⟩
  intro overflowed
  exact course.outcome_of_overflowed promoted overflowed

/-- Queues a command. -/
def Deed.say : Deed Embedding.bare :=
  .effect (.queueCommand (.ofStages "say" [] (.command { run := fun _ => .ok 1 }))
    { name := "alex" } .empty)

/-- A run tells that the fork is too much for the queue.  If a second command is too much already,
the next run does not tell. -/
theorem run_reports_own_overflow_of_two_commands :
    (∃ final : Context .bare, Reachable [] .forking ∧ Context.forking.overflowed = false ∧
      Context.forking.run .bare 3 = some (.overflowed, final) ∧ final.overflowed = true) ∧
    ∃ ctx final : Context .bare, Reachable [] ctx ∧ ctx.overflowed = true ∧
      ctx.run .bare 1 = some (.completed, final) := by
  refine ⟨?_, ?_⟩
  · have reachable : Reachable [] Context.forking := ⟨_, _, _, Context.leads_forking⟩
    have ends : (Context.forking.run .bare 3).map (·.2.overflowed) = some true := by
      decide +kernel
    rcases Option.map_eq_some_iff.mp ends with ⟨⟨outcome, final⟩, ran, overflowed⟩
    obtain rfl := (run_reports_own_overflow reachable ran).1.mpr ⟨rfl, overflowed⟩
    exact ⟨final, reachable, rfl, ran, overflowed⟩
  · let new : Context .bare := .create { maxQueueDepth := 0 } () .off
    let ctx := (Deed.say.apply (Deed.say.apply new).2).2
    have reachable : Reachable [] ctx :=
      ⟨{ maxQueueDepth := 0 }, (), .off, (Leads.refl.deed .say).deed .say⟩
    have overflowed : ctx.overflowed = true := by decide +kernel
    have ends : (ctx.run .bare 1).isSome = true := by decide +kernel
    rcases Option.isSome_iff_exists.mp ends with ⟨⟨outcome, final⟩, ran⟩
    have told := (run_reports_own_overflow reachable ran).2 overflowed
    have funded : ctx.quota.isExhausted = false := by decide +kernel
    rw [funded] at told
    cases told
    exact ⟨ctx, final, reachable, overflowed, ran⟩

/-- So an overflow that drops queued work can stay unreported, although units of the quota are left.
-/
theorem overflow_between_runs_unreported :
    ¬ ∀ (ctx final : Context .bare) (deed : Deed .bare) (fuel : Nat) (outcome : Outcome),
      Reachable [] ctx → ctx.overflowed = false → 0 < ctx.queued →
      (deed.apply ctx).2.overflowed = true → 0 < (deed.apply ctx).2.quota.remaining →
      (deed.apply ctx).2.run .bare fuel = some (outcome, final) → outcome = .overflowed := by
  intro reported
  let ctx := (Deed.say.apply (.create { maxQueueDepth := 0 } () .off)).2
  have reachable : Reachable [] ctx :=
    ⟨{ maxQueueDepth := 0 }, (), .off, Leads.refl.deed .say⟩
  have ran : ((Deed.say.apply ctx).2.run .bare 1).map Prod.fst = some .completed := by
    decide +kernel
  rcases Option.map_eq_some_iff.mp ran with ⟨⟨outcome, final⟩, ran, completed⟩
  have overflowed := reported ctx final .say 1 outcome reachable (by decide +kernel)
    (by decide +kernel) (by decide +kernel) (by decide +kernel) ran
  rw [overflowed] at completed
  cases completed

end CommandScheduler
