import CommandScheduler.Proofs.Procedure

/-!
# Course — the run loop as a relation

The run loop is a function with fuel.  Here it is also described turn by turn: a `Turn` takes one
entry from the queue and performs it, `Turns` are any number of them, and a `Course` is a whole run
with its outcome.  Courses list the entries that were started, each with the context it started in,
and are proved to be exactly the runs that end for some fuel.
-/

namespace CommandScheduler

/-! ## More fuel changes nothing -/

theorem Script.run?_mono {Op : Type} {Reply : Op → Type} {α σ : Type}
    {handle handle' : (op : Op) → σ → Option (Reply op × σ)}
    (le : ∀ op state result, handle op state = some result → handle' op state = some result)
    (script : Script Op Reply α) (state : σ) (result : α × σ)
    (h : script.run? handle state = some result) : script.run? handle' state = some result := by
  induction script generalizing state with
  | done value => exact h
  | call op next ih =>
    cases reply : handle op state with
    | none => simp [run?, reply] at h
    | some first =>
      have rest : (next first.1).run? handle first.2 = some result := by
        simpa [run?, reply] using h
      simpa [run?, le op state first reply] using ih first.1 first.2 rest

variable {E : Embedding}

/-- What an action does: the scheduler's own actions are procedures, all others are programs of the
embedding program. -/
inductive Work (E : Embedding) where
  | own (procedure : Procedure E Unit)
  | embedded (program : Program E Unit)

/-- The work of an action in a frame. -/
def Action.work (host : Host E) (frame : FrameId) : Action E → Work E
  | .topLevel chain source => .own (.start host chain source frame)
  | .continuation chain origin sources flags =>
    .own (.resolve host chain origin sources flags frame)
  | .fallthrough => .own (.fallThrough frame)
  | .fanOut first rest => .own (.expand first rest frame)
  | .line (.chain chain) source => .own (.start host chain source frame)
  | .execute chain flags source => .own (.executeCommand chain flags source frame)
  | .call function callback returnParent source =>
    .own (.callFunction function callback returnParent source frame)
  | .task code => .embedded (host.task code frame)
  | .line (.custom code) source => .embedded (host.line code source frame)

namespace Context

variable (host : Host E)

/-- Taking an entry takes the first pending one. -/
theorem pop?_eq_some {ctx started : Context E} {entry : Entry E}
    (h : ctx.pop? = some (entry, started)) :
    ∃ pending : Backlog E, ctx.pending.entries = entry :: pending.entries ∧
      started = { ctx with pending, depth := entry.depth } := by
  rcases Option.map_eq_some_iff.mp h with ⟨⟨first, pending⟩, taken, eq⟩
  cases eq
  refine ⟨pending, ?_, rfl⟩
  unfold Backlog.pop? at taken
  split at taken
  · cases taken
  · rename_i front rest cons
    cases taken
    exact cons

/-- Taking an entry leaves the others pending. -/
theorem pending_of_pop {ctx started : Context E} {entry : Entry E}
    (h : ctx.pop? = some (entry, started)) :
    ctx.pending.entries = entry :: started.pending.entries := by
  obtain ⟨pending, front, rfl⟩ := pop?_eq_some h
  exact front

theorem pop?_eq_none_iff (ctx : Context E) : ctx.pop? = none ↔ ctx.pending.entries = [] := by
  unfold pop? Backlog.pop?
  split
  · rename_i none
    simp [none]
  · rename_i entry rest some
    simp [some]

theorem exists_pop? {ctx : Context E} {entry : Entry E} {rest : List (Entry E)}
    (h : ctx.pending.entries = entry :: rest) :
    ∃ pending : Backlog E, pending.entries = rest ∧
      ctx.pop? = some (entry, { ctx with pending, depth := entry.depth }) := by
  cases popped : ctx.pop? with
  | none =>
    rw [(ctx.pop?_eq_none_iff).mp popped] at h
    cases h
  | some head =>
    rcases head with ⟨first, started⟩
    obtain ⟨pending, cons, rfl⟩ := pop?_eq_some popped
    rw [h] at cons
    cases cons
    exact ⟨pending, rfl, rfl⟩

theorem perform_succ (fuel : Nat) (action : Action E) (frame : FrameId) (ctx : Context E) :
    perform host (fuel + 1) action frame ctx =
      match action.work host frame with
      | .own procedure => some (procedure.apply ctx)
      | .embedded program =>
        (program.run? (instruct (perform host fuel) (drain host fuel)) ctx).map (·.2) := by
  cases action with
  | topLevel chain source => simp [perform, Action.work, Procedure.apply_start]
  | continuation chain origin sources flags =>
    simp [perform, Action.work, Procedure.apply_resolve]
  | fallthrough => simp [perform, Action.work, Procedure.apply_fallThrough]
  | fanOut first rest => simp [perform, Action.work, Procedure.apply_expand]
  | task code => simp [perform, Action.work]
  | line line source =>
    cases line with
    | chain chain => simp [perform, Action.work, Procedure.apply_start]
    | custom code => simp [perform, Action.work]
  | execute chain flags source => simp [perform, Action.work, Procedure.apply_executeCommand]
  | call function callback returnParent source =>
    simp [perform, Action.work, Procedure.apply_callFunction]

theorem perform_own {action : Action E} {frame : FrameId} {procedure : Procedure E Unit}
    (own : action.work host frame = .own procedure) (ctx : Context E) :
    perform host 1 action frame ctx = some (procedure.apply ctx) := by
  rw [perform_succ, own]

theorem instruct_mono {perform perform' : Action E → FrameId → Context E → Option (Context E)}
    {drain drain' : Context E → Option (Outcome × Context E)}
    (hperform : ∀ action frame ctx after,
      perform action frame ctx = some after → perform' action frame ctx = some after)
    (hdrain : ∀ ctx result, drain ctx = some result → drain' ctx = some result)
    (op : Instruction E) (ctx : Context E) (result : op.Reply × Context E)
    (h : instruct perform drain op ctx = some result) :
    instruct perform' drain' op ctx = some result := by
  cases op with
  | effect effect => exact h
  | perform action frame =>
    rcases Option.map_eq_some_iff.mp h with ⟨after, hafter, rfl⟩
    simp [instruct, hperform _ _ _ _ hafter]
  | run => exact hdrain _ _ h

/-- One more unit of fuel changes no answer.  Performing and draining call each other, so both are
proved in one induction. -/
theorem perform_drain_succ (fuel : Nat) :
    (∀ action frame ctx after, perform host fuel action frame ctx = some after →
      perform host (fuel + 1) action frame ctx = some after) ∧
    (∀ ctx result, drain host fuel ctx = some result → drain host (fuel + 1) ctx = some result) := by
  induction fuel with
  | zero =>
    refine ⟨?_, ?_⟩
    · intro action frame ctx after h
      simp [perform] at h
    · intro ctx result h
      simp [drain] at h
  | succ fuel ih =>
    rcases ih with ⟨hperform, hdrain⟩
    refine ⟨?_, ?_⟩
    · intro action frame ctx after h
      rw [perform_succ] at h ⊢
      cases work : action.work host frame with
      | own procedure => simpa [work] using h
      | embedded program =>
        rw [work] at h
        -- What the program calls has one unit less, and so the induction applies to it.
        rcases Option.map_eq_some_iff.mp h with ⟨result, hrun, rfl⟩
        have later := Script.run?_mono (instruct_mono hperform hdrain) program ctx result hrun
        simp [later]
    · intro ctx result h
      rw [drain] at h ⊢
      split at h
      · rename_i exhausted
        simpa [exhausted] using h
      · rename_i funded
        simp only [funded, Bool.false_eq_true, if_false]
        cases popped : ctx.pop? with
        | none => simpa [popped] using h
        | some head =>
          rcases head with ⟨entry, start⟩
          simp only [popped] at h ⊢
          cases performed : perform host fuel entry.action entry.frame start with
          | none => simp [performed] at h
          | some after =>
            simp only [performed] at h
            simp only [hperform _ _ _ _ performed]
            split
            · rename_i overflowed
              simpa [overflowed] using h
            · rename_i running
              simp only [running, Bool.false_eq_true, if_false] at h
              exact hdrain _ _ h

variable {host}

theorem perform_mono {fuel fuel' : Nat} (le : fuel ≤ fuel') {action : Action E} {frame : FrameId}
    {ctx after : Context E} (h : perform host fuel action frame ctx = some after) :
    perform host fuel' action frame ctx = some after := by
  induction le with
  | refl => exact h
  | step _ ih => exact (perform_drain_succ host _).1 _ _ _ _ ih

/-- Whatever the fuel, an action has only one outcome. -/
theorem perform_unique {fuel fuel' : Nat} {action : Action E} {frame : FrameId}
    {ctx after after' : Context E} (h : perform host fuel action frame ctx = some after)
    (h' : perform host fuel' action frame ctx = some after') : after = after' := by
  have long := perform_mono (Nat.le_max_left fuel fuel') h
  have long' := perform_mono (Nat.le_max_right fuel fuel') h'
  exact Option.some.inj (long.symm.trans long')

theorem drain_mono {fuel fuel' : Nat} (le : fuel ≤ fuel') {ctx : Context E}
    {result : Outcome × Context E} (h : drain host fuel ctx = some result) :
    drain host fuel' ctx = some result := by
  induction le with
  | refl => exact h
  | step _ ih => exact (perform_drain_succ host _).2 _ _ ih

/-- What any amount of fuel has shown is what enough fuel shows. -/
theorem drain_unique {fuel enough : Nat} {ctx : Context E} {result result' : Outcome × Context E}
    (drained : drain host fuel ctx = some result)
    (runs : ∀ fuel, enough ≤ fuel → drain host fuel ctx = some result') : result' = result := by
  have late := runs (max fuel enough) (Nat.le_max_right fuel enough)
  exact Option.some.inj (late.symm.trans (drain_mono (Nat.le_max_left fuel enough) drained))

end Context

/-- Does a piece of work. -/
def Work.perform (host : Host E) (fuel : Nat) : Work E → Context E → Option (Context E)
  | .own procedure, ctx => some (procedure.apply ctx)
  | .embedded program, ctx =>
    (program.run? (Context.instruct (Context.perform host fuel) (Context.drain host fuel)) ctx).map
      (·.2)

theorem Work.perform_action (host : Host E) (fuel : Nat) (action : Action E) (frame : FrameId)
    (ctx : Context E) :
    Context.perform host (fuel + 1) action frame ctx =
      (action.work host frame).perform host fuel ctx := by
  rw [Context.perform_succ]
  cases action.work host frame <;> rfl

/-! ## Turns and courses -/

/-- An entry and the context in which it starts. -/
structure Start (E : Embedding) where
  entry : Entry E
  context : Context E

/-- One turn of the run loop that is followed by another one. -/
structure Turn (host : Host E) (ctx : Context E) (start : Start E) (next : Context E) : Prop where
  funded : ctx.quota.isExhausted = false
  popped : ctx.pop? = some (start.entry, start.context)
  performed : ∃ fuel after,
    Context.perform host fuel start.entry.action start.entry.frame start.context = some after ∧
      (after.settle start.entry.frame).overflowed = false ∧
      next = (after.settle start.entry.frame).promote

/-- Any number of turns. -/
inductive Turns (host : Host E) : Context E → List (Start E) → Context E → Prop where
  | refl (ctx : Context E) : Turns host ctx [] ctx
  | head {ctx mid next : Context E} {start : Start E} {starts : List (Start E)} :
      Turn host ctx start mid → Turns host mid starts next → Turns host ctx (start :: starts) next

/-- A whole run of the loop, with the entries it started. -/
inductive Course (host : Host E) :
    Context E → List (Start E) → Outcome → Context E → Prop where
  | exhausted {ctx : Context E} : ctx.quota.isExhausted = true →
      Course host ctx [] .quotaExhausted
        ((ctx.notify (.limitReached ctx.limits.commandLimit)).finish .quotaExhausted).2
  | completed {ctx : Context E} : ctx.quota.isExhausted = false → ctx.pop? = none →
      Course host ctx [] .completed (ctx.finish .completed).2
  | overflowed {ctx after : Context E} {start : Start E} {fuel : Nat} :
      ctx.quota.isExhausted = false → ctx.pop? = some (start.entry, start.context) →
      Context.perform host fuel start.entry.action start.entry.frame start.context = some after →
      (after.settle start.entry.frame).overflowed = true →
      Course host ctx [start] .overflowed
        (((after.settle start.entry.frame).notify
          (.queueOverflowed (after.settle start.entry.frame).limits.maxQueueDepth)).finish
            .overflowed).2
  | turn {ctx next final : Context E} {start : Start E} {starts : List (Start E)}
      {outcome : Outcome} :
      Turn host ctx start next → Course host next starts outcome final →
        Course host ctx (start :: starts) outcome final

/-- The turn of an action of the scheduler does what its procedure does. -/
theorem Turn.own {host : Host E} {ctx next : Context E} {start : Start E}
    (turn : Turn host ctx start next) {procedure : Procedure E Unit}
    (own : start.entry.action.work host start.entry.frame = .own procedure) :
    (procedure.apply start.context).overflowed = false ∧
      next = ((procedure.apply start.context).settle start.entry.frame).promote := by
  rcases turn with ⟨-, -, fuel, after, performed, intact, rfl⟩
  obtain rfl := Context.perform_unique performed (Context.perform_own host own start.context)
  exact ⟨intact, rfl⟩

namespace Turn

variable {host : Host E} {ctx next : Context E} {start : Start E}

theorem pending_eq (turn : Turn host ctx start next) :
    ctx.pending.entries = start.entry :: start.context.pending.entries :=
  Context.pending_of_pop turn.popped

theorem intact (turn : Turn host ctx start next) : next.overflowed = false := by
  rcases turn with ⟨-, -, fuel, after, -, intact, rfl⟩
  exact intact

/-- All that was queued is pending when the next turn begins. -/
theorem staging_eq (turn : Turn host ctx start next) : next.staging = #[] := by
  rcases turn with ⟨-, -, fuel, after, -, -, rfl⟩
  rfl

theorem fresh_eq (turn : Turn host ctx start next) : next.frames.fresh = [] := by
  rcases turn with ⟨-, -, fuel, after, -, -, rfl⟩
  rfl

end Turn

namespace Turns

variable {host : Host E} {ctx mid next : Context E}

theorem single {start : Start E} (turn : Turn host ctx start next) : Turns host ctx [start] next :=
  .head turn (.refl next)

theorem trans {starts starts' : List (Start E)} (first : Turns host ctx starts mid)
    (second : Turns host mid starts' next) : Turns host ctx (starts ++ starts') next := by
  induction first with
  | refl => exact second
  | head turn _ ih => exact .head turn (ih second)

theorem course {starts starts' : List (Start E)} {outcome : Outcome} {final : Context E}
    (turns : Turns host ctx starts mid) (course : Course host mid starts' outcome final) :
    Course host ctx (starts ++ starts') outcome final := by
  induction turns with
  | refl => exact course
  | head turn _ ih => exact .turn turn (ih course)

end Turns

namespace Course

variable {host : Host E} {ctx final : Context E} {starts : List (Start E)} {outcome : Outcome}

/-- A run that ends has a course. -/
theorem of_drain {fuel : Nat} (h : Context.drain host fuel ctx = some (outcome, final)) :
    ∃ starts, Course host ctx starts outcome final := by
  induction fuel generalizing ctx with
  | zero => simp [Context.drain] at h
  | succ fuel ih =>
    rw [Context.drain] at h
    -- The cases are those of the loop, in its order.
    by_cases exhausted : ctx.quota.isExhausted = true
    · simp only [exhausted, if_true, Option.some.injEq] at h
      cases h
      exact ⟨[], .exhausted exhausted⟩
    · have funded : ctx.quota.isExhausted = false := by simpa using exhausted
      simp only [funded, Bool.false_eq_true, if_false] at h
      cases popped : ctx.pop? with
      | none =>
        simp only [popped, Option.some.injEq] at h
        cases h
        exact ⟨[], .completed funded popped⟩
      | some head =>
        rcases head with ⟨entry, started⟩
        simp only [popped] at h
        cases performed : Context.perform host fuel entry.action entry.frame started with
        | none => simp [performed] at h
        | some after =>
          simp only [performed] at h
          by_cases overflowed : (after.settle entry.frame).overflowed = true
          · simp only [overflowed, if_true, Option.some.injEq] at h
            cases h
            let start : Start E := ⟨entry, started⟩
            exact ⟨[start], .overflowed funded popped performed overflowed⟩
          · have running : (after.settle entry.frame).overflowed = false := by
              simpa using overflowed
            simp only [running, Bool.false_eq_true, if_false] at h
            rcases ih h with ⟨starts, course⟩
            exact ⟨⟨entry, started⟩ :: starts,
              .turn ⟨funded, popped, fuel, after, performed, running, rfl⟩ course⟩

/-- A course is followed by the loop for some fuel. -/
theorem exists_drain (course : Course host ctx starts outcome final) :
    ∃ fuel, Context.drain host fuel ctx = some (outcome, final) := by
  induction course with
  | exhausted exhausted => exact ⟨1, by simp [Context.drain, exhausted, Context.finish]⟩
  | completed funded popped => exact ⟨1, by simp [Context.drain, funded, popped, Context.finish]⟩
  | @overflowed ctx after start fuel funded popped performed overflowed =>
    exact ⟨fuel + 1, by
      simp [Context.drain, funded, popped, performed, overflowed, Context.finish]⟩
  | @turn ctx next final start starts outcome turn _ ih =>
    rcases turn with ⟨funded, popped, fuel, after, performed, running, rfl⟩
    rcases ih with ⟨fuel', drained⟩
    refine ⟨max fuel fuel' + 1, ?_⟩
    -- The turn and the rest of the run each have their own fuel.
    have hperform := Context.perform_mono (Nat.le_max_left fuel fuel') performed
    have hdrain := Context.drain_mono (Nat.le_max_right fuel fuel') drained
    simp [Context.drain, funded, popped, hperform, running, hdrain]

/-- With enough fuel two courses are followed at once. -/
theorem exists_enough {ctx' final' : Context E} {starts' : List (Start E)} {outcome' : Outcome}
    (course : Course host ctx starts outcome final)
    (course' : Course host ctx' starts' outcome' final') :
    ∃ enough, ∀ fuel, enough ≤ fuel →
      Context.drain host fuel ctx = some (outcome, final) ∧
      Context.drain host fuel ctx' = some (outcome', final') := by
  rcases course.exists_drain with ⟨enough, drained⟩
  rcases course'.exists_drain with ⟨enough', drained'⟩
  refine ⟨max enough enough', fun fuel le => ⟨?_, ?_⟩⟩
  · exact Context.drain_mono (Nat.le_trans (Nat.le_max_left _ _) le) drained
  · exact Context.drain_mono (Nat.le_trans (Nat.le_max_right _ _) le) drained'

/-- A course is made of turns and an end; only an overflow happens in the middle of a step. -/
theorem exists_turns (course : Course host ctx starts outcome final) :
    ∃ before mid, Turns host ctx before mid ∧
      (starts = before ∧ Course host mid [] outcome final ∨
        outcome = .overflowed ∧ ∃ start, starts = before ++ [start] ∧
          mid.pop? = some (start.entry, start.context)) := by
  induction course with
  | exhausted exhausted => exact ⟨[], _, .refl _, .inl ⟨rfl, .exhausted exhausted⟩⟩
  | completed funded empty => exact ⟨[], _, .refl _, .inl ⟨rfl, .completed funded empty⟩⟩
  | overflowed _ popped _ _ => exact ⟨[], _, .refl _, .inr ⟨rfl, _, rfl, popped⟩⟩
  | turn turn _ ih =>
    rcases ih with ⟨before, mid, turns, ⟨rfl, course⟩ | ⟨overflowed, last, rfl, popped⟩⟩
    · exact ⟨_, mid, .head turn turns, .inl ⟨rfl, course⟩⟩
    · exact ⟨_, mid, .head turn turns, .inr ⟨overflowed, last, rfl, popped⟩⟩

theorem exists_iff_drain :
    (∃ starts, Course host ctx starts outcome final) ↔
      ∃ fuel, Context.drain host fuel ctx = some (outcome, final) :=
  ⟨fun ⟨_, course⟩ => course.exists_drain, fun ⟨_, h⟩ => of_drain h⟩

end Course
end CommandScheduler
