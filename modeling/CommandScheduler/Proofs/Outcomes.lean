import CommandScheduler.Proofs.Charges

/-!
# Outcomes — what the outcome of a run tells about the queue

The run loop looks at the quota before it looks at the queue.  So a run that completes leaves
nothing queued and something of the quota.  A run that stops for its quota leaves whatever its last
step has left, which may be nothing: the step may have spent the last unit on the last entry.
-/

namespace CommandScheduler

variable {E : Embedding} {host : Host E} {ctx mid next final : Context E}
  {starts : List (Start E)} {outcome : Outcome}

/-! ## The last step -/

/-- The turn spends what is left of the quota. -/
structure Turn.Spends (host : Host E) (ctx : Context E) (start : Start E) (next : Context E) :
    Prop where
  turn : Turn host ctx start next
  exhausted : next.quota.isExhausted = true

namespace Course

/-- A run that completes has found the queue empty, and it never leaves anything staged. -/
theorem queued_of_completed (course : Course host ctx starts outcome final)
    (staged : ctx.staging = #[]) (completed : outcome = .completed) :
    final.queued = 0 ∧ final.quota.isExhausted = false := by
  induction course with
  | exhausted => cases completed
  | completed funded empty =>
    refine ⟨?_, funded⟩
    have none := (Context.pop?_eq_none_iff _).mp empty
    simp [Context.queued, Context.finish, Backlog.size_eq, none, staged]
  | overflowed => cases completed
  | turn turn _ ih => exact ih turn.staging_eq completed

theorem exhausted_of_outcome (course : Course host ctx starts outcome final)
    (stopped : outcome = .quotaExhausted) : final.quota.isExhausted = true := by
  induction course with
  | exhausted exhausted => exact exhausted
  | completed => cases stopped
  | overflowed => cases stopped
  | turn _ _ ih => exact ih stopped

/-- A run that stops for its quota has either begun without any, or its last step has spent it; what
was queued then stays queued. -/
theorem exists_last (course : Course host ctx starts outcome final)
    (stopped : outcome = .quotaExhausted) :
    (starts = [] ∧ ctx.quota.isExhausted = true ∧ final.queued = ctx.queued) ∨
      ∃ before mid last next, starts = before ++ [last] ∧ Turns host ctx before mid ∧
        Turn.Spends host mid last next ∧ final.queued = next.queued := by
  induction course with
  | exhausted exhausted => exact .inl ⟨rfl, exhausted, rfl⟩
  | completed => cases stopped
  | overflowed => cases stopped
  | @turn ctx next final start starts outcome turn _ ih =>
    rcases ih stopped with ⟨rfl, exhausted, queued⟩ | later
    · exact .inr ⟨[], ctx, start, next, rfl, .refl ctx, ⟨turn, exhausted⟩, queued⟩
    · rcases later with ⟨before, mid, last, after, rfl, turns, spends, queued⟩
      exact .inr ⟨start :: before, mid, last, after, rfl, .head turn turns, spends, queued⟩

end Course

/-! ## The outcome of a run -/

/-- Whatever the context and its program, a run that completes leaves nothing queued and something
of the quota.  A run that stops for its quota leaves nothing of it; if it began with some, its last
step has spent the last of it, and what this step left in the queue is what the run leaves there.
-/
theorem outcome_tells_queue {fuel : Nat} (ran : ctx.run host fuel = some (outcome, final)) :
    (outcome = .completed → final.queued = 0 ∧ 0 < final.quota.remaining) ∧
    (outcome = .quotaExhausted →
      final.quota.remaining ≤ 0 ∧
      (ctx.quota.remaining ≤ 0 → final.queued = ctx.queued) ∧
      (0 < ctx.quota.remaining → ∃ before mid last next, Turns host ctx.promote before mid ∧
        Turn.Spends host mid last next ∧ final.queued = next.queued)) := by
  rcases Course.of_drain ran with ⟨starts, course⟩
  refine ⟨?_, ?_⟩
  · intro completed
    rcases course.queued_of_completed rfl completed with ⟨queued, funded⟩
    refine ⟨queued, ?_⟩
    have some : ¬ final.quota.remaining ≤ 0 := by
      rw [← Quota.isExhausted_iff, funded]
      exact Bool.false_ne_true
    omega
  · intro stopped
    have spent := (Quota.isExhausted_iff _).mp (course.exhausted_of_outcome stopped)
    have same : ctx.promote.quota = ctx.quota := rfl
    rcases course.exists_last stopped with ⟨-, exhausted, queued⟩ | stepped
    · rw [Quota.isExhausted_iff, same] at exhausted
      exact ⟨spent, fun _ => queued.trans ctx.queued_promote, fun some => by omega⟩
    · rcases stepped with ⟨before, mid, last, next, -, turns, spends, queued⟩
      refine ⟨spent, ?_, fun _ => ⟨before, mid, last, next, turns, spends, queued⟩⟩
      intro none
      -- Without a unit left no turn is taken.
      have funded : ctx.promote.quota.isExhausted = false := by
        cases turns with
        | refl => exact spends.turn.funded
        | head first _ => exact first.funded
      rw [same, (Quota.isExhausted_iff _).mpr none] at funded
      cases funded

/-! ## A single command -/

/-- A command is queued in a new context with a limit. -/
def Context.commanded (limit : Nat) : Context .bare :=
  (Context.create { commandLimit := limit } () .off).queueCommand
    (.ofStages "say" [] (.command { run := fun _ => .ok 1 })) { name := "alex" } .empty

theorem Context.reachable_commanded (limit : Nat) : Reachable [] (Context.commanded limit) :=
  ⟨{ commandLimit := limit }, (), .off, Leads.refl.deed (.effect (.queueCommand _ _ _))⟩

/-- With two units the run of the command completes.  With one unit it stops, and its last step has
spent the unit. -/
theorem outcome_tells_queue_of_two_units :
    (∃ final, (Context.commanded 2).run .bare 4 = some (.completed, final) ∧ final.queued = 0 ∧
      0 < final.quota.remaining) ∧
    ∃ (final mid next : Context .bare) (before : List (Start .bare)) (last : Start .bare),
      (Context.commanded 1).run .bare 4 = some (.quotaExhausted, final) ∧
      final.quota.remaining ≤ 0 ∧ Turns .bare (Context.commanded 1).promote before mid ∧
      Turn.Spends .bare mid last next ∧ final.queued = next.queued := by
  refine ⟨?_, ?_⟩
  · have ran : ((Context.commanded 2).run .bare 4).map Prod.fst = some .completed := by
      decide +kernel
    rcases Option.map_eq_some_iff.mp ran with ⟨⟨outcome, final⟩, ran, rfl⟩
    exact ⟨final, ran, (outcome_tells_queue ran).1 rfl⟩
  · have ran : ((Context.commanded 1).run .bare 4).map Prod.fst = some .quotaExhausted := by
      decide +kernel
    rcases Option.map_eq_some_iff.mp ran with ⟨⟨outcome, final⟩, ran, rfl⟩
    obtain ⟨spent, -, stepped⟩ := (outcome_tells_queue ran).2 rfl
    rcases stepped (by decide +kernel) with ⟨before, mid, last, next, turns, spends, queued⟩
    exact ⟨final, mid, next, before, last, ran, spent, turns, spends, queued⟩

/-- The command costs the only unit there is, and the run does not complete although nothing is left
in the queue. -/
theorem last_unit_for_last_entry :
    ¬ ∀ (ctx final : Context .bare) (fuel : Nat), Reachable [] ctx → 0 < ctx.quota.remaining →
      ctx.run .bare fuel = some (.quotaExhausted, final) → 0 < final.queued := by
  intro left
  have ran : ((Context.commanded 1).run .bare 4).map
      (fun result => (result.1, result.2.queued)) = some (.quotaExhausted, 0) := by
    decide +kernel
  rcases Option.map_eq_some_iff.mp ran with ⟨⟨outcome, final⟩, ran, eq⟩
  rcases Prod.mk.inj eq with ⟨rfl, queued⟩
  have some := left _ final 4 (Context.reachable_commanded 1) (by decide +kernel) ran
  simp [queued] at some

end CommandScheduler
