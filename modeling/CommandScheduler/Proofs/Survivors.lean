import CommandScheduler.Proofs.Execution

/-!
# Survivors — a run of a single command

When a chain whose stages only replace sources is the only command of a new context, its run can be
said in full: which modifiers are entered and charged, for whom the command is executed, who is told
what, what is left of the quota and how the run ends.
-/

namespace CommandScheduler

/-! ## What listeners are told -/

/-- Whether an event tells a listener a result. -/
def Event.isFired {Mark : Type} : Event Mark → Bool
  | .fired .. => true
  | _ => false

section Told

variable {Mark : Type}

/-- Whatever is told to a listener is observable. -/
theorem Event.filter_isFired (events : List (Event Mark)) :
    (events.filter Event.isObservable).filter Event.isFired = events.filter Event.isFired := by
  rw [List.filter_filter]
  refine List.filter_congr fun event _ => ?_
  cases event <;> rfl

theorem Callback.filter_fire (callback : Callback) (result : Result) :
    (callback.fire result : List (Event Mark)).filter Event.isFired = callback.fire result := by
  refine List.filter_eq_self.mpr fun event mem => ?_
  rcases List.mem_map.mp mem with ⟨listener, -, rfl⟩
  rfl

namespace Setting

variable (setting : Setting)

theorem filter_traced (event : TraceEvent) :
    (setting.traced event : List (Event Mark)).filter Event.isFired = [] := by
  unfold traced
  cases setting.sink? <;> rfl

theorem filter_presented (source : Source) (error : CommandError) (forked : Bool) :
    (setting.presented source error forked : List (Event Mark)).filter Event.isFired = [] := by
  rw [presented, List.filter_append, filter_traced]
  rfl

theorem filter_performance (depth : Nat) (input : String) (command : Command) (forked : Bool)
    (source : Source) :
    (setting.performance depth input command forked source : List (Event Mark)).filter
        Event.isFired = source.callback.fire (command.result source) := by
  have start : (if command.quiet then [] else [.executed source.name] :
      List (Event Mark)).filter Event.isFired = [] := by
    cases command.quiet <;> rfl
  rw [performance, List.filter_append, List.filter_append, start, Callback.filter_fire]
  cases command.run source with
  | ok value => simp [filter_traced]
  | error error => simp [filter_presented]

theorem filter_shownUpTo (apply : Modifier) (origin : Source) (forked : Bool)
    (reached : List Source) :
    (setting.shownUpTo apply origin forked reached : List (Event Mark)).filter Event.isFired =
      [] := by
  have shown (source : Source) :
      (setting.shown apply forked source : List (Event Mark)).filter Event.isFired = [] := by
    unfold Setting.shown
    cases apply source with
    | ok sources => rfl
    | error error => simp [Event.isFired, filter_presented]
  have limited : (setting.limited origin forked : List (Event Mark)).filter Event.isFired = [] := by
    simp [Setting.limited, Event.isFired, filter_presented]
  rw [shownUpTo, List.filter_append, List.filter_flatMap]
  split <;> simp [shown, limited]

/-- A resolution tells no listener anything. -/
theorem filter_resolved {V : Vocabulary} (origin : Source) (initial : Flags)
    (sources : List Source) (passed : List (Stage V)) :
    (setting.resolved origin initial sources passed : Resolved Mark).events.filter Event.isFired =
      [] := by
  induction passed with
  | nil => rfl
  | cons stage passed ih =>
    simp only [resolved]
    split
    · simp [ih, filter_shownUpTo]
    · exact ih

end Setting
end Told

/-! ## The modifiers of a resolution -/

section Entered

variable {V : Vocabulary} {Mark : Type}

def Redirect.isModifier : Redirect V → Bool
  | modifier _ => true
  | passthrough | returnRun | custom _ => false

/-- How many modifiers a resolution comes to, among the stages passed, the latest of them first. -/
def Setting.entered (setting : Setting) (Mark : Type) (origin : Source) (initial : Flags)
    (sources : List Source) (passed : List (Stage V)) : Nat :=
  passed.tails.countP fun
    | [] => false
    | stage :: before => stage.redirect.isModifier &&
        (setting.resolved origin initial sources before : Resolved Mark).sources?.isSome

/-- Each modifier that a resolution comes to is charged. -/
theorem Setting.charges_resolved (setting : Setting) (origin : Source) (initial : Flags)
    (sources : List Source) (passed : List (Stage V)) :
    (setting.resolved origin initial sources passed : Resolved Mark).charges =
      setting.entered Mark origin initial sources passed := by
  induction passed with
  | nil => rfl
  | cons stage passed ih =>
    rw [entered, List.tails_cons, List.countP_cons]
    change _ = setting.entered Mark origin initial sources passed + _
    rw [← ih]
    cases goesOn : (setting.resolved origin initial sources passed : Resolved Mark).sources? with
    | none => simp [resolved, goesOn]
    | some reached =>
      cases redirect : stage.redirect <;> simp [resolved, goesOn, redirect, Redirect.isModifier]

end Entered

theorem Quota.iterate_charge_left (limit charges more : Nat) :
    Quota.charge^[more] (left limit charges) = left limit (charges + more) := by
  induction more with
  | zero => rfl
  | succ more ih => rw [Function.iterate_succ_apply', ih, charge_left, Nat.add_assoc]

/-- What some charges leave of a limit. -/
theorem Quota.remaining_iterate_charge {limit : Nat} (most : (limit : Int) ≤ greatest)
    (charges : Nat) :
    (charge^[charges] (ofLimit limit)).remaining = max ((limit : Int) - charges) least := by
  rw [ofLimit_eq_left, iterate_charge_left, left, Int.min_eq_left most, Nat.zero_add]

theorem Quota.funded_ofLimit {limit : Nat} (some : 1 ≤ limit) :
    (ofLimit limit).isExhausted = false := by
  rw [Bool.eq_false_iff, ne_eq, isExhausted_iff]
  simp only [ofLimit, greatest]
  omega

variable {E : Embedding}

/-- A command whose stages only replace sources runs alone in a new context, with a quota of at
least one unit and room for at least one entry.  It is executed for the survivors of its stages, in
order, as far as the units reach that the modifiers leave.  Each of these sources hears the result
of its own execution, once, and nobody else hears anything, the frame's callback included.  The run
completes exactly if there are more units than modifiers and survivors together, and otherwise ends
for want of quota. -/
theorem survivors_executed (host : Host E) {chain : Chain E} {command : Command}
    (plain : chain.ahead.all (·.redirect.isPlain) = true)
    (kind : chain.terminal = .command command) (source : Source) (callback : Callback)
    (limits : Limits) (memory : E.Memory) (profiler : Profiler) (sink? : Option Sink)
    (units : 1 ≤ limits.commandLimit) (most : (limits.commandLimit : Int) ≤ Quota.greatest)
    (room : 1 ≤ limits.maxQueueDepth) :
    let queued := ((Context.create limits memory profiler : Context E).install sink?).queueCommand
      chain source callback
    let setting : Setting := { forkLimit := limits.forkLimit, sink? }
    let stages := chain.ahead.reverse
    let last : Resolved E.Mark := setting.resolved source .initial [source] stages
    let entered := setting.entered E.Mark source .initial [source] stages
    let survivors := last.sources?.getD []
    let served := survivors.take (limits.commandLimit - entered)
    ∃ starts outcome final enough,
      Course host queued.promote starts outcome final ∧
      (∀ fuel, enough ≤ fuel → queued.run host fuel = some (outcome, final)) ∧
      executed starts = served ∧
      final.log.toList.filter Event.isFired =
        (served.flatMap fun source => source.callback.fire (command.result source)) ∧
      final.log.toList.filter Event.isObservable =
        (setting.traced (.command 0 chain.input) ++ last.events ++
          served.flatMap (setting.performance 0 chain.input command
            (chain.ahead.any (·.forked)))).filter Event.isObservable ∧
      final.quota.remaining =
        max ((limits.commandLimit : Int) - entered - served.length) Quota.least ∧
      ((entered : Int) ≤ Quota.greatest →
        final.quota.remaining = (limits.commandLimit : Int) - entered - served.length) ∧
      outcome = if entered + survivors.length < limits.commandLimit then .completed
        else .quotaExhausted := by
  intro queued setting stages last entered survivors served
  let scene : Scene E := { host, limits, sink? }
  let frame : Frame := { depth := 0, callback, scope := .clearAll }
  rcases poised_queueCommand limits memory profiler sink? chain source callback with ⟨poised, live⟩
  have waits : scene.Awaits [] frame ⟨0⟩ { quota := .ofLimit limits.commandLimit }
      [.topLevel chain source] [] queued.promote :=
    ⟨poised, fun _ => live⟩
  have charges : last.charges = entered := setting.charges_resolved _ _ _ _
  -- The tape after the resolution; what the modifiers leave of the quota pays for the executions.
  let started : Tape E.Mark := Tape.spend { quota := .ofLimit limits.commandLimit } last.charges
    (setting.traced (.command 0 chain.input) ++ last.events)
  have affords : started.affords survivors = served := by
    have units : started.quota.remaining.toNat = limits.commandLimit - entered := by
      simp only [started, Tape.spend, Quota.remaining_iterate_charge most, charges, Quota.least]
      omega
    rw [Tape.affords, units]
  let shows : Source → List (Event E.Mark) :=
    setting.performance 0 chain.input command (chain.ahead.any (·.forked))
  let tape : Tape E.Mark := Tape.spend { quota := .ofLimit limits.commandLimit }
    (entered + served.length)
    (setting.traced (.command 0 chain.input) ++ last.events ++ served.flatMap shows)
  have serve : started.serve shows survivors = tape := by
    rw [Tape.serve, affords, Tape.spend_spend, charges]
  have goes : queued.promote.Goes host (0 < limits.maxQueueDepth)
      (scene.Served [] frame ⟨0⟩ (started.serve shows survivors) []
        (started.affords survivors)) :=
    waits.starts (Quota.funded_ofLimit units) .topLevel plain kind
  rw [serve, affords] at goes
  rcases goes with ⟨narrow, -⟩ | ⟨starts, ctx, turns, executes, block, awaits, done⟩
  · exact absurd room narrow
  · obtain ⟨final, course, quota, events⟩ := awaits.poised.course fun unexhausted => by
      rw [done unexhausted]
      rfl
    have course := turns.course course
    rw [List.append_nil] at course
    rcases course.exists_drain with ⟨enough, drained⟩
    have remaining : final.quota.remaining =
        max ((limits.commandLimit : Int) - entered - served.length) Quota.least := by
      rw [quota]
      simp only [tape, Tape.spend, Quota.remaining_iterate_charge most]
      omega
    have length : served.length = min (limits.commandLimit - entered) survivors.length :=
      List.length_take
    refine ⟨starts, _, final, enough, course, fun fuel le => Context.drain_mono le drained,
      executes, ?_, events, remaining, ?_, ?_⟩
    · rw [← Event.filter_isFired, events]
      simp only [tape, Tape.spend, List.nil_append, Event.filter_isFired, List.filter_append,
        Setting.filter_traced, last, Setting.filter_resolved, List.filter_flatMap, shows,
        Setting.filter_performance]
    · intro few
      rw [remaining]
      simp only [Quota.greatest, Quota.least] at few ⊢
      omega
    · -- The last unit ends the run for want of quota, even if nothing more is queued.
      have exhausted : tape.quota.isExhausted = true ↔
          ¬ entered + survivors.length < limits.commandLimit := by
        rw [Quota.isExhausted_iff, ← quota, remaining]
        simp only [Quota.least]
        omega
      by_cases more : entered + survivors.length < limits.commandLimit
      · simp [more, exhausted]
      · simp [more, exhausted]

/-- A modifier and two of three survivors take the three units that there are. -/
theorem survivors_executed_of_three :
    ∃ (chain : Chain Embedding.bare) (starts : List (Start .bare)) (final : Context .bare)
        (enough : Nat),
      (∀ fuel, enough ≤ fuel →
        (((Context.create { commandLimit := 3 } () .off : Context .bare).install none).queueCommand
          chain (.named "alex") (.single (.label "root"))).run .bare fuel =
            some (.quotaExhausted, final)) ∧
      executed starts = [.named "bo", .named "cy"] ∧
      final.log.toList.filter Event.isFired =
        [.fired (.source "bo") (.success 1), .fired (.source "cy") .failure] ∧
      final.quota.remaining = 0 := by
  let split : Stage Embedding.bare :=
    { forked := true, redirect := .modifier fun _ => .ok [.named "bo", .named "cy", .named "di"] }
  let say : Command :=
    { run := fun source => if source.name = "cy" then .error (.failed "no") else .ok 1 }
  let chain : Chain Embedding.bare := .ofStages "split say" [split] (.command say)
  have plain : chain.ahead.all (·.redirect.isPlain) = true := rfl
  have kind : chain.terminal = .command say := rfl
  obtain ⟨starts, outcome, final, enough, -, runs, executes, told, -, -, exact, ended⟩ :=
    survivors_executed .bare plain kind (.named "alex") (.single (.label "root"))
      { commandLimit := 3 } () .off none (by decide) (by decide) (by decide)
  have completed : outcome = .quotaExhausted := ended
  rw [completed] at runs
  exact ⟨chain, starts, final, enough, runs, executes, told, exact (by decide)⟩

end CommandScheduler
