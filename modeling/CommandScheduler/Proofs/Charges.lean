import CommandScheduler.Proofs.History

/-!
# Charges — what the quota pays for

Each charged happening takes one unit, and nothing else touches the quota.  So what is left can be
read off the history at every moment that it shows, and since the run loop starts nothing without a
unit left, the quota bounds how many commands and functions it ever starts.
-/

namespace CommandScheduler

/-! ## Arithmetic of the quota -/

namespace Quota

/-- What is left of a limit after some charges. -/
def left (limit charges : Nat) : Quota :=
  { remaining := max (min (limit : Int) greatest - charges) least }

def chargeIf (quota : Quota) (charged : Bool) : Quota :=
  if charged then quota.charge else quota

theorem ofLimit_eq_left (limit : Nat) : ofLimit limit = left limit 0 := by
  simp only [ofLimit, left, greatest, least, Quota.mk.injEq]
  omega

theorem charge_left (limit charges : Nat) :
    (left limit charges).charge = left limit (charges + 1) := by
  simp only [left, charge, Quota.mk.injEq]
  omega

theorem chargeIf_left (limit charges : Nat) (charged : Bool) :
    (left limit charges).chargeIf charged = left limit (charges + charged.toNat) := by
  cases charged with
  | false => rfl
  | true => exact charge_left limit charges

theorem isExhausted_iff (quota : Quota) : quota.isExhausted = true ↔ quota.remaining ≤ 0 :=
  decide_eq_true_iff

/-- An exhausted quota can be overdrawn, but it stays exhausted. -/
theorem isExhausted_chargeIf {quota : Quota} (h : quota.isExhausted = true) (charged : Bool) :
    (quota.chargeIf charged).isExhausted = true := by
  cases charged with
  | false => exact h
  | true =>
    rw [isExhausted_iff] at h ⊢
    simp only [chargeIf, if_true, charge, least]
    omega

/-- As long as something is left, there were fewer charges than the limit has units. -/
theorem charges_lt_of_funded {limit charges : Nat} (h : (left limit charges).isExhausted = false) :
    (charges : Int) < min (limit : Int) greatest := by
  have some : ¬ (left limit charges).remaining ≤ 0 := by
    rw [← isExhausted_iff, h]
    exact Bool.false_ne_true
  simp only [left, least] at some
  omega

end Quota

variable {E : Embedding} {running running' : List FrameId} {ctx ctx' : Context E}

/-! ## Deeds and moves of the loop -/

namespace Context

theorem quota_chargeIf (ctx : Context E) (charged : Bool) :
    (ctx.chargeIf charged).quota = ctx.quota.chargeIf charged := by
  cases charged <;> rfl

/-- Only a charge changes the quota. -/
theorem quota_deed (deed : Deed E) (ctx : Context E) :
    (deed.apply ctx).2.quota = ctx.quota.chargeIf deed.isCharge := by
  rcases deed.exists_queues ctx with ⟨mid, id, actions, queues⟩
  rw [queues.result, mid.quota_enqueueAll, queues.quota, quota_chargeIf]

theorem quota_of_pop {started : Context E} {entry : Entry E}
    (popped : ctx.pop? = some (entry, started)) : started.quota = ctx.quota := by
  obtain ⟨pending, -, rfl⟩ := pop?_eq_some popped
  rfl

end Context

/-- An exhausted quota stays exhausted, whatever happens. -/
theorem Leads.exhausted (leads : Leads running ctx running' ctx')
    (h : ctx.quota.isExhausted = true) : ctx'.quota.isExhausted = true := by
  refine leads.preserves (P := fun _ quota _ => quota.isExhausted = true) ?_ h
  intro deed mid exhausted
  rw [Context.quota_deed]
  exact Quota.isExhausted_chargeIf exhausted _

/-! ## Histories -/

theorem Happens.quota {happening : Happening E}
    (happens : Happens running ctx happening running' ctx') :
    ctx'.quota = ctx.quota.chargeIf happening.isCharged := by
  cases happens with
  | seen => rfl
  | did effect => cases effect <;> exact Context.quota_deed (.effect _) ctx
  | entered stage => exact ctx.quota_chargeIf _
  | started _ popped =>
    rw [Context.quota_chargeIf, Context.quota_of_pop popped]
    rfl
  | performed action => exact ctx.quota_chargeIf _

theorem Quiet.quota (quiet : Quiet running ctx running' ctx') : ctx'.quota = ctx.quota := by
  cases quiet with
  | deed deed free =>
    rw [Context.quota_deed, free]
    rfl
  | promote => rfl
  | settle => rfl
  | finish outcome => rfl

/-- Whether the run loop starts a charged action. -/
def Happening.isPaidStart : Happening E → Bool
  | .started action => action.isCharged
  | .seen _ | .did _ | .entered _ | .performed _ => false

/-- The run loop starts charged actions only while a unit is left. -/
theorem Happens.charged_of_paidStart {happening : Happening E}
    (happens : Happens running ctx happening running' ctx')
    (paidStart : happening.isPaidStart = true) :
    happening.isCharged = true ∧ ctx.quota.isExhausted = false := by
  cases happens with
  | started funded _ => exact ⟨paidStart, funded⟩
  | _ => cases paidStart

namespace Told

variable {history : List (Happening E)} {limit paid : Nat}

/-- The history accounts for the quota. -/
theorem quota (told : Told running ctx history running' ctx') (h : ctx.quota = .left limit paid) :
    ctx'.quota = .left limit (paid + history.countP Happening.isCharged) := by
  induction told generalizing paid with
  | refl => exact h
  | @happens _ _ _ _ _ _ happening _ happens _ ih =>
    have later := ih (by rw [happens.quota, h, Quota.chargeIf_left])
    cases charged : happening.isCharged <;> simp [later, charged, Nat.add_assoc, Nat.add_comm]
  | quiet quiet _ ih => exact ih (quiet.quota.trans h)

/-- Each charged action that the run loop starts takes a unit that was left. -/
theorem paidStarts_le (told : Told running ctx history running' ctx')
    (h : ctx.quota = .left limit paid) :
    (history.countP Happening.isPaidStart : Int) ≤
      max (min (limit : Int) Quota.greatest - paid) 0 := by
  induction told generalizing paid with
  | refl =>
    rw [List.countP_nil]
    omega
  | @happens _ _ _ _ _ _ happening history happens _ ih =>
    have later := ih (by rw [happens.quota, h, Quota.chargeIf_left])
    cases paidStart : happening.isPaidStart with
    | true =>
      rcases happens.charged_of_paidStart paidStart with ⟨charged, funded⟩
      rw [h] at funded
      have unit := Quota.charges_lt_of_funded funded
      rw [charged, Bool.toNat_true] at later
      rw [List.countP_cons_of_pos paidStart]
      omega
    | false =>
      -- What is charged here leaves no more than before.
      have free : ¬ happening.isPaidStart = true := by simp [paidStart]
      rw [List.countP_cons_of_neg free]
      omega
  | quiet quiet _ ih => exact ih (quiet.quota.trans h)

end Told

/-! ## Runs without a unit left -/

namespace Context

theorem queued_promote (ctx : Context E) : ctx.promote.queued = ctx.queued := by
  simp only [queued, promote, Backlog.prepend, Array.size_empty]
  omega

/-- Without a unit left, a run takes nothing and only moves what is staged. -/
theorem run_of_exhausted (host : Host E) (h : ctx.quota.isExhausted = true) (fuel : Nat) :
    ∃ final, ctx.run host (fuel + 1) = some (.quotaExhausted, final) ∧
      final.queued = ctx.queued ∧ final.frames = ctx.frames ∧
      ctx.runHistory host (fuel + 1) = [.seen ctx.promote] := by
  have exhausted : ctx.promote.quota.isExhausted = true := h
  refine ⟨((ctx.promote.notify (.limitReached ctx.limits.commandLimit)).finish .quotaExhausted).2,
    ?_, ctx.queued_promote, rfl, ?_⟩
  · rw [run, drain, if_pos exhausted]
    rfl
  · rw [runHistory, drainHistory, if_pos exhausted]

end Context

/-! ## The quota of a context -/

/-- What is left of the quota is the limit less the charges so far: one for each modifier stage that
a resolution comes to, for each command executed, for each function called and for each explicit
charge.  So the limit bounds how many commands and functions the run loop ever starts.  Once nothing
is left nothing is started, and each further run ends at once with the queue and the frames as they
were. -/
theorem quota_charged {α : Type} (host : Host E) (limits : Limits) (memory : E.Memory)
    (profiler : Profiler) (program : Program E α) (fuel : Nat) :
    let new : Context E := .create limits memory profiler
    let history := new.programHistory host fuel program
    let budget : Int := min (limits.commandLimit : Int) Quota.greatest
    (∀ before moment after, history = before ++ .seen moment :: after →
      moment.quota.remaining = max (budget - before.countP Happening.isCharged) Quota.least ∧
      (moment.quota.remaining ≤ 0 → ∀ action, .started action ∉ after)) ∧
    (∀ value final, new.runProgram host fuel program = some (value, final) →
      final.quota.remaining = max (budget - history.countP Happening.isCharged) Quota.least) ∧
    (history.countP Happening.isPaidStart : Int) ≤ budget ∧
    (∀ running running' (ctx ctx' : Context E), ctx.quota.remaining ≤ 0 →
      Leads running ctx running' ctx' → ∀ fuel, ∃ final,
        ctx'.run host (fuel + 1) = some (.quotaExhausted, final) ∧
          final.queued = ctx'.queued ∧ final.frames = ctx'.frames ∧
          ctx'.runHistory host (fuel + 1) = [.seen ctx'.promote]) := by
  intro new history budget
  have untouched : new.quota = .left limits.commandLimit 0 := Quota.ofLimit_eq_left _
  have tells := new.programHistory_told host fuel program []
  rcases tells.exists_told with ⟨running', ctx', told⟩
  refine ⟨?_, ?_, ?_, ?_⟩
  · intro before moment after eq
    change Told _ _ history _ _ at told
    rw [eq] at told
    rcases told.split_seen with ⟨during, earlier, later⟩
    refine ⟨?_, ?_⟩
    · have paid := earlier.quota untouched
      rw [Nat.zero_add] at paid
      rw [paid]
      rfl
    · intro exhausted
      refine later.started_notMem ?_
      intro during mid leads funded
      simp [leads.exhausted ((Quota.isExhausted_iff _).mpr exhausted)] at funded
  · intro value final ran
    rw [ran] at tells
    have paid := Told.quota tells untouched
    rw [Nat.zero_add] at paid
    rw [paid]
    rfl
  · have bound := told.paidStarts_le untouched
    have nonneg : 0 ≤ min (limits.commandLimit : Int) Quota.greatest := by
      simp only [Quota.greatest]
      omega
    change (history.countP Happening.isPaidStart : Int) ≤ _ at bound
    omega
  · intro running running' ctx ctx' exhausted leads fuel
    exact ctx'.run_of_exhausted host (leads.exhausted ((Quota.isExhausted_iff _).mpr exhausted)) fuel

/-- One unit is spent on a modifier stage, so the command behind it stays queued. -/
theorem quota_charged_of_one_unit :
    ∃ (program : Program .bare Outcome) (moment final : Context .bare)
        (before after : List (Happening .bare)),
      (Context.create { commandLimit := 1 } () .off).programHistory .bare 8 program =
        before ++ .seen moment :: after ∧
      moment.quota.remaining = 0 ∧ (∀ action, .started action ∉ after) ∧
      (Context.create { commandLimit := 1 } () .off).runProgram .bare 8 program =
        some (.quotaExhausted, final) ∧
      final.quota.remaining = 0 ∧
      ∀ fuel, ∃ later, final.run .bare (fuel + 1) = some (.quotaExhausted, later) ∧
        later.queued = 1 := by
  let stage : Stage Embedding.bare := { redirect := .modifier fun source => .ok [source] }
  let chain : Chain Embedding.bare :=
    .ofStages "as say" [stage] (.command { run := fun _ => .ok 1 })
  let program : Program .bare Outcome := do
    Program.ofRoutine (.effect (.queueCommand chain { name := "alex" } .empty))
    let _ ← Program.run
    Program.run
  let new : Context .bare := .create { commandLimit := 1 } () .off
  let history := new.programHistory .bare 8 program
  obtain ⟨moments, ends, -, later⟩ :=
    quota_charged .bare { commandLimit := 1 } () .off program 8
  -- After the stage the loop looks at the context again.
  have shown : (history[6]?.bind Happening.moment?).map (fun moment => moment.queued) = some 1 := by
    decide +kernel
  rcases exists_moment shown with ⟨moment, split, -⟩
  have paid : (history.take 6).countP Happening.isCharged = 1 := by decide +kernel
  have spent : history.countP Happening.isCharged = 1 := by decide +kernel
  rcases moments _ _ _ split with ⟨left, nothing⟩
  rw [paid] at left
  have ran : (new.runProgram .bare 8 program).map (fun result => (result.1, result.2.queued)) =
      some (.quotaExhausted, 1) := by
    decide +kernel
  rcases Option.map_eq_some_iff.mp ran with ⟨⟨outcome, final⟩, ran, eq⟩
  rcases Prod.mk.inj eq with ⟨rfl, queued⟩
  have rest := ends _ _ ran
  rw [spent] at rest
  refine ⟨program, moment, final, _, _, split, left, nothing (Int.le_of_eq left), ran, rest, ?_⟩
  intro fuel
  rcases later [] [] final final (Int.le_of_eq rest) .refl fuel with ⟨last, ran, same, -⟩
  exact ⟨last, ran, same.trans queued⟩

end CommandScheduler
