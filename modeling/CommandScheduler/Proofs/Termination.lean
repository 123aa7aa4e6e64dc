import Mathlib.Data.Multiset.DershowitzManna
import Mathlib.Data.Prod.Lex
import CommandScheduler.Proofs.Layers

/-!
# Termination — native programs run out of work

Most steps charge nothing, a fan-out queues itself again, and one entry may be replaced by any number
of others.  So neither the quota nor the length of the queue bounds a run of native programs.  What
a step queues, however, always stands for less of the program than the entry that was taken, and so
the ranks of the pending entries decrease in the multiset order.
-/

namespace CommandScheduler

/-! ## The height of a program -/

section Height

variable {V : Vocabulary}

mutual

def Terminal.height : Terminal V → Nat
  | .call function => function.height
  | .command _ | .returnValue _ | .returnFailure | .custom _ => 0

/-- A call of the function stands above the fan-out of its lines, and that one above each line. -/
def Function.height : Function V → Nat
  | ⟨_, lines⟩ => linesHeight lines + 2

def linesHeight : List (Line V) → Nat
  | [] => 0
  | line :: rest => max line.height (linesHeight rest)

def Line.height : Line V → Nat
  | .chain chain => chain.height
  | .custom _ => 0

/-- Passing a stage makes a chain lower.  At its end it still stands above a fan-out of executions
or a call of its function. -/
def Chain.height : Chain V → Nat
  | ⟨_, _, ahead, terminal⟩ => ahead.length + terminal.height + 2

end

mutual

/-- How many steps can follow from an action one out of the other, fan-outs counted once. -/
def Action.height : Action V → Nat
  | .topLevel chain _ | .continuation chain .. => chain.height
  | .fallthrough | .execute .. | .task _ => 0
  | .fanOut first rest => max first.height (actionsHeight rest) + 1
  | .line line _ => line.height
  | .call function .. => function.height

def actionsHeight : List (Action V) → Nat
  | [] => 0
  | action :: rest => max action.height (actionsHeight rest)

end

theorem Line.height_le_of_mem {lines : List (Line V)} {line : Line V} (mem : line ∈ lines) :
    line.height ≤ linesHeight lines := by
  induction lines with
  | nil => cases mem
  | cons first rest ih =>
    rw [linesHeight]
    rcases List.mem_cons.mp mem with rfl | mem
    · exact Nat.le_max_left _ _
    · exact Nat.le_trans (ih mem) (Nat.le_max_right _ _)

theorem actionsHeight_le {actions : List (Action V)} {bound : Nat}
    (h : ∀ action ∈ actions, action.height ≤ bound) : actionsHeight actions ≤ bound := by
  induction actions with
  | nil => exact Nat.zero_le _
  | cons action rest ih =>
    rw [actionsHeight]
    exact Nat.max_le.mpr ⟨h action List.mem_cons_self,
      ih fun other mem => h other (List.mem_cons_of_mem _ mem)⟩

/-- A fan-out stands one above what it brings in. -/
theorem height_of_mem_fan {actions : List (Action V)} {bound : Nat}
    (h : ∀ action ∈ actions, action.height ≤ bound) {queued : Action V} (mem : queued ∈ fan actions) :
    queued.height ≤ bound + 1 := by
  match actions with
  | [] => cases mem
  | [_] | [_, _] => exact Nat.le_succ_of_le (h queued mem)
  | first :: second :: third :: rest =>
    obtain rfl := List.mem_singleton.mp mem
    have others := actionsHeight_le fun action (mem : action ∈ second :: third :: rest) =>
      h action (List.mem_cons_of_mem _ mem)
    rw [Action.height]
    exact Nat.succ_le_succ (Nat.max_le.mpr ⟨h first List.mem_cons_self, others⟩)

end Height

/-! ## Ranks -/

section Rank

variable {V : Vocabulary}

/-- The number of actions that a fan-out has left. -/
def Action.breadth : Action V → Nat
  | .fanOut _ rest => rest.length + 1
  | _ => 0

/-- A fan-out gets shorter before it gets lower. -/
def Action.rank (action : Action V) : Nat ×ₗ Nat :=
  toLex (action.height, action.breadth)

theorem Action.rank_lt_of_height_lt {action other : Action V} (h : action.height < other.height) :
    action.rank < other.rank :=
  Prod.Lex.lt_iff.mpr (.inl h)

/-- Both what a fan-out brings in and what is left of it rank below it. -/
theorem Action.rank_lt_of_expanded (first : Action V) (rest : List (Action V)) :
    ∀ queued ∈ first :: bundled rest, queued.rank < (Action.fanOut first rest).rank := by
  intro queued mem
  rcases List.mem_cons.mp mem with rfl | mem
  · refine rank_lt_of_height_lt ?_
    rw [Action.height]
    exact Nat.lt_succ_of_le (Nat.le_max_left _ _)
  · cases rest with
    | nil => cases mem
    | cons next rest =>
      obtain rfl := List.mem_singleton.mp mem
      have lower : (Action.fanOut next rest).height ≤ (Action.fanOut first (next :: rest)).height := by
        simp only [Action.height, actionsHeight]
        omega
      rcases Nat.lt_or_eq_of_le lower with lower | level
      · exact rank_lt_of_height_lt lower
      · exact Prod.Lex.lt_iff.mpr (.inr ⟨level, Nat.lt_succ_self _⟩)

end Rank

variable {E : Embedding}

/-! ## What a native action queues -/

namespace Site

variable {site : Site E}

/-- What is queued at the end of a chain is lower than the chain. -/
theorem height_of_mem_launched (chain : Chain E) (sources : List Source) (flags : Flags)
    (tape : Tape E.Mark) {queued : Action E}
    (mem : queued ∈ (site.launched chain sources flags tape).staged) :
    queued.height < chain.terminal.height + 2 := by
  unfold launched at mem
  split at mem
  · -- Without sources at most a failure is returned.
    have failing : queued ∈ [Action.fallthrough] := by
      cases returning : flags.isReturn with
      | true => simpa [returning] using mem
      | false => simp [returning] at mem
    obtain rfl := List.mem_singleton.mp failing
    simp [Action.height]
  · split at mem
    · have executions : ∀ action ∈ (site.body.rebind flags sources).map (Action.execute chain flags),
          action.height ≤ 0 := by
        intro action mem
        rcases List.mem_map.mp mem with ⟨source, -, rfl⟩
        simp [Action.height]
      have low := height_of_mem_fan executions mem
      omega
    · cases mem
    · cases mem
    · rename_i function kind
      rcases List.mem_map.mp mem with ⟨source, -, rfl⟩
      rw [kind, Terminal.height, Action.height]
      omega
    · cases mem

/-- Resolving a chain queues lower actions only: what comes at its end, or the rest of the chain. -/
theorem Walked.height_of_mem_landed {origin : Source} {chain : Chain E}
    {eval : List Source → Flags → Evaluation E.Mark} {result : Option (List Source × Flags)}
    {s : Sketch E} {value : Tape E.Mark × Flow}
    (h : Walked site origin chain.input chain.terminal eval chain.ahead.length result s value)
    {queued : Action E} (mem : queued ∈ (site.landed chain result s).staged) :
    queued.height < chain.height := by
  have height : chain.height = chain.ahead.length + chain.terminal.height + 2 := by
    cases chain
    rw [Chain.height]
  cases h with
  | reached sources flags tape =>
    have low := height_of_mem_launched chain.atTerminal sources flags tape mem
    have same : chain.atTerminal.terminal = chain.terminal := rfl
    rw [same] at low
    omega
  | aborted tape => cases mem
  | failing tape =>
    obtain rfl := List.mem_singleton.mp mem
    rw [height, Action.height]
    omega
  | returning passed rest sources flags tape less native =>
    obtain rfl := List.mem_singleton.mp mem
    rw [height, Action.height, Chain.height]
    omega

theorem height_of_mem_called (function : Function E) (callback : Callback) (returnParent : Bool)
    (source : Source) (tape : Tape E.Mark) {queued : Action E}
    (mem : queued ∈ (site.called function callback returnParent source tape).staged) :
    queued.height < function.height := by
  rcases function with ⟨id, lines⟩
  have lower : ∀ action ∈ lines.map (Action.line · source), action.height ≤ linesHeight lines := by
    intro action mem
    rcases List.mem_map.mp mem with ⟨line, line_mem, rfl⟩
    rw [Action.height]
    exact Line.height_le_of_mem line_mem
  unfold called at mem
  split at mem
  · cases mem
  · -- The fan-out of the lines stands between the call and its highest line.
    have low := height_of_mem_fan lower mem
    rw [Function.height]
    omega

/-- Every native action is a procedure that only queues actions of lower rank. -/
theorem exists_run?_descending (site : Site E) (host : Host E) {action : Action E}
    (native : action.isNative = true) (tape : Tape E.Mark) :
    ∃ procedure s, action.work host site.id = .own procedure ∧
      procedure.run? site.draw { tape } = some ((), s) ∧
      ∀ queued ∈ s.staged, queued.rank < action.rank := by
  cases action with
  | topLevel chain source =>
    obtain ⟨_, _, run, walked⟩ := run?_start site host chain native source tape
    exact ⟨_, _, rfl, run, fun queued mem =>
      Action.rank_lt_of_height_lt (by simpa [Action.height] using walked.height_of_mem_landed mem)⟩
  | continuation chain origin sources flags =>
    obtain ⟨_, _, run, walked⟩ := run?_resolve site host chain native origin
      (fun _ _ => Evaluation.skip) sources flags tape
    exact ⟨_, _, rfl, run, fun queued mem =>
      Action.rank_lt_of_height_lt (by simpa [Action.height] using walked.height_of_mem_landed mem)⟩
  | fallthrough => exact ⟨_, _, rfl, run?_fallThrough site tape, fun queued mem => by cases mem⟩
  | fanOut first rest =>
    exact ⟨_, _, rfl, run?_expand site first rest native tape,
      Action.rank_lt_of_expanded first rest⟩
  | task code => cases native
  | line line source =>
    cases line with
    | chain chain =>
      obtain ⟨_, _, run, walked⟩ := run?_start site host chain native source tape
      exact ⟨_, _, rfl, run, fun queued mem => Action.rank_lt_of_height_lt
        (by simpa [Action.height, Line.height] using walked.height_of_mem_landed mem)⟩
    | custom code => cases native
  | execute chain flags source =>
    rcases (Bool.and_eq_true _ _).mp native with ⟨atEnd, isCommand⟩
    cases kind : chain.terminal with
    | command command =>
      exact ⟨_, _, rfl, run?_executeCommand site chain command (List.isEmpty_iff.mp atEnd) kind
        flags source tape, fun queued mem => by cases mem⟩
    | returnValue | returnFailure | call | custom => simp [kind, Terminal.isCommand] at isCommand
  | call function callback returnParent source =>
    exact ⟨_, _, rfl, run?_callFunction site function native callback returnParent source tape,
      fun queued mem => Action.rank_lt_of_height_lt
        (by simpa [Action.height] using height_of_mem_called _ _ _ _ _ mem)⟩

end Site

/-! ## Steps without regard to the quota -/

namespace Context

/-- One step of the run loop, whether or not there is any quota left for it. -/
def StepsTo (host : Host E) (ctx next : Context E) : Prop :=
  ∃ entry started fuel after, ctx.pop? = some (entry, started) ∧
    perform host fuel entry.action entry.frame started = some after ∧
    next = (after.settle entry.frame).promote

/-- Between two steps: all pending work is native. -/
structure Native (ctx : Context E) : Prop where
  accounted : ctx.Accounted []
  staged : ctx.staging = #[]
  native : ∀ entry ∈ ctx.pending.entries, entry.action.isNative = true

/-- The ranks of the pending entries. -/
def weight (ctx : Context E) : Multiset (Nat ×ₗ Nat) :=
  ctx.pending.entries.map (·.action.rank)

namespace Native

variable {host : Host E} {ctx next started : Context E} {entry : Entry E}

theorem of_pop (h : ctx.Native) (popped : ctx.pop? = some (entry, started)) :
    entry.action.isNative = true := by
  have native := h.native
  rw [pending_of_pop popped] at native
  exact native entry List.mem_cons_self

/-- Native work is always performed, and then either the queue has overflowed or lower work stands
in front of what is left of the rest. -/
theorem exists_performed (host : Host E) (h : ctx.Native)
    (popped : ctx.pop? = some (entry, started)) :
    ∃ after, perform host 1 entry.action entry.frame started = some after ∧
      ((after.settle entry.frame).promote.pending.entries = [] ∨
        ∃ front left, (after.settle entry.frame).promote.pending.entries = front ++ left ∧
          left <:+ started.pending.entries ∧
          ∀ other ∈ front, other.action.isNative = true ∧
            other.action.rank < entry.action.rank) := by
  have intact := h.accounted.intact_of_pop popped
  have poised : Poised [] ctx.limits ctx.sink? ⟨ctx.quota, ctx.log.toList.filter Event.isObservable⟩
      (entry :: started.pending.entries) ctx :=
    ⟨rfl, rfl, intact, h.accounted, rfl, rfl, h.staged, pending_of_pop popped⟩
  rcases poised.exists_frame? List.mem_cons_self with ⟨frame, live, -⟩
  let site := ctx.site frame entry started.pending.entries
  obtain ⟨procedure, sketch, own, run, descends⟩ :=
    site.exists_run?_descending host (h.of_pop popped) ⟨ctx.quota, _⟩
  refine ⟨_, perform_own host own started, ?_⟩
  rcases (poised.start live popped).run run with overflowed | ⟨-, depicts⟩
  · -- An overflow leaves nothing that waits.
    have leads : Leads [] ctx [entry.frame] (procedure.apply started) :=
      (Leads.refl.pop popped).procedure procedure
    have cleared := (h.accounted.leads leads).accounted.cleared overflowed
    have waiting : ((procedure.apply started).settle entry.frame).promote.pending.entries =
        (procedure.apply started).waiting := rfl
    exact .inl (waiting.trans cleared)
  · have settled := depicts.settle.1
    refine .inr ⟨_, _, settled.pending, Flow.prune_suffix _ _ _, ?_⟩
    intro other mem
    rcases List.mem_map.mp mem with ⟨action, staged, rfl⟩
    exact ⟨nativeActions_eq_true_iff.mp depicts.native action staged, descends action staged⟩

/-- A step keeps the work native and makes it lighter. -/
theorem step (h : ctx.Native) (steps : ctx.StepsTo host next) :
    next.Native ∧ next.weight.IsDershowitzMannaLT ctx.weight := by
  rcases steps with ⟨entry, started, fuel, after, popped, performed, rfl⟩
  rcases h.exists_performed host popped with ⟨after', performed', outcome⟩
  obtain rfl := perform_unique performed performed'
  have leads : Leads [] ctx [] (after.settle entry.frame).promote :=
    ((Leads.refl.pop popped).trans (.perform performed)).settle.promote
  have accounted := (h.accounted.leads leads).accounted
  have pending := pending_of_pop popped
  rcases outcome with empty | ⟨front, left, eq, suffix, lower⟩
  · refine ⟨⟨accounted, rfl, by simp [empty]⟩, 0, 0, ctx.weight, ?_, ?_, by simp, by simp⟩
    · simp [Context.weight, pending]
    · simp [Context.weight, empty]
  · refine ⟨⟨accounted, rfl, ?_⟩, ?_⟩
    · intro other mem
      rw [eq] at mem
      rcases List.mem_append.mp mem with mem | mem
      · exact (lower other mem).1
      · exact h.native other (pending ▸ List.mem_cons_of_mem _ (suffix.subset mem))
    · -- The taken entry and those that a rollback has discarded give way to the new ones.
      rcases suffix with ⟨gone, split⟩
      refine ⟨left.map (·.action.rank), front.map (·.action.rank),
        (entry :: gone).map (·.action.rank), by simp, ?_, ?_, ?_⟩
      · rw [Context.weight, eq, List.map_append, ← Multiset.coe_add, add_comm]
      · rw [Context.weight, pending, ← split, ← List.cons_append, List.map_append,
          ← Multiset.coe_add, add_comm]
      · intro rank mem
        rcases List.mem_map.mp (Multiset.mem_coe.mp mem) with ⟨other, other_mem, rfl⟩
        exact ⟨entry.action.rank, by simp, (lower other other_mem).2⟩

theorem turn (h : ctx.Native) {start : Start E} (turn : Turn host ctx start next) :
    next.Native := by
  rcases turn with ⟨-, popped, fuel, after, performed, -, rfl⟩
  exact (h.step ⟨_, _, fuel, after, popped, performed, rfl⟩).1

/-- A run of native work ends.  Without regard to the quota the work is done after a certain number
of steps, which no run exceeds. -/
theorem bounded (h : ctx.Native) (host : Host E) :
    ∃ bound,
      (∃ later, List.IsChain (StepsTo host) (ctx :: later) ∧ later.length = bound ∧
        (later.getLastD ctx).pending.entries = []) ∧
      (∀ later, List.IsChain (StepsTo host) (ctx :: later) → later.length ≤ bound) ∧
      ∃ result, drain host (bound + 2) ctx = some result := by
  -- The induction is on the weight, in the multiset order.
  have lighter : WellFounded (InvImage Multiset.IsDershowitzMannaLT (weight : Context E → _)) :=
    InvImage.wf weight Multiset.wellFounded_isDershowitzMannaLT
  induction ctx using lighter.induction with
  | _ ctx ih =>
  cases popped : ctx.pop? with
  | none =>
    refine ⟨0, ⟨[], .singleton ctx, rfl, ctx.pop?_eq_none_iff.mp popped⟩, ?_, ?_⟩
    · rintro (_ | ⟨next, later⟩) chain
      · exact Nat.le_refl _
      · rcases (List.isChain_cons_cons.mp chain).1 with ⟨entry, started, -, -, taken, -⟩
        simp [popped] at taken
    · rw [drain]
      split
      · exact ⟨_, rfl⟩
      · exact ⟨_, by rw [popped]⟩
  | some head =>
    rcases head with ⟨entry, started⟩
    rcases h.exists_performed host popped with ⟨after, performed, -⟩
    let next := (after.settle entry.frame).promote
    have steps : ctx.StepsTo host next := ⟨entry, started, 1, after, popped, performed, rfl⟩
    rcases h.step steps with ⟨native, less⟩
    rcases ih next less native with ⟨bound, ⟨later, chain, length, done⟩, short, result, drained⟩
    refine ⟨bound + 1, ⟨next :: later, .cons_cons steps chain, congrArg Nat.succ length, ?_⟩, ?_, ?_⟩
    · rw [List.getLastD_cons]
      exact done
    · rintro (_ | ⟨next', later⟩) chain
      · exact Nat.zero_le _
      · rcases List.isChain_cons_cons.mp chain with ⟨first, rest⟩
        -- There is only one way to go on.
        have same : next' = next := by
          rcases first with ⟨entry', started', fuel, after', popped', performed', rfl⟩
          cases popped.symm.trans popped'
          rw [perform_unique performed' performed]
        rw [same] at rest
        exact Nat.succ_le_succ (short later rest)
    · rw [drain]
      split
      · exact ⟨_, rfl⟩
      · simp only [popped, perform_mono (Nat.le_add_left 1 (bound + 1)) performed]
        split
        · exact ⟨_, rfl⟩
        · exact ⟨result, drained⟩

end Native
end Context

/-! ## Runs -/

/-- Every entry that a run starts is a step. -/
theorem Course.exists_steps {host : Host E} {ctx final : Context E} {starts : List (Start E)}
    {outcome : Outcome} (course : Course host ctx starts outcome final) :
    ∃ later, List.IsChain (Context.StepsTo host) (ctx :: later) ∧ later.length = starts.length := by
  induction course with
  | exhausted | completed => exact ⟨[], .singleton _, rfl⟩
  | overflowed funded popped performed overflowed =>
    exact ⟨[_], .cons_cons ⟨_, _, _, _, popped, performed, rfl⟩ (.singleton _), rfl⟩
  | turn turn _ ih =>
    rcases turn with ⟨funded, popped, fuel, after, performed, intact, rfl⟩
    rcases ih with ⟨later, chain, length⟩
    exact ⟨_ :: later, .cons_cons ⟨_, _, _, _, popped, performed, rfl⟩ chain,
      congrArg Nat.succ length⟩

/-- What has been asked for is native work, also if the queue has overflowed on the way. -/
theorem Asked.native {ctx : Context E} (h : Asked ctx) : ctx.promote.Native := by
  refine ⟨h.accounted.promote.accounted, rfl, ?_⟩
  have pending : ctx.promote.pending.entries = ctx.staging.toList := by
    simp [Context.promote, Backlog.prepend, h.pending]
  intro entry mem
  exact (h.staged entry (pending ▸ mem)).2

/-- Whatever native programs are asked of a new context, running them ends after a bounded number of
steps.  It is not the quota that bounds them: if the run loop went on without any quota, the work
would be done after just so many steps, and no sequence of steps is longer. -/
theorem native_runs_end (host : Host E) (limits : Limits) (memory : E.Memory) (profiler : Profiler)
    (sink? : Option Sink) {requests : List (Request E)}
    (native : ∀ request ∈ requests, request.isNative = true) :
    ∃ bound,
      let asked : Context E := .asked limits memory profiler sink? requests
      (∃ later, List.IsChain (Context.StepsTo host) (asked.promote :: later) ∧
        later.length = bound ∧ (later.getLastD asked.promote).pending.entries = []) ∧
      (∀ later, List.IsChain (Context.StepsTo host) (asked.promote :: later) →
        later.length ≤ bound) ∧
      (∀ starts outcome final, Course host asked.promote starts outcome final →
        starts.length ≤ bound) ∧
      ∃ outcome final, ∀ fuel, bound + 2 ≤ fuel →
        asked.run host fuel = some (outcome, final) := by
  have asked := Asked.of_requests limits memory profiler sink? requests native
  rcases asked.native.bounded host with ⟨bound, done, short, ⟨outcome, final⟩, drained⟩
  refine ⟨bound, done, short, ?_, outcome, final, fun fuel le => Context.drain_mono le drained⟩
  intro starts outcome final course
  rcases course.exists_steps with ⟨later, chain, length⟩
  exact length ▸ short later chain

/-- A command is forked for three sources.  Even without any quota its steps would come to an end. -/
theorem native_runs_end_of_fork :
    ∃ (requests : List (Request Embedding.bare)) (bound : Nat) (final : Context .bare),
      let asked : Context .bare := .asked { commandLimit := 0 } () .off none requests
      (∃ later, List.IsChain (Context.StepsTo .bare) (asked.promote :: later) ∧
        later.length = bound ∧ (later.getLastD asked.promote).pending.entries = []) ∧
      asked.run .bare (bound + 2) = some (.quotaExhausted, final) := by
  let fork : Stage Embedding.bare :=
    { forked := true, redirect := .modifier fun source => .ok [source, source, source] }
  let chain : Chain Embedding.bare :=
    .ofStages "fork say" [fork] (.command { run := fun _ => .ok 1 })
  let requests : List (Request Embedding.bare) := [.command chain { name := "alex" } .empty]
  have native : ∀ request ∈ requests, request.isNative = true := by
    intro request mem
    rw [List.mem_singleton.mp mem]
    rfl
  obtain ⟨bound, done, -, -, outcome, final, runs⟩ :=
    native_runs_end .bare { commandLimit := 0 } () .off none native
  have ran := runs (bound + 2) (Nat.le_refl _)
  have stopped : outcome = .quotaExhausted := (congrArg Prod.fst (Option.some.inj ran)).symm
  exact ⟨requests, bound, final, done, stopped ▸ ran⟩

end CommandScheduler
