import CommandScheduler.Proofs.Depth
import CommandScheduler.Proofs.Ending

/-!
# Nested — requests that are made while an entry is executed

A request gets a frame of its own.  If the current depth is not zero, this frame is one level deeper
and its rollbacks stay within the levels below the current one.  All that comes from the request
inherits this, so it leaves the entries at the current depth or above alone, whatever else runs
between its steps.

At depth zero nothing tells a request that is made by an entry from one that is made outside of all
entries: its rollbacks clear everything.
-/

namespace CommandScheduler

variable {E : Embedding} {host : Host E} {running running' : List FrameId}
  {ctx ctx' mid next : Context E} {start : Start E}

/-! ## The frame of a request -/

/-- The entry that a request becomes. -/
def Request.entry (ctx : Context E) (request : Request E) : Entry E :=
  { depth := (ctx.topFrame request.callback).depth
    frame := ⟨ctx.frames.next⟩
    action := request.action }

/-- A request is staged in its own frame, unless the queue overflows. -/
theorem Context.Accounted.queue_request (h : ctx.Accounted running) {request : Request E}
    (intact : (request.queue ctx).overflowed = false) :
    (request.queue ctx).staging = ctx.staging.push (request.entry ctx) ∧
      (request.queue ctx).frame? ⟨ctx.frames.next⟩ = some (ctx.topFrame request.callback) := by
  let frame := ctx.topFrame request.callback
  have pushed := (h.pushFrame frame).accounted
  have live : (ctx.pushFrame frame).2.frame? (ctx.pushFrame frame).1 = some frame := by
    simp [Context.pushFrame, Context.frame?, FrameTable.insert, FrameTable.frame?,
      FrameTable.slot?, FrameTable.slotOf]
  rw [request.queue_eq_enqueue] at intact ⊢
  have before : (ctx.pushFrame frame).2.overflowed = false := by
    have leads : Leads running (ctx.pushFrame frame).2 running _ :=
      Leads.refl.deed (.effect (.enqueue (ctx.pushFrame frame).1 request.action))
    exact leads.intact intact
  rcases (Context.enqueue_of_live pushed before live request.action).resolve_left
    (by simp [frame, intact]) with ⟨frames, sameLive, -, eq⟩
  rw [eq]
  exact ⟨rfl, (FrameTable.frame?_congr sameLive _).trans live⟩

theorem Request.native_action {V : Vocabulary} {request : Request V}
    (native : request.isNative = true) : request.action.isNative = true := by
  cases request <;> exact native

/-! ## Steps below a depth -/

/-- The entry, being executed, queues the other one. -/
def Start.Queues (host : Host E) (start : Start E) (entry : Entry E) : Prop :=
  ∃ fuel after,
    Context.perform host fuel start.entry.action start.entry.frame start.context = some after ∧
      entry ∈ after.staging.toList

/-- A rollback from some depth on discards entries of this depth or deeper. -/
theorem Flow.exists_pruned (flow : Flow) (depth : Nat) (entries : List (Entry E)) :
    ∃ gone, entries = gone ++ flow.prune (.discardFrom depth) entries ∧
      ∀ entry ∈ gone, depth ≤ entry.depth := by
  cases flow with
  | goesOn => exact ⟨[], rfl, by simp⟩
  | returned =>
    refine ⟨entries.takeWhile (depth ≤ ·.depth), List.takeWhile_append_dropWhile.symm, ?_⟩
    intro entry mem
    simpa using List.mem_takeWhile_imp mem

/-- A native entry waits in a frame below a depth. -/
structure Entry.Below (depth : Nat) (ctx : Context E) (entry : Entry E) : Prop where
  waits : entry ∈ ctx.waiting
  native : entry.action.isNative = true
  below : ∃ frame, ctx.frame? entry.frame = some frame ∧ frame.Below depth

theorem Entry.Below.deeper {depth : Nat} {entry : Entry E} (h : entry.Below depth ctx)
    (accounted : ctx.Accounted running) : depth < entry.depth := by
  rcases h.below with ⟨frame, live, below⟩
  exact accounted.balanced.depths entry h.waits frame live ▸ below.deeper

theorem Entry.Below.leads {depth : Nat} {entry : Entry E} (h : entry.Below depth ctx)
    (accounted : ctx.Accounted running) (leads : Leads running ctx running' ctx')
    (waits : entry ∈ ctx'.waiting) : entry.Below depth ctx' := by
  rcases h.below with ⟨frame, live, below⟩
  have same := accounted.frame?_of_waiting (accounted.leads leads) h.waits waits
  exact ⟨waits, h.native, frame, same.trans live, below⟩

/-- A turn below a depth discards entries below it only, and what it queues is below it, too. -/
theorem Turn.below {depth : Nat} (turn : Turn host mid start next) (accounted : mid.Accounted running)
    (staged : mid.staging = #[]) (below : start.entry.Below depth mid) :
    ∃ gone kept queued, start.context.pending.entries = gone ++ kept ∧
      next.pending.entries = queued ++ kept ∧ (∀ entry ∈ gone, depth < entry.depth) ∧
      (∀ entry ∈ queued, entry.Below depth next) ∧
      ∀ entry, start.Queues host entry → entry ∈ queued := by
  have leads : Leads running mid running next := .turn turn
  have poised : Poised running mid.limits mid.sink?
      ⟨mid.quota, mid.log.toList.filter Event.isObservable⟩ mid.pending.entries mid :=
    ⟨rfl, rfl, leads.intact turn.intact, accounted, rfl, rfl, staged, rfl⟩
  obtain ⟨-, frame, procedure, sketch, step⟩ := poised.exists_sketch turn below.native
  rcases below.below with ⟨owner, ownerLive, ownerBelow⟩
  obtain rfl : frame = owner := Option.some.inj (step.live.symm.trans ownerLive)
  rcases ownerBelow.confined with ⟨level, lower, scope⟩
  -- A return from this frame discards from `level` on, which is below the depth.
  rcases sketch.flow.exists_pruned level start.context.pending.entries with ⟨gone, split, deep⟩
  have pending := step.settled.pending
  rw [scope] at pending
  refine ⟨gone, _, (start.site mid frame).entries sketch, split, pending, ?_, ?_, ?_⟩
  · intro entry mem
    exact Nat.lt_of_lt_of_le lower (deep entry mem)
  · intro entry mem
    have waits : entry ∈ next.waiting := by
      refine List.mem_append_right _ ?_
      rw [pending]
      exact List.mem_append_left _ mem
    rcases List.mem_map.mp mem with ⟨action, queued, rfl⟩
    have native := nativeActions_eq_true_iff.mp step.depicts.native action queued
    exact ⟨waits, native, _, step.target (List.ne_nil_of_mem queued),
      Confined.below_target ownerBelow step.within step.depicts⟩
  · rintro entry ⟨fuel, after, performed, mem⟩
    obtain rfl := Context.perform_unique performed (Context.perform_own host step.own _)
    rw [step.depicts.staged] at mem
    exact mem

/-! ## What comes from a request -/

/-- The entry waits in the second context and comes from the root entry, which waits in the first one:
it is the root itself, or an entry that comes from the root has queued it.  Whatever happens between
the steps of these entries is left open. -/
inductive Offspring (host : Host E) (root : Entry E) (running : List FrameId) (ctx : Context E) :
    Entry E → List FrameId → Context E → Prop where
  | root : Offspring host root running ctx root running ctx
  | wait {entry : Entry E} {running' running'' : List FrameId} {mid later : Context E} :
      Offspring host root running ctx entry running' mid → Leads running' mid running'' later →
      entry ∈ later.waiting → Offspring host root running ctx entry running'' later
  | child {entry : Entry E} {running' : List FrameId} {mid next : Context E} {start : Start E} :
      Offspring host root running ctx start.entry running' mid → mid.staging = #[] →
      Turn host mid start next → start.Queues host entry →
        Offspring host root running ctx entry running' next

theorem Offspring.stays_below {depth : Nat} {root entry : Entry E}
    (offspring : Offspring host root running ctx entry running' mid)
    (accounted : ctx.Accounted running) (below : root.Below depth ctx) :
    mid.Accounted running' ∧ entry.Below depth mid := by
  -- Waiting keeps an entry below the depth, and a turn passes this on to what it queues.
  induction offspring with
  | root => exact ⟨accounted, below⟩
  | wait _ leads waits ih =>
    rcases ih with ⟨accounted, below⟩
    exact ⟨(accounted.leads leads).accounted, below.leads accounted leads waits⟩
  | child _ staged turn queues ih =>
    rcases ih with ⟨accounted, below⟩
    rcases turn.below accounted staged below with ⟨-, -, queued, -, -, -, deep, all⟩
    exact ⟨(accounted.leads (.turn turn)).accounted, deep _ (all _ queues)⟩

/-- A request is staged in a frame of its own, unless the queue overflows.  If it is made at a current
depth other than zero, this frame is one level deeper and confined to the levels from there on; then
no step of an entry that comes from the request discards a pending entry at the current depth or
above, unless the queue overflows in it.  At depth zero the frame is the one of a root invocation,
whose rollback clears everything, although the request may have been made by an entry. -/
theorem nested_request_confined (h : Reachable running ctx) {request : Request E}
    (native : request.isNative = true) (intact : (request.queue ctx).overflowed = false) :
    (request.queue ctx).staging = ctx.staging.push (request.entry ctx) ∧
    (request.queue ctx).frame? (request.entry ctx).frame =
      some (if ctx.depth = 0 then .root request.callback
        else .calleeAt ctx.depth request.callback) ∧
    (0 < ctx.depth → ∀ (host : Host E) running' mid start next,
      Offspring host (request.entry ctx) running (request.queue ctx) start.entry running' mid →
      mid.staging = #[] → Turn host mid start next →
        ∃ gone kept queued, start.context.pending.entries = gone ++ kept ∧
          next.pending.entries = queued ++ kept ∧
          ∀ entry ∈ gone ++ queued, ctx.depth < entry.depth) := by
  rcases h.accounted.queue_request intact with ⟨staged, live⟩
  refine ⟨staged, live, ?_⟩
  intro nested host running' mid start next offspring empty turn
  have accounted : (request.queue ctx).Accounted running := by
    rw [request.queue_eq_enqueue]
    have pushed := h.accounted.pushFrame (ctx.topFrame request.callback)
    exact (pushed.accounted.enqueue _ _).accounted
  have below : (request.entry ctx).Below ctx.depth (request.queue ctx) := by
    refine ⟨?_, Request.native_action native, _, live, ?_⟩
    · refine List.mem_append_left _ ?_
      simp [staged]
    · rw [Context.topFrame, if_neg (Nat.ne_of_gt nested)]
      exact Frame.below_calleeAt _ _
  rcases offspring.stays_below accounted below with ⟨accounted, below⟩
  rcases turn.below accounted empty below with ⟨gone, kept, queued, split, pending, deep, new, -⟩
  refine ⟨gone, kept, queued, split, pending, ?_⟩
  intro entry mem
  rcases List.mem_append.mp mem with mem | mem
  · exact deep entry mem
  · exact (new entry mem).deeper (accounted.leads (.turn turn)).accounted

/-! ## A task that makes a request -/

/-- A command that returns a value. -/
def Request.giving : Request Embedding.single :=
  .command (.ofStages "return 1" [] (.returnValue 1)) { name := "alex" } .empty

/-- The host whose task asks for a command that returns a value. -/
def Host.delegating : Host .single :=
  .single <| .call (.effect (.queueCommand (.ofStages "return 1" [] (.returnValue 1))
    { name := "alex" } .empty)) fun _ => .done ()

namespace Context

/-- The task and, behind it, another entry are pending in a frame. -/
def delegating (frame : Frame) : Context .single :=
  let queue : Procedure .single Unit := do
    let id ← Procedure.pushFrame frame
    Procedure.effect (.enqueue id (.task ()))
    Procedure.effect (.enqueue id .fallthrough)
  (queue.apply (.create {} () .off)).promote

theorem reachable_delegating (frame : Frame) : Reachable [] (delegating frame) :=
  ⟨{}, (), .off, (Leads.refl.procedure _).promote⟩

/-- The task is executed, and the other entry is pending. -/
def delegated (frame : Frame) : Context .single :=
  { delegating frame with
    pending := { entries := [⟨frame.depth, ⟨0⟩, .fallthrough⟩] }
    depth := frame.depth }

theorem delegating_pop? (frame : Frame) : (delegating frame).pop? =
    some (⟨frame.depth, ⟨0⟩, .task ()⟩, delegated frame) := rfl

/-- The task is done, and the entry that it has asked for is the first one. -/
def answered (frame : Frame) : Context .single :=
  ((Request.giving.queue (delegated frame)).settle ⟨0⟩).promote

theorem offspring_answered (frame : Frame)
    (intact : (Request.giving.queue (delegated frame)).overflowed = false) :
    Offspring .delegating (Request.giving.entry (delegated frame)) [⟨0⟩]
      (Request.giving.queue (delegated frame)) (Request.giving.entry (delegated frame)) []
      (answered frame) := by
  have taken : Reachable [⟨0⟩] (delegated frame) :=
    (reachable_delegating frame).then (Leads.refl.pop (delegating_pop? frame))
  have staged := (taken.accounted.queue_request intact).1
  -- Settling the task leaves the staged request alone, so the rest holds of any context.
  unfold answered
  generalize Request.giving.queue (delegated frame) = queued at staged
  refine .wait .root Leads.refl.settle.promote (List.mem_append_right _ ?_)
  refine List.mem_append_left _ ?_
  change _ ∈ queued.staging.toList
  simp [staged]

end Context

/-- At depth one the returning command leaves the other entry alone. -/
theorem nested_request_confined_of_task :
    ∃ (started mid next : Context .single) (start : Start .single) (gone kept : List _),
      Reachable [⟨0⟩] started ∧ started.depth = 1 ∧
      (Request.giving.queue started).frame? (Request.giving.entry started).frame =
        some (.calleeAt 1 .empty) ∧
      Offspring .delegating (Request.giving.entry started) [⟨0⟩] (Request.giving.queue started)
        start.entry [] mid ∧
      Turn .delegating mid start next ∧
      start.context.pending.entries.length = 1 ∧ next.pending.entries.length = 1 ∧
      start.context.pending.entries = gone ++ kept ∧ ∀ entry ∈ gone, 1 < entry.depth := by
  let frame := Frame.calleeAt 0 .empty
  let started := Context.delegated frame
  have reachable : Reachable [⟨0⟩] started :=
    (Context.reachable_delegating frame).then (Leads.refl.pop (Context.delegating_pop? frame))
  obtain ⟨next, start, turn, entry, one, left⟩ : ∃ next start,
      Turn .delegating (Context.answered frame) start next ∧
      start.entry = Request.giving.entry started ∧ start.context.pending.entries.length = 1 ∧
      next.pending.entries.length = 1 :=
    ⟨_, ⟨_, _⟩, ⟨by decide +kernel, rfl, 1, _, rfl, by decide +kernel, rfl⟩, rfl,
      by decide +kernel, by decide +kernel⟩
  have native : Request.giving.isNative = true := rfl
  obtain ⟨-, live, confined⟩ := nested_request_confined reachable native (by decide +kernel)
  have offspring : Offspring .delegating (Request.giving.entry started) [⟨0⟩]
      (Request.giving.queue started) start.entry [] (Context.answered frame) := by
    rw [entry]
    exact Context.offspring_answered frame (by decide +kernel)
  rcases confined Nat.one_pos _ _ _ _ _ offspring rfl turn with
    ⟨gone, kept, queued, split, -, deep⟩
  exact ⟨started, _, next, start, gone, kept, reachable, rfl, live, offspring, turn, one, left, split,
    fun entry mem => deep entry (List.mem_append_left _ mem)⟩

/-- At depth zero it discards the other entry, so requests of an entry are not always confined. -/
theorem nested_request_clears :
    ¬ ∀ (ctx started asking mid next : Context .single) (entry : Entry Embedding.single)
      (request : Request Embedding.single) (rest : Work .single) (running : List FrameId)
      (start : Start .single), Reachable [] ctx → ctx.pop? = some (entry, started) →
      Passes .delegating (entry.action.work .delegating entry.frame) started false rest asking →
      request.isNative = true → (request.queue asking).overflowed = false →
      Offspring .delegating (request.entry asking) [entry.frame] (request.queue asking) start.entry
        running mid →
      mid.staging = #[] → Turn .delegating mid start next →
      ∀ other ∈ start.context.pending.entries, other.depth ≤ entry.depth →
        other ∈ next.pending.entries := by
  intro confined
  let frame := Frame.root .empty
  obtain ⟨next, start, turn, entry, waiting, none⟩ : ∃ next start,
      Turn .delegating (Context.answered frame) start next ∧
      start.entry = Request.giving.entry (Context.delegated frame) ∧
      start.context.pending.entries = [⟨0, ⟨0⟩, .fallthrough⟩] ∧
      next.pending.entries.length = 0 :=
    ⟨_, ⟨_, _⟩, ⟨by decide +kernel, rfl, 1, _, rfl, by decide +kernel, rfl⟩, rfl, rfl,
      by decide +kernel⟩
  have offspring : Offspring .delegating (Request.giving.entry (Context.delegated frame)) [⟨0⟩]
      (Request.giving.queue (Context.delegated frame)) start.entry [] (Context.answered frame) := by
    rw [entry]
    exact Context.offspring_answered frame (by decide +kernel)
  have kept := confined _ _ _ _ next _ Request.giving _ [] start
    (Context.reachable_delegating frame) (Context.delegating_pop? frame) (.here _ _) rfl
    (by decide +kernel) offspring rfl turn ⟨0, ⟨0⟩, .fallthrough⟩ (by simp [waiting])
    (Nat.le_refl 0)
  rw [List.eq_nil_of_length_eq_zero none] at kept
  cases kept

end CommandScheduler
