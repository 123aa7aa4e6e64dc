import Mathlib.Data.List.TakeWhile
import CommandScheduler.Proofs.Lockstep
import CommandScheduler.Proofs.Truncation

/-!
# Widening — a function called at the top, and one that a chain returns

A function that is called as a root invocation gets a frame that rolls back from depth one on.  If a
chain returns the function, the function's frame inherits a scope that clears everything.  While the
function runs nothing at the top is pending, so the wider scope finds no more to discard than the
narrow one, and the two contexts stay the same but for their scopes.
-/

namespace CommandScheduler

/-! ## Wider scopes -/

/-- A rollback from depth one on, taken as one that clears everything. -/
def Scope.widened : Scope → Scope
  | clearAll => clearAll
  | discardFrom depth => if depth = 1 then clearAll else discardFrom depth

theorem Scope.widened_widened (scope : Scope) : scope.widened.widened = scope.widened := by
  cases scope with
  | clearAll => rfl
  | discardFrom depth => by_cases top : depth = 1 <;> simp [widened, top]

def Frame.widened (frame : Frame) : Frame :=
  { frame with scope := frame.scope.widened }

def FrameSlot.widened (slot : FrameSlot) : FrameSlot :=
  { slot with frame := slot.frame.widened }

namespace FrameTable

variable (extra : List FrameId)

/-- The table with wider scopes and some more new handles. -/
def widened (table : FrameTable) : FrameTable :=
  { next := table.next
    slots := table.slots.map (Prod.map id FrameSlot.widened)
    fresh := table.fresh ++ extra }

theorem slotOf_widened (handle : FrameId) (slots : List (FrameId × FrameSlot)) :
    slotOf handle (slots.map (Prod.map id FrameSlot.widened)) =
      (slotOf handle slots).map FrameSlot.widened := by
  induction slots with
  | nil => rfl
  | cons head rest ih =>
    rcases head with ⟨key, slot⟩
    by_cases same : key = handle
    · simp [slotOf, same]
    · simpa [slotOf, same] using ih

theorem updateSlot_widened (handle : FrameId) {change : FrameSlot → Option FrameSlot}
    (blind : ∀ slot, change slot.widened = (change slot).map FrameSlot.widened)
    (slots : List (FrameId × FrameSlot)) :
    updateSlot handle change (slots.map (Prod.map id FrameSlot.widened)) =
      (updateSlot handle change slots).map (Prod.map id FrameSlot.widened) := by
  induction slots with
  | nil => rfl
  | cons head rest ih =>
    rcases head with ⟨key, slot⟩
    by_cases same : key = handle
    · cases changed : change slot <;> simp [updateSlot, same, blind, changed]
    · simpa [updateSlot, same] using ih

variable (table : FrameTable) (handle : FrameId)

theorem frame?_widened :
    (table.widened extra).frame? handle = (table.frame? handle).map Frame.widened := by
  simp only [frame?, slot?, widened, slotOf_widened, Option.map_map]
  rfl

/-- Reference counts do not depend on scopes. -/
theorem retain?_widened :
    (table.widened extra).retain? handle =
      (table.retain? handle).map (Prod.map id (widened extra)) := by
  simp only [retain?, slot?, widened, slotOf_widened]
  cases slotOf handle table.slots with
  | none => rfl
  | some slot =>
    exact congrArg (fun slots => some (slot.frame.depth, mk table.next slots (table.fresh ++ extra)))
      (updateSlot_widened handle (fun _ => rfl) table.slots)

theorem widened_release : (table.release handle).widened extra =
    (table.widened extra).release handle := by
  refine congrArg (mk table.next · _) (updateSlot_widened handle ?_ table.slots).symm
  intro slot
  by_cases last : slot.references ≤ 1 <;> simp [FrameSlot.widened, last]

theorem widened_releaseAll (ids : List FrameId) :
    (table.releaseAll ids).widened extra = (table.widened extra).releaseAll ids := by
  induction ids generalizing table with
  | nil => rfl
  | cons handle ids ih =>
    exact (ih _).trans (congrArg (releaseAll · ids) (table.widened_release extra handle))

theorem widened_dropUnused : (table.dropUnused handle).widened extra =
    (table.widened extra).dropUnused handle := by
  refine congrArg (mk table.next · _) (updateSlot_widened handle ?_ table.slots).symm
  intro slot
  by_cases unused : slot.references = 0 <;> simp [FrameSlot.widened, unused]

theorem widened_foldl_dropUnused (ids : List FrameId) :
    (ids.foldl dropUnused table).widened extra = ids.foldl dropUnused (table.widened extra) := by
  induction ids generalizing table with
  | nil => rfl
  | cons handle ids ih => rw [List.foldl_cons, List.foldl_cons, ih, widened_dropUnused]

/-- A frame that goes with its last reference need not be swept. -/
theorem widened_settle {narrow wide : FrameTable} {holders : List FrameId}
    (held : narrow.Held (handle :: holders)) {extra : List FrameId}
    (own : ∀ other ∈ extra, other = handle) (same : wide.widened extra = narrow.widened []) :
    (wide.release handle).sweep.widened [] = (narrow.release handle).sweep.widened [] := by
  have fresh : narrow.fresh = wide.fresh ++ extra := by
    simpa [widened] using (congrArg FrameTable.fresh same).symm
  have released : (wide.release handle).widened extra = (narrow.release handle).widened [] := by
    rw [widened_release, widened_release, same]
  let swept := wide.fresh.foldl dropUnused (narrow.release handle)
  have idle : extra.foldl dropUnused swept = swept := by
    rcases held.release with ⟨left, live⟩
    rcases left.foldl_dropUnused wide.fresh with ⟨left', live'⟩
    have used (gone : handle ∈ swept.keys) : handle ∈ holders := by
      rw [← map_fst_live, live', live, List.filter_filter] at gone
      rcases List.mem_map.mp gone with ⟨entry, mem, rfl⟩
      have both : (entry.1 ∉ wide.fresh ∨ entry.1 ∈ holders) ∧ entry.1 ∈ holders := by
        simpa using (List.mem_filter.mp mem).2
      exact both.2
    clear fresh same released
    induction extra with
    | nil => rfl
    | cons other rest ih =>
      rw [List.foldl_cons, own other List.mem_cons_self, left'.dropUnused_eq_self used]
      exact ih fun other mem => own other (List.mem_cons_of_mem _ mem)
  calc
    (wide.release handle).sweep.widened []
        = { (wide.fresh.foldl dropUnused (wide.release handle)).widened extra with fresh := [] } :=
          rfl
    _ = { swept.widened [] with fresh := [] } := by
          rw [widened_foldl_dropUnused, released, ← widened_foldl_dropUnused]
    _ = { (extra.foldl dropUnused swept).widened [] with fresh := [] } := by rw [idle]
    _ = { (narrow.fresh.foldl dropUnused (narrow.release handle)).widened [] with fresh := [] } := by
          rw [fresh, List.foldl_append]
    _ = (narrow.release handle).sweep.widened [] := rfl

end FrameTable

/-! ## Contexts under wider scopes -/

/-- A backlog knows nothing but its entries. -/
theorem Backlog.eq_of_entries {V : Vocabulary} {backlog other : Backlog V}
    (same : backlog.entries = other.entries) : backlog = other := by
  rcases backlog with ⟨entries, size, rfl⟩
  rcases other with ⟨entries', size', rfl⟩
  cases same
  rfl

variable {E : Embedding}

namespace Context

theorem observed_openScope (ctx : Context E) (scope : String) :
    (ctx.openScope scope).observed = ctx.observed := by
  calc
    (ctx.openScope scope).observed
        = ctx.observed ++ (ctx.profiler.enter scope).2.filter Event.isObservable :=
          observed_record { ctx with profiler := (ctx.profiler.enter scope).1 } _
    _ = ctx.observed := by rw [Profiler.enter_unseen, List.append_nil]

theorem observed_closeScope (ctx : Context E) : ctx.closeScope.observed = ctx.observed := by
  calc
    ctx.closeScope.observed
        = ctx.observed ++ ctx.profiler.leave.2.filter Event.isObservable :=
          observed_record { ctx with profiler := ctx.profiler.leave.1 } _
    _ = ctx.observed := by rw [Profiler.leave_unseen, List.append_nil]

variable (extra : List FrameId) (ctx : Context E)

/-- The context with wider scopes, without its profiler and its log. -/
def widened : Context E :=
  { ctx with frames := ctx.frames.widened extra, profiler := .off, log := #[] }

theorem widened_overflow : ctx.overflow.widened extra = (ctx.widened extra).overflow := by
  have released (ids ids' : List FrameId) :
      ((ctx.frames.releaseAll ids).releaseAll ids').widened extra =
        ((ctx.frames.widened extra).releaseAll ids).releaseAll ids' := by
    rw [FrameTable.widened_releaseAll, FrameTable.widened_releaseAll]
  simp only [overflow, widened, released]

theorem widened_enqueue (id : FrameId) (action : Action E) :
    (ctx.enqueue id action).widened extra =
      { (ctx.widened extra).enqueue id action with log := #[] } := by
  have limits : (ctx.widened extra).limits = ctx.limits := rfl
  have queued : (ctx.widened extra).queued = ctx.queued := rfl
  have overflowed : (ctx.widened extra).overflowed = ctx.overflowed := rfl
  have frames : (ctx.widened extra).frames = ctx.frames.widened extra := rfl
  simp only [enqueue, limits, queued]
  split
  · exact ctx.widened_overflow extra
  · simp only [overflowed, frames, FrameTable.retain?_widened]
    split
    · rfl
    · cases ctx.frames.retain? id <;> rfl

theorem widened_rollBack (scope : Scope) :
    (ctx.rollBack scope).widened extra =
      { (ctx.widened extra).rollBack scope with log := #[] } := by
  cases scope <;>
    simp only [rollBack, clearPending, discardFrom, notify, record, widened,
      FrameTable.widened_releaseAll]

/-- If nothing at the top is pending, a rollback from depth one on clears everything. -/
theorem rollBack_widened (deep : ∀ entry ∈ ctx.pending.entries, 0 < entry.depth) (scope : Scope) :
    (ctx.rollBack scope).widened extra = (ctx.rollBack scope.widened).widened extra := by
  cases scope with
  | clearAll => rfl
  | discardFrom depth =>
    by_cases top : depth = 1
    · subst top
      have all : ∀ entry ∈ ctx.pending.entries, decide (1 ≤ entry.depth) = true :=
        fun entry mem => decide_eq_true (deep entry mem)
      have front : ctx.pending.front 1 = ctx.pending.entries := List.takeWhile_eq_self_iff.mpr all
      have left : ctx.pending.dropFront 1 = .empty :=
        Backlog.eq_of_entries (List.dropWhile_eq_nil_iff.mpr all)
      simp only [Scope.widened, if_true, rollBack, discardFrom, front, left]
      rfl
    · simp only [Scope.widened, top, if_false]

theorem widened_pushFrame (frame : Frame) :
    (ctx.pushFrame frame).2.widened extra = ((ctx.widened extra).pushFrame frame.widened).2 := rfl

theorem frame?_widened (id : FrameId) :
    (ctx.widened extra).frame? id = (ctx.frame? id).map Frame.widened :=
  ctx.frames.frame?_widened extra id

theorem scopeOf_widened (id : FrameId) :
    ((ctx.widened extra).scopeOf id).widened = (ctx.scopeOf id).widened := by
  unfold scopeOf
  rw [frame?_widened]
  cases ctx.frame? id with
  | none => rfl
  | some frame => exact frame.scope.widened_widened

theorem frameDepth_widened (id : FrameId) :
    (ctx.widened extra).frameDepth id = ctx.frameDepth id := by
  unfold frameDepth
  rw [frame?_widened]
  cases ctx.frame? id <;> rfl

theorem frameCallback_widened (id : FrameId) :
    (ctx.widened extra).frameCallback id = ctx.frameCallback id := by
  unfold frameCallback
  rw [frame?_widened]
  cases ctx.frame? id <;> rfl

end Context

/-- No frame is at the top. -/
def Context.Inner (ctx : Context E) : Prop :=
  ∀ id frame, ctx.frame? id = some frame → 0 < frame.depth

namespace Context.Inner

variable {running running' : List FrameId} {ctx ctx' : Context E}

/-- Only a new frame could be at the top. -/
theorem evolves (h : ctx.Inner) (after : ctx.Evolves running' ctx')
    (next : ctx'.frames.next = ctx.frames.next) : ctx'.Inner := by
  intro id frame live
  -- No handle has been issued meanwhile, so the frame was there before.
  have issued := after.accounted.balanced.held.issued id (FrameTable.mem_keys_of_frame? live)
  exact h id frame (after.onward.same id frame (next ▸ issued) live)

theorem pushFrame (h : ctx.Inner) {frame : Frame} (inner : 0 < frame.depth) :
    (ctx.pushFrame frame).2.Inner := by
  intro id other live
  by_cases new : (⟨ctx.frames.next⟩ : FrameId) = id
  · have same : frame = other := by
      simpa [Context.pushFrame, Context.frame?, FrameTable.frame?, FrameTable.slot?,
        FrameTable.insert, FrameTable.slotOf, new] using live
    exact same ▸ inner
  · refine h id other ?_
    simpa [Context.pushFrame, Context.frame?, FrameTable.frame?, FrameTable.slot?,
      FrameTable.insert, FrameTable.slotOf, new] using live

/-- All that waits is below the top, too. -/
theorem depth_pos (h : ctx.Inner) (accounted : ctx.Accounted running) {entry : Entry E}
    (mem : entry ∈ ctx.waiting) : 0 < entry.depth := by
  rcases accounted.balanced.exists_frame? mem with ⟨frame, live, depth⟩
  exact depth ▸ h entry.frame frame live

end Context.Inner

/-! ## Contexts side by side -/

/-- Two contexts that differ in scopes that amount to the same at depth one.  The second one has been
shown some more events before, and the first one has some more new handles. -/
structure Aligned (lead : List (Event E.Mark)) (extra : List FrameId) (narrow wide : Context E) :
    Prop where
  same : wide.widened extra = narrow.widened []
  observed : wide.observed = lead ++ narrow.observed

namespace Aligned

variable {lead : List (Event E.Mark)} {extra : List FrameId} {narrow wide : Context E}

theorem frameDepth (h : Aligned lead extra narrow wide) (id : FrameId) :
    wide.frameDepth id = narrow.frameDepth id := by
  rw [← wide.frameDepth_widened extra, h.same, narrow.frameDepth_widened]

theorem frameCallback (h : Aligned lead extra narrow wide) (id : FrameId) :
    wide.frameCallback id = narrow.frameCallback id := by
  rw [← wide.frameCallback_widened extra, h.same, narrow.frameCallback_widened]

theorem scopeOf (h : Aligned lead extra narrow wide) (id : FrameId) :
    (wide.scopeOf id).widened = (narrow.scopeOf id).widened := by
  rw [← wide.scopeOf_widened extra, h.same, narrow.scopeOf_widened]

theorem frameCount (h : Aligned lead extra narrow wide) : wide.frameCount = narrow.frameCount := by
  have length := congrArg (fun ctx => ctx.frames.slots.length) h.same
  simpa [Context.widened, FrameTable.widened, Context.frameCount, FrameTable.count] using length

theorem record (h : Aligned lead extra narrow wide) (events : List (Event E.Mark)) :
    Aligned lead extra (narrow.record events) (wide.record events) where
  same := h.same
  observed := by
    rw [Context.observed_record, Context.observed_record, h.observed, List.append_assoc]

theorem trace (h : Aligned lead extra narrow wide) (event : TraceEvent) :
    Aligned lead extra (narrow.trace event) (wide.trace event) := by
  have sink : wide.sink? = narrow.sink? := (congrArg Context.sink? h.same :)
  unfold Context.trace
  rw [sink]
  cases narrow.sink? with
  | none => exact h
  | some sink => exact h.record _

theorem openScope (h : Aligned lead extra narrow wide) (scope : String) :
    Aligned lead extra (narrow.openScope scope) (wide.openScope scope) where
  same := h.same
  observed := by
    rw [Context.observed_openScope, Context.observed_openScope, h.observed]

theorem closeScope (h : Aligned lead extra narrow wide) :
    Aligned lead extra narrow.closeScope wide.closeScope where
  same := h.same
  observed := by
    rw [Context.observed_closeScope, Context.observed_closeScope, h.observed]

theorem charge (h : Aligned lead extra narrow wide) :
    Aligned lead extra narrow.charge wide.charge :=
  ⟨(congrArg Context.charge h.same :), h.observed⟩

theorem enqueue (h : Aligned lead extra narrow wide) (id : FrameId) (action : Action E) :
    Aligned lead extra (narrow.enqueue id action) (wide.enqueue id action) where
  same := by
    rw [Context.widened_enqueue, Context.widened_enqueue, h.same]
  observed := by
    rw [(wide.requeued_enqueue id action).observed, (narrow.requeued_enqueue id action).observed,
      h.observed]

theorem schedule (h : Aligned lead extra narrow wide) (id : FrameId) (actions : List (Action E)) :
    Aligned lead extra (narrow.schedule id actions) (wide.schedule id actions) := by
  rw [Context.schedule_eq_foldl, Context.schedule_eq_foldl]
  induction fan actions generalizing narrow wide with
  | nil => exact h
  | cons action rest ih => exact ih (h.enqueue id action)

/-- New frames get the same handle, and their scopes may differ like those of the others. -/
theorem scheduleIn (h : Aligned lead extra narrow wide) {frame frame' : Frame}
    (scopes : frame'.widened = frame.widened) (actions : List (Action E)) :
    Aligned lead extra
      ((narrow.pushFrame frame).2.schedule (narrow.pushFrame frame).1 actions)
      ((wide.pushFrame frame').2.schedule (wide.pushFrame frame').1 actions) := by
  have next : wide.frames.next = narrow.frames.next :=
    (congrArg (fun ctx => ctx.frames.next) h.same :)
  have id : (wide.pushFrame frame').1 = (narrow.pushFrame frame).1 := congrArg FrameId.mk next
  have pushed : Aligned lead extra (narrow.pushFrame frame).2 (wide.pushFrame frame').2 := by
    refine ⟨?_, h.observed⟩
    rw [Context.widened_pushFrame, Context.widened_pushFrame, h.same, scopes]
  rw [id]
  exact pushed.schedule _ actions

/-- The entry that has been executed in both contexts gives back its frame. -/
theorem settle (h : Aligned lead extra narrow wide) {id : FrameId} {running : List FrameId}
    (accounted : narrow.Accounted (id :: running)) (own : ∀ other ∈ extra, other = id) :
    Aligned lead [] (narrow.settle id) (wide.settle id) := by
  have frames := FrameTable.widened_settle id accounted.balanced.held own
    (congrArg Context.frames h.same :)
  refine ⟨?_, h.observed⟩
  calc
    (wide.settle id).widened []
        = { wide.widened extra with frames := (wide.frames.release id).sweep.widened [] } := rfl
    _ = { narrow.widened [] with frames := (narrow.frames.release id).sweep.widened [] } := by
          rw [h.same, frames]
    _ = (narrow.settle id).widened [] := rfl

theorem promote (h : Aligned lead extra narrow wide) :
    Aligned lead extra narrow.promote wide.promote :=
  ⟨(congrArg Context.promote h.same :), h.observed⟩

theorem finish (h : Aligned lead extra narrow wide) (outcome : Outcome) :
    Aligned lead extra (narrow.finish outcome).2 (wide.finish outcome).2 :=
  ⟨(congrArg (fun ctx => (ctx.finish outcome).2) h.same :), h.observed⟩

end Aligned

/-- Aligned contexts in which no frame is at the top. -/
structure Sunk (lead : List (Event E.Mark)) (running : List FrameId) (narrow wide : Context E) :
    Prop extends Aligned lead [] narrow wide where
  accounted : narrow.Accounted running
  inner : narrow.Inner

namespace Sunk

variable {lead : List (Event E.Mark)} {running running' : List FrameId}
  {narrow wide narrow' wide' : Context E} {id : FrameId}

/-- After an operation that adds no frame. -/
theorem step (h : Sunk lead running narrow wide) (aligned : Aligned lead [] narrow' wide')
    (evolves : narrow.Evolves running' narrow') (next : narrow'.frames.next = narrow.frames.next) :
    Sunk lead running' narrow' wide' :=
  ⟨aligned, evolves.accounted, h.inner.evolves evolves next⟩

theorem enqueue (h : Sunk lead running narrow wide) (id : FrameId) (action : Action E) :
    Sunk lead running (narrow.enqueue id action) (wide.enqueue id action) :=
  h.step (h.toAligned.enqueue id action) (h.accounted.enqueue id action)
    (congrArg View.nextFrame (narrow.requeued_enqueue id action).view :)

theorem discard (h : Sunk lead running narrow wide) (id : FrameId) :
    Sunk lead running (narrow.discard id) (wide.discard id) := by
  -- Here it matters that nothing waits at the top: discarding from depth one on clears all.
  have deep : ∀ entry ∈ narrow.pending.entries, 0 < entry.depth :=
    fun entry mem => h.inner.depth_pos h.accounted (List.mem_append_right _ mem)
  have pending : wide.pending = narrow.pending := (congrArg Context.pending h.same :)
  refine h.step ⟨?_, ?_⟩ (h.accounted.discard id)
    (congrArg View.nextFrame (narrow.requeued_discard id).view :)
  · -- Both scopes discard what their wider form discards.
    rw [Context.discard, Context.discard, wide.rollBack_widened [] (pending ▸ deep),
      narrow.rollBack_widened [] deep, h.scopeOf, Context.widened_rollBack,
      Context.widened_rollBack, h.same]
  · rw [(wide.requeued_discard id).observed, (narrow.requeued_discard id).observed, h.observed]

theorem scheduleBelow (h : Sunk lead running narrow wide) (id : FrameId) (callback : Callback)
    (returnParent : Bool) (actions : List (Action E)) :
    Sunk lead running (narrow.scheduleBelow id callback returnParent actions)
      (wide.scheduleBelow id callback returnParent actions) := by
  unfold Context.scheduleBelow
  rw [h.frameDepth]
  let frame (scope : Scope) : Frame := { depth := narrow.frameDepth id + 1, callback, scope }
  have pushed := h.accounted.pushFrame (frame (if returnParent then narrow.scopeOf id
    else .discardFrom (narrow.frameDepth id + 1)))
  have scheduled := pushed.accounted.schedule ⟨narrow.frames.next⟩ actions
  refine ⟨h.toAligned.scheduleIn ?_ actions, scheduled.accounted,
    (h.inner.pushFrame (Nat.succ_pos _)).evolves scheduled
      (congrArg View.nextFrame (Context.requeued_schedule _ _ _).view :)⟩
  cases returnParent with
  | false => rfl
  | true => exact congrArg frame (h.scopeOf id)

theorem synchronous : Synchronous (E := E) (Sunk lead) where
  limits h := (congrArg Context.limits h.same :)
  forkLimit h := (congrArg (fun ctx => ctx.limits.forkLimit) h.same :)
  quota h := (congrArg Context.quota h.same :)
  overflowed h := (congrArg Context.overflowed h.same :)
  pending h := (congrArg Context.pending h.same :)
  frameDepth h _ := h.toAligned.frameDepth _
  frameCallback h _ := h.toAligned.frameCallback _
  record h events := h.step (h.toAligned.record events) (h.accounted.record events) rfl
  trace {_ narrow _} h event := by
    have next : (narrow.trace event).frames.next = narrow.frames.next := by
      rcases narrow.exists_trace_eq event with ⟨events, eq⟩
      rw [eq]
      rfl
    exact h.step (h.toAligned.trace event) (h.accounted.trace event) next
  openScope h scope :=
    h.step (h.toAligned.openScope scope)
      (h.accounted.congr rfl rfl rfl rfl rfl) rfl
  closeScope h :=
    h.step h.toAligned.closeScope
      (h.accounted.congr rfl rfl rfl rfl rfl) rfl
  charge h := h.step h.toAligned.charge (h.accounted.congr rfl rfl rfl rfl rfl) rfl
  enqueue h _ action := h.enqueue _ action
  discard h _ := h.discard _
  scheduleBelow h _ := h.scheduleBelow _
  take {_ narrow _ entry pending} h taken := by
    have popped : narrow.pop? = some (entry, { narrow with pending, depth := entry.depth }) := by
      simp [Context.pop?, taken]
    exact h.step ⟨(congrArg (fun ctx => { ctx with pending, depth := entry.depth }) h.same :),
      h.observed⟩ (h.accounted.pop popped) rfl
  settle h :=
    h.step (h.toAligned.settle h.accounted (List.forall_mem_nil _)) h.accounted.settle
      (FrameTable.next_foldl_dropUnused _ _)
  promote h := h.step h.toAligned.promote h.accounted.promote rfl
  finish h outcome :=
    h.step (h.toAligned.finish outcome) (h.accounted.congr rfl rfl rfl rfl rfl) rfl

end Sunk
end CommandScheduler
