import CommandScheduler.Proofs.Holders
import CommandScheduler.Proofs.Reachable

/-!
# Accounting — every reference to a frame has an owner

Each entry in the queue and each entry being executed holds one reference to its frame, and nothing
else does.  The invariant is stated for a table of frames, a list of running frames and a list of
waiting entries; it is kept by every deed and every move of the run loop, also when runs are nested
and when the queue overflows in the middle of a step.
-/

namespace CommandScheduler

variable {E : Embedding}

/-! ## Balanced tables -/

/-- The table counts the references of the running frames and of the waiting entries, and each
waiting entry knows the depth of its frame. -/
structure Balanced {V : Vocabulary} (frames : FrameTable) (running : List FrameId)
    (waiting : List (Entry V)) : Prop where
  held : frames.Held (running ++ waiting.map Entry.frame)
  depths : ∀ entry ∈ waiting, ∀ frame, frames.frame? entry.frame = some frame →
    frame.depth = entry.depth

namespace Balanced

variable {V : Vocabulary} {frames : FrameTable} {running : List FrameId}
  {waiting gone rest : List (Entry V)}

theorem perm (h : Balanced frames running waiting) (p : waiting.Perm rest) :
    Balanced frames running rest where
  held := h.held.perm ((p.map Entry.frame).append_left running)
  depths := fun entry mem => h.depths entry (p.mem_iff.mpr mem)

/-- A waiting entry's frame is live, and its depth is the one the entry knows. -/
theorem exists_frame? (h : Balanced frames running waiting) {entry : Entry V}
    (mem : entry ∈ waiting) :
    ∃ frame, frames.frame? entry.frame = some frame ∧ frame.depth = entry.depth := by
  have holder : entry.frame ∈ running ++ waiting.map Entry.frame :=
    List.mem_append_right _ (List.mem_map_of_mem mem)
  rcases h.held.exists_frame? holder with ⟨frame, live⟩
  exact ⟨frame, live, h.depths entry mem frame live⟩

theorem insert (h : Balanced frames running waiting) (frame : Frame) :
    Balanced (frames.insert frame).2 running waiting where
  held := h.held.insert frame
  depths := by
    intro entry mem found live
    rcases h.exists_frame? mem with ⟨old, oldLive, depth⟩
    have issued : (⟨frames.next⟩ : FrameId) ≠ entry.frame := by
      intro eq
      exact h.held.absent_next (eq ▸ FrameTable.mem_keys_of_frame? oldLive)
    -- The waiting entry's frame is an older one.
    have same : (frames.insert frame).2.frame? entry.frame = frames.frame? entry.frame := by
      simp [FrameTable.frame?, FrameTable.slot?, FrameTable.insert, FrameTable.slotOf, issued]
    rw [same, oldLive] at live
    cases live
    exact depth

/-- A new entry of a live frame adds a reference. -/
theorem retain (h : Balanced frames running waiting) {id : FrameId} {frame : Frame}
    (live : frames.frame? id = some frame) :
    ∃ frames', frames.retain? id = some (frame.depth, frames') ∧ frames.Onward frames' ∧
      ∀ action,
        Balanced frames' running ({ depth := frame.depth, frame := id, action } :: waiting) := by
  rcases h.held.retain live with ⟨frames', retained, held, sameLive, next, fresh⟩
  refine ⟨frames', retained, ?_, fun action => ⟨held.perm ?_, ?_⟩⟩
  · exact .of_live_subset h.held.distinct next (sameLive ▸ List.Subset.refl _)
  · exact List.perm_middle.symm
  · intro entry mem found foundLive
    rw [FrameTable.frame?_congr sameLive] at foundLive
    rcases List.mem_cons.mp mem with rfl | mem
    · rw [live] at foundLive
      cases foundLive
      rfl
    · exact h.depths entry mem found foundLive

/-- Entries that leave the queue give back their references. -/
theorem releaseAll (h : Balanced frames running (gone ++ rest)) :
    Balanced (frames.releaseAll (gone.map Entry.frame)) running rest ∧
      frames.Onward (frames.releaseAll (gone.map Entry.frame)) ∧
      (frames.releaseAll (gone.map Entry.frame)).live = frames.live.filter fun entry =>
        entry.1 ∉ gone.map Entry.frame ∨ entry.1 ∈ running ++ rest.map Entry.frame := by
  -- The leaving entries come first, as `Held.releaseAll` takes holders from the front.
  have split : (running ++ (gone ++ rest).map Entry.frame).Perm
      (gone.map Entry.frame ++ (running ++ rest.map Entry.frame)) := by
    rw [List.map_append]
    exact List.perm_append_comm_assoc _ _ _
  rcases (h.held.perm split).releaseAll with ⟨held, live⟩
  have subset : _ ⊆ frames.live := live ▸ List.filter_sublist.subset
  refine ⟨⟨held, ?_⟩, .of_live_subset h.held.distinct (FrameTable.next_releaseAll _ _) subset, live⟩
  intro entry mem frame found
  exact h.depths entry (List.mem_append_right _ mem) frame
    (FrameTable.frame?_of_live_subset h.held.distinct subset found)

/-- The entry that was being executed gives back its reference, and unused new frames are swept. -/
theorem settle {id : FrameId} (h : Balanced frames (id :: running) waiting) :
    Balanced (frames.release id).sweep running waiting ∧
      frames.Onward (frames.release id).sweep ∧
      (frames.release id).sweep.live = frames.live.filter fun entry =>
        (entry.1 ≠ id ∧ entry.1 ∉ frames.fresh) ∨ entry.1 ∈ running ++ waiting.map Entry.frame := by
  rcases h.held.release with ⟨released, releasedLive⟩
  rcases released.sweep with ⟨swept, sweptLive⟩
  have live : (frames.release id).sweep.live = frames.live.filter fun entry =>
      (entry.1 ≠ id ∧ entry.1 ∉ frames.fresh) ∨ entry.1 ∈ running ++ waiting.map Entry.frame := by
    -- A frame goes if it is the released one or a new one, unless somebody holds it.
    rw [sweptLive, releasedLive, List.filter_filter]
    refine List.filter_congr ?_
    intro entry _
    have fresh : (frames.release id).fresh = frames.fresh := rfl
    rw [fresh]
    by_cases same : entry.1 = id
    · subst same
      by_cases held : entry.1 ∈ running ++ waiting.map Entry.frame <;> simp [held]
    · by_cases held : entry.1 ∈ running ++ waiting.map Entry.frame <;> simp [same, held]
  have subset : _ ⊆ frames.live := live ▸ List.filter_sublist.subset
  have next : (frames.release id).sweep.next = frames.next :=
    FrameTable.next_foldl_dropUnused _ _
  refine ⟨⟨swept, ?_⟩, .of_live_subset h.held.distinct next subset, live⟩
  intro entry mem frame found
  exact h.depths entry mem frame
    (FrameTable.frame?_of_live_subset h.held.distinct subset found)

/-- The first waiting entry is executed: it keeps its reference. -/
theorem start {entry : Entry V} (h : Balanced frames running (entry :: rest)) :
    Balanced frames (entry.frame :: running) rest where
  held := h.held.perm List.perm_middle
  depths := fun other mem => h.depths other (List.mem_cons_of_mem _ mem)

end Balanced

/-! ## Accounted contexts -/

namespace Context

/-- Everything that waits to be executed, staged entries first. -/
def waiting (ctx : Context E) : List (Entry E) :=
  ctx.staging.toList ++ ctx.pending.entries

theorem queued_eq_length (ctx : Context E) : ctx.queued = ctx.waiting.length := by
  calc
    ctx.pending.size + ctx.staging.size
        = ctx.pending.entries.length + ctx.staging.toList.length := by
          rw [ctx.pending.size_eq, Array.length_toList]
    _ = ctx.staging.toList.length + ctx.pending.entries.length := Nat.add_comm _ _
    _ = ctx.waiting.length := List.length_append.symm

/-- What a rollback from some depth on discards, and what goes on waiting. -/
theorem waiting_perm_front (ctx : Context E) (depth : Nat) :
    ctx.waiting.Perm (ctx.pending.front depth ++
      (ctx.staging.toList ++ (ctx.pending.dropFront depth).entries)) := by
  have split : ctx.pending.entries =
      ctx.pending.front depth ++ (ctx.pending.dropFront depth).entries :=
    List.takeWhile_append_dropWhile.symm
  rw [waiting, split]
  exact List.perm_append_comm_assoc _ _ _

theorem waiting_perm_pending (ctx : Context E) :
    ctx.waiting.Perm (ctx.pending.entries ++ ctx.staging.toList) :=
  List.perm_append_comm

/-- Every reference to a frame of the context has an owner, the queue is at most one entry longer
than its bound, and an overflowed context is empty. -/
structure Accounted (running : List FrameId) (ctx : Context E) : Prop where
  balanced : Balanced ctx.frames running ctx.waiting
  bounded : ctx.waiting.length ≤ ctx.limits.maxQueueDepth + 1
  cleared : ctx.overflowed = true → ctx.waiting = []

/-- The second context is accounted for, and handles of the first one still lead to the same frames
or to none. -/
structure Evolves (ctx : Context E) (running : List FrameId) (ctx' : Context E) : Prop where
  accounted : ctx'.Accounted running
  onward : ctx.frames.Onward ctx'.frames

theorem Evolves.trans {running running' : List FrameId} {ctx ctx' ctx'' : Context E}
    (first : ctx.Evolves running ctx') (second : ctx'.Evolves running' ctx'') :
    ctx.Evolves running' ctx'' :=
  ⟨second.accounted, first.onward.trans second.onward⟩

namespace Accounted

variable {running : List FrameId} {ctx ctx' : Context E}

theorem create (limits : Limits) (memory : E.Memory) (profiler : Profiler) :
    (Context.create limits memory profiler : Context E).Accounted [] where
  balanced := ⟨FrameTable.held_empty, by intro entry mem; cases mem⟩
  bounded := Nat.zero_le _
  cleared := fun _ => rfl

theorem refl (h : ctx.Accounted running) : ctx.Evolves running ctx :=
  ⟨h, .refl _⟩

/-- Only the limits, the frames, the queue and the overflow mark matter. -/
theorem congr (h : ctx.Accounted running) (limits : ctx'.limits = ctx.limits)
    (frames : ctx'.frames = ctx.frames)
    (staging : ctx'.staging = ctx.staging) (pending : ctx'.pending = ctx.pending)
    (overflowed : ctx'.overflowed = ctx.overflowed) : ctx.Evolves running ctx' := by
  have waiting : ctx'.waiting = ctx.waiting := by rw [Context.waiting, staging, pending]; rfl
  refine ⟨⟨?_, ?_, ?_⟩, ?_⟩
  · rw [frames, waiting]
    exact h.balanced
  · rw [limits, waiting]
    exact h.bounded
  · rw [overflowed, waiting]
    exact h.cleared
  · rw [frames]
    exact .refl _

theorem record (h : ctx.Accounted running) (events : List (Event E.Mark)) :
    ctx.Evolves running (ctx.record events) :=
  h.congr rfl rfl rfl rfl rfl

theorem install (h : ctx.Accounted running) (sink? : Option Sink) :
    ctx.Evolves running (ctx.install sink?) :=
  h.congr rfl rfl rfl rfl rfl

theorem trace (h : ctx.Accounted running) (event : TraceEvent) :
    ctx.Evolves running (ctx.trace event) := by
  rcases ctx.exists_trace_eq event with ⟨events, eq⟩
  rw [eq]
  exact h.record events

theorem pushFrame (h : ctx.Accounted running) (frame : Frame) :
    ctx.Evolves running (ctx.pushFrame frame).2 :=
  ⟨⟨h.balanced.insert frame, h.bounded, h.cleared⟩, .insert ctx.frames frame⟩

/-! ### Queueing -/

theorem overflow (h : ctx.Accounted running) : ctx.Evolves running ctx.overflow := by
  have all : Balanced ctx.frames running (ctx.waiting ++ []) := by
    rw [List.append_nil]
    exact h.balanced
  rcases all.releaseAll with ⟨balanced, onward, -⟩
  have frames : ctx.overflow.frames = ctx.frames.releaseAll (ctx.waiting.map Entry.frame) := by
    simp [Context.overflow, Context.waiting, FrameTable.releaseAll]
  refine ⟨⟨?_, Nat.zero_le _, fun _ => rfl⟩, ?_⟩
  · rw [frames]
    exact balanced
  · rw [frames]
    exact onward

theorem enqueue (h : ctx.Accounted running) (frame : FrameId) (action : Action E) :
    ctx.Evolves running (ctx.enqueue frame action) := by
  rcases ctx.enqueue_cases frame action with
    ⟨-, eq⟩ | ⟨-, eq⟩ | ⟨-, -, eq⟩ | ⟨intact, room, depth, frames, retained, eq⟩
  · rw [eq]
    exact h.overflow
  · rw [eq]
    exact h.refl
  · rw [eq]
    exact h.record _
  · rcases Option.map_eq_some_iff.mp retained with ⟨slot, found, -⟩
    rcases h.balanced.retain (Option.map_eq_some_iff.mpr ⟨slot, found, rfl⟩) with
      ⟨frames', retained', onward, balanced⟩
    rw [retained] at retained'
    cases retained'
    rw [eq]
    -- The new entry is the last of the staged ones.
    have waiting : (({ depth := slot.frame.depth, frame, action } : Entry E) :: ctx.waiting).Perm
        ((ctx.staging.push { depth := slot.frame.depth, frame, action }).toList ++
          ctx.pending.entries) := by
      simp only [Context.waiting, Array.toList_push, List.append_assoc]
      exact List.perm_middle.symm
    refine ⟨⟨(balanced action).perm waiting, ?_, ?_⟩, onward⟩
    · have length := waiting.length_eq
      rw [List.length_cons, ← ctx.queued_eq_length] at length
      exact Nat.le_trans (Nat.le_of_eq length.symm) (Nat.succ_le_succ room)
    · intro set
      exact absurd (intact.symm.trans set) Bool.noConfusion

theorem enqueueAll (h : ctx.Accounted running) (frame : FrameId) (actions : List (Action E)) :
    ctx.Evolves running (actions.foldl (fun ctx action => ctx.enqueue frame action) ctx) := by
  induction actions generalizing ctx with
  | nil => exact h.refl
  | cons action rest ih =>
    have first := h.enqueue frame action
    exact first.trans (ih first.accounted)

theorem schedule (h : ctx.Accounted running) (frame : FrameId) (actions : List (Action E)) :
    ctx.Evolves running (ctx.schedule frame actions) := by
  rw [Context.schedule_eq_foldl]
  exact h.enqueueAll frame (fan actions)

theorem pushTopFrame (h : ctx.Accounted running) (callback : Callback) :
    ctx.Evolves running (ctx.pushTopFrame callback).2 := by
  unfold Context.pushTopFrame
  exact h.pushFrame _

/-! ### Rolling back -/

theorem discardFrom (h : ctx.Accounted running) (depth : Nat) :
    ctx.Evolves running (ctx.discardFrom depth) := by
  let rest := ctx.staging.toList ++ (ctx.pending.dropFront depth).entries
  have waiting : ctx.waiting.Perm (ctx.pending.front depth ++ rest) := ctx.waiting_perm_front depth
  rcases (h.balanced.perm waiting).releaseAll with ⟨balanced, onward, -⟩
  refine ⟨⟨balanced, ?_, ?_⟩, onward⟩
  · have length := waiting.length_eq
    have bounded := h.bounded
    rw [List.length_append] at length
    change rest.length ≤ ctx.limits.maxQueueDepth + 1
    omega
  · intro overflowed
    rw [h.cleared overflowed] at waiting
    exact (List.append_eq_nil_iff.mp (List.nil_perm.mp waiting)).2

theorem clearPending (h : ctx.Accounted running) : ctx.Evolves running ctx.clearPending := by
  have waiting := ctx.waiting_perm_pending
  have rest : ctx.clearPending.waiting = ctx.staging.toList := List.append_nil _
  rcases (h.balanced.perm waiting).releaseAll with ⟨balanced, onward, -⟩
  refine ⟨⟨?_, ?_, ?_⟩, onward⟩
  · rw [rest]
    exact balanced
  · have length := waiting.length_eq
    have bounded := h.bounded
    rw [List.length_append] at length
    rw [rest]
    change _ ≤ ctx.limits.maxQueueDepth + 1
    omega
  · intro overflowed
    rw [rest]
    exact (List.append_eq_nil_iff.mp (h.cleared overflowed)).1

theorem discard (h : ctx.Accounted running) (frame : FrameId) :
    ctx.Evolves running (ctx.discard frame) := by
  unfold Context.discard Context.rollBack
  split
  · exact h.clearPending
  · exact h.discardFrom _

/-! ### Deeds -/

theorem effect (h : ctx.Accounted running) (effect : Effect E) :
    ctx.Evolves running (effect.apply ctx).2 := by
  cases effect with
  | ask query => exact h.refl
  | enqueue frame action => exact h.enqueue frame action
  | schedule frame actions => exact h.schedule frame actions
  | pushFrame frame => exact h.pushFrame frame
  | queueCommand chain source callback =>
    have pushed := h.pushTopFrame callback
    exact pushed.trans (pushed.accounted.enqueue _ _)
  | queueCall function source callback =>
    have pushed := h.pushTopFrame callback
    exact pushed.trans (pushed.accounted.enqueue _ _)
  | discard frame => exact h.discard frame
  | discardFrom depth => exact h.discardFrom depth
  | charge => exact h.congr rfl rfl rfl rfl rfl
  | install sink? => exact h.install sink?
  | trace event => exact h.trace event
  | fire callback result => exact h.record _
  | present source error forked => exact (h.trace _).trans ((h.trace _).accounted.record _)
  | load => exact h.refl
  | store memory => exact h.congr rfl rfl rfl rfl rfl
  | mark mark => exact h.record _

theorem deed (h : ctx.Accounted running) (deed : Deed E) :
    ctx.Evolves running (deed.apply ctx).2 := by
  cases deed with
  | effect effect => exact h.effect effect
  | record events => exact h.record events
  | openScope scope => exact h.congr rfl rfl rfl rfl rfl
  | closeScope => exact h.congr rfl rfl rfl rfl rfl

/-! ### Moves of the run loop -/

theorem promote (h : ctx.Accounted running) : ctx.Evolves running ctx.promote := by
  have waiting : ctx.promote.waiting = ctx.waiting := List.nil_append _
  refine ⟨⟨?_, ?_, ?_⟩, .refl _⟩
  · rw [waiting]
    exact h.balanced
  · rw [waiting]
    exact h.bounded
  · rw [waiting]
    exact h.cleared

theorem pop (h : ctx.Accounted running) {entry : Entry E}
    (popped : ctx.pop? = some (entry, ctx')) : ctx.Evolves (entry.frame :: running) ctx' := by
  obtain ⟨pending, eq, rfl⟩ := Context.pop?_eq_some popped
  have waiting : ctx.waiting.Perm (entry :: (ctx.staging.toList ++ pending.entries)) := by
    rw [Context.waiting, eq]
    exact List.perm_middle
  refine ⟨⟨(h.balanced.perm waiting).start, ?_, ?_⟩, .refl _⟩
  · have length := waiting.length_eq
    have bounded := h.bounded
    rw [List.length_cons] at length
    change List.length (ctx.staging.toList ++ pending.entries) ≤ ctx.limits.maxQueueDepth + 1
    omega
  · -- An overflowed context has nothing to take.
    intro overflowed
    rw [h.cleared overflowed] at waiting
    exact absurd (List.nil_perm.mp waiting) (List.cons_ne_nil _ _)

theorem settle {frame : FrameId} (h : ctx.Accounted (frame :: running)) :
    ctx.Evolves running (ctx.settle frame) := by
  rcases h.balanced.settle with ⟨balanced, onward, -⟩
  exact ⟨⟨balanced, h.bounded, h.cleared⟩, onward⟩

/-- Whatever a context leads to is accounted for, too. -/
theorem leads {running' : List FrameId} (h : ctx.Accounted running)
    (leads : Leads running ctx running' ctx') : ctx.Evolves running' ctx' := by
  induction leads with
  | refl => exact h.refl
  | deed deed _ ih => exact ih.trans (ih.accounted.deed deed)
  | promote _ ih => exact ih.trans ih.accounted.promote
  | pop _ popped ih => exact ih.trans (ih.accounted.pop popped)
  | settle _ ih => exact ih.trans ih.accounted.settle
  | finish outcome _ ih => exact ih.trans (ih.accounted.congr rfl rfl rfl rfl rfl)

/-- An entry that is being executed before and after keeps its frame. -/
theorem frame?_of_running {running' : List FrameId} (h : ctx.Accounted running)
    (evolves : ctx.Evolves running' ctx') {id : FrameId} (before : id ∈ running)
    (after : id ∈ running') : ctx'.frame? id = ctx.frame? id :=
  h.balanced.held.frame?_eq evolves.accounted.balanced.held evolves.onward
    (List.mem_append_left _ before) (List.mem_append_left _ after)

/-- An overflowed context has nothing to take. -/
theorem intact_of_pop (h : ctx.Accounted running) {entry : Entry E}
    (popped : ctx.pop? = some (entry, ctx')) : ctx.overflowed = false := by
  cases overflowed : ctx.overflowed with
  | false => rfl
  | true =>
    have cleared := (List.append_eq_nil_iff.mp (h.cleared overflowed)).2
    simp [(ctx.pop?_eq_none_iff).mpr cleared] at popped

/-- An entry that waits before and after keeps its frame. -/
theorem frame?_of_waiting {running' : List FrameId} (h : ctx.Accounted running)
    (evolves : ctx.Evolves running' ctx') {entry : Entry E} (before : entry ∈ ctx.waiting)
    (after : entry ∈ ctx'.waiting) : ctx'.frame? entry.frame = ctx.frame? entry.frame :=
  h.balanced.held.frame?_eq evolves.accounted.balanced.held evolves.onward
    (List.mem_append_right _ (List.mem_map_of_mem before))
    (List.mem_append_right _ (List.mem_map_of_mem after))

end Accounted
end Context

/-- Every context of a root invocation is accounted for. -/
theorem Reachable.accounted {running : List FrameId} {ctx : Context E}
    (h : Reachable running ctx) : ctx.Accounted running := by
  rcases h with ⟨limits, memory, profiler, leads⟩
  exact ((Context.Accounted.create limits memory profiler).leads leads).accounted

/-! ## Live frames -/

namespace Context

/-- With room in the queue, an action for a live frame is staged. -/
theorem enqueue_of_room {running : List FrameId} {ctx : Context E} (h : ctx.Accounted running)
    (intact : ctx.overflowed = false) (room : ctx.queued ≤ ctx.limits.maxQueueDepth) {id : FrameId}
    {frame : Frame} (live : ctx.frame? id = some frame) (action : Action E) :
    ∃ frames : FrameTable, frames.live = ctx.frames.live ∧ frames.next = ctx.frames.next ∧
      frames.fresh = ctx.frames.fresh ∧
        ctx.enqueue id action =
          { ctx with
            frames
            staging := ctx.staging.push { depth := frame.depth, frame := id, action } } := by
  have notFull : ¬ ctx.limits.maxQueueDepth < ctx.queued := Nat.not_lt.mpr room
  rcases h.balanced.held.retain live with ⟨frames, retained, -, sameLive, next, fresh⟩
  refine ⟨frames, sameLive, next, fresh, ?_⟩
  simp [enqueue, notFull, intact, retained]

/-- Queueing in a live frame stages an entry, or the queue overflows. -/
theorem enqueue_of_live {running : List FrameId} {ctx : Context E} (h : ctx.Accounted running)
    (intact : ctx.overflowed = false) {id : FrameId} {frame : Frame}
    (live : ctx.frame? id = some frame) (action : Action E) :
    (ctx.enqueue id action).overflowed = true ∨
      ∃ frames : FrameTable, frames.live = ctx.frames.live ∧ frames.next = ctx.frames.next ∧
        ctx.enqueue id action =
          { ctx with
            frames
            staging := ctx.staging.push { depth := frame.depth, frame := id, action } } := by
  rcases Nat.lt_or_ge ctx.limits.maxQueueDepth ctx.queued with full | room
  · exact .inl (overflowed_enqueue_of_full full id action)
  · rcases enqueue_of_room h intact room live action with ⟨frames, sameLive, next, -, eq⟩
    exact .inr ⟨frames, sameLive, next, eq⟩

end Context

/-! ## What remains after a run -/

/-- After a run that started something and emptied the queue, no frame is left.  Before its first
turn there may be frames that were pushed outside of all entries; every turn sweeps them. -/
theorem Course.frameCount_eq_zero {host : Host E} {ctx final : Context E} {starts : List (Start E)}
    {outcome : Outcome} (course : Course host ctx starts outcome final) (h : ctx.Accounted [])
    (staged : ctx.staging = #[]) (swept : ctx.frames.fresh = [] ∨ starts ≠ [])
    (drained : outcome ≠ .quotaExhausted) : final.frameCount = 0 := by
  induction course with
  | exhausted => exact absurd rfl drained
  | @completed ctx funded popped =>
    -- Nothing waits, and the last turn has swept the new frames.
    have fresh : ctx.frames.fresh = [] := swept.resolve_right fun some => some rfl
    have waiting : ctx.waiting = [] := by
      simp [Context.waiting, staged, (Context.pop?_eq_none_iff ctx).mp popped]
    have held := h.balanced.held
    rw [waiting] at held
    exact held.count_eq_zero fresh
  | @overflowed ctx after start fuel funded popped performed overflowed =>
    -- The overflow has cleared the queue.
    have started := h.pop popped
    have settled := (started.accounted.leads (.perform performed)).accounted.settle
    have held := settled.accounted.balanced.held
    rw [settled.accounted.cleared overflowed] at held
    exact held.count_eq_zero rfl
  | @turn ctx next final start starts outcome turn _ ih =>
    have evolves := h.leads (.turn turn)
    rcases turn with ⟨-, -, fuel, after, -, -, rfl⟩
    exact ih evolves.accounted rfl (.inl rfl) drained

/-- Every reference to a frame is owned by an entry, at every moment of a root invocation: while
programs run, while runs are nested, after a rollback and after an overflow.  So the frame of a
running entry stays what it is, and a run that empties the queue leaves no frame behind. -/
theorem Reachable.references_owned {running : List FrameId} {ctx : Context E}
    (h : Reachable running ctx) :
    (∀ id slot, ctx.frames.slot? id = some slot →
      slot.references = (ctx.waiting.map Entry.frame).count id + running.count id ∧
        (slot.references = 0 → id ∈ ctx.frames.fresh)) ∧
    (∀ entry ∈ ctx.waiting,
      ∃ frame, ctx.frame? entry.frame = some frame ∧ frame.depth = entry.depth) ∧
    (∀ id ∈ running, ∃ frame, ctx.frame? id = some frame) ∧
    (∀ running' ctx', Leads running ctx running' ctx' → Reachable running' ctx' ∧
      ∀ id ∈ running, id ∈ running' → ctx'.frame? id = ctx.frame? id) ∧
    (∀ host fuel (program : Program E Unit) ctx',
      ctx.runProgram host fuel program = some ((), ctx') → Leads running ctx running ctx') ∧
    (running = [] → 0 < ctx.queued → ∀ host fuel outcome final,
      ctx.run host fuel = some (outcome, final) → outcome ≠ .quotaExhausted →
        final.frameCount = 0) := by
  have accounted := h.accounted
  have held := accounted.balanced.held
  refine ⟨?_, ?_, ?_, ?_, ?_, ?_⟩
  · intro id slot found
    have count := held.references id slot found
    rw [List.count_append] at count
    exact ⟨by omega, held.fresh id slot found⟩
  · intro entry mem
    exact accounted.balanced.exists_frame? mem
  · intro id mem
    exact held.exists_frame? (List.mem_append_left _ mem)
  · intro running' ctx' leads
    refine ⟨h.then leads, ?_⟩
    intro id mem mem'
    have evolves := accounted.leads leads
    exact held.frame?_eq evolves.accounted.balanced.held evolves.onward
      (List.mem_append_left _ mem) (List.mem_append_left _ mem')
  · intro host fuel program ctx' ran
    exact .runProgram ran
  · rintro rfl queued host fuel outcome final ran drained
    rcases Course.of_drain ran with ⟨starts, course⟩
    refine course.frameCount_eq_zero accounted.promote.accounted rfl (.inr ?_) drained
    -- Something is queued, so the run does not end before its first turn.
    rintro rfl
    cases course with
    | exhausted => exact drained rfl
    | completed funded popped =>
      have empty := (Context.pop?_eq_none_iff _).mp popped
      have size := congrArg List.length empty
      rw [← ctx.promote.pending.size_eq] at size
      simp only [Context.promote, Backlog.prepend, List.length_nil] at size
      unfold Context.queued at queued
      omega

/-- One entry is executed and another one of its frame waits, so the frame has two references. -/
theorem references_owned_of_running_and_waiting :
    ∃ ctx : Context .bare, Reachable [⟨0⟩] ctx ∧ ctx.waiting.map Entry.frame = [⟨0⟩] ∧
      ∃ slot, ctx.frames.slot? ⟨0⟩ = some slot ∧ slot.references = 2 := by
  let new : Context .bare := .create {} () .off
  let queue : Procedure .bare Unit := do
    let frame ← Procedure.pushFrame { depth := 0, scope := .clearAll }
    Procedure.effect (.enqueue frame .fallthrough)
    Procedure.effect (.enqueue frame .fallthrough)
  have queued : Reachable [] (queue.apply new).promote :=
    ⟨{}, (), .off, (Leads.refl.procedure queue).promote⟩
  have started := queued.then (Leads.refl.pop rfl)
  refine ⟨_, started, rfl, _, rfl, ?_⟩
  exact ((Reachable.references_owned started).1 ⟨0⟩ _ rfl).1

end CommandScheduler
