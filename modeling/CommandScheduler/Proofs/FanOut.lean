import CommandScheduler.Proofs.Twin

/-!
# FanOut — a fan-out does what its actions do when they are queued one by one

A list of actions is either queued at once or brought in by a fan-out, one action at a time.  Both
runs are followed turn by turn: each turn of the plain run is matched by the same turn of the lazy
one, which makes an additional turn right before each action of the fan-out.

The additional turn costs no quota and leaves the live frames as they are, so both runs end in the
same way, wherever a rollback or the quota cuts them.
-/

namespace CommandScheduler

variable {E : Embedding}

/-! ## Moves of the run loop -/

namespace Twin

variable {parting : Parting E} {running : List FrameId} {staged left : List (Action E)}
  {plain lazy : Context E}

theorem settle {frame : FrameId} (h : Twin parting (frame :: running) staged left plain lazy) :
    Twin parting running staged left (plain.settle frame) (lazy.settle frame) := by
  have outline := h.plainAccounted.balanced.outline_settle h.lazyAccounted.balanced h.outline
    h.mem_waiting_iff
  refine ⟨{ h.toAlike with outline := outline }, h.intact, ?_, ?_⟩
  · exact h.plainAccounted.settle.accounted
  · exact h.lazyAccounted.settle.accounted

/-- What is left of a pending fan-out stays pending behind the entries of a step. -/
theorem promote (h : Twin parting running [] left plain lazy) :
    Twin parting running [] left plain.promote lazy.promote := by
  rcases h.pending with ⟨kept, which, pending⟩
  refine ⟨{ h.toAlike with staging := .refl _ _, pending := ⟨kept, which, ?_⟩ }, h.intact, ?_, ?_⟩
  · change Apart _ kept (plain.staging.toList ++ _) (lazy.staging.toList ++ _)
    rw [h.staging.eq]
    exact pending.prepend _
  · exact h.plainAccounted.promote.accounted
  · exact h.lazyAccounted.promote.accounted

/-- A fan-out that was staged becomes pending. -/
theorem promote_staged (h : Twin parting running staged [] plain lazy) :
    Twin parting running [] staged plain.promote lazy.promote := by
  rcases h.pending with ⟨kept, which, pending⟩
  obtain rfl : kept = [] := which.elim id id
  refine ⟨{ h.toAlike with staging := .refl _ _, pending := ⟨staged, .inl rfl, ?_⟩ }, h.intact,
    ?_, ?_⟩
  · change Apart _ staged (_ ++ plain.pending.entries) (_ ++ lazy.pending.entries)
    rw [pending.eq]
    exact h.staging.append _
  · exact h.plainAccounted.promote.accounted
  · exact h.lazyAccounted.promote.accounted

/-- Twins that have the same first entry are twins when it is executed. -/
theorem pop (h : Twin parting running staged left plain lazy) {entry : Entry E}
    {started : Context E} (popped : plain.pop? = some (entry, started)) {rest : List (Entry E)}
    (front : lazy.pending.entries = entry :: rest) {left' : List (Action E)}
    (pending : ∃ kept, (kept = left' ∨ kept = []) ∧
      Apart parting.toSeat kept started.pending.entries rest) :
    ∃ started', lazy.pop? = some (entry, started') ∧ started'.pending.entries = rest ∧
      Twin parting (entry.frame :: running) staged left' started started' := by
  -- Whatever depth the contexts had before, it is now the entry's.
  rcases Context.exists_pop? front with ⟨backlog, rfl, lazyPopped⟩
  refine ⟨_, lazyPopped, rfl, ?_⟩
  have plainAccounted := (h.plainAccounted.pop popped).accounted
  have lazyAccounted := (h.lazyAccounted.pop lazyPopped).accounted
  obtain ⟨plainBacklog, -, rfl⟩ := Context.pop?_eq_some popped
  let deepen (ctx : Context E) : Context E := { ctx with depth := entry.depth }
  have husk := (congrArg deepen h.husk :)
  exact ⟨{ h.toAlike with husk := husk, pending := pending }, h.intact, plainAccounted,
    lazyAccounted⟩

end Twin

/-! ## Turns -/

/-- Twins between two turns of the loop. -/
structure Abreast (parting : Parting E) (running : List FrameId) (left : List (Action E))
    (plain lazy : Context E) : Prop extends Twin parting running [] left plain lazy where
  unstaged : plain.staging = #[]
  swept : plain.frames.fresh = []

section Turns

variable {parting : Parting E} {running : List FrameId} {left : List (Action E)}
  {plain lazy next : Context E} {host : Host E} {start : Start E}

/-- Twins at the start of an entry are twins again when the next turn begins. -/
theorem Twin.turn (blind : host.Blind) {started : Context E}
    (h : Twin parting (start.entry.frame :: running) [] left start.context started)
    (turn : Turn host plain start next) (funded : lazy.quota.isExhausted = false)
    (popped : lazy.pop? = some (start.entry, started)) :
    ∃ next', Turn host lazy ⟨start.entry, started⟩ next' ∧
      Abreast parting running left next next' := by
  rcases turn with ⟨-, -, fuel, after, performed, intact, rfl⟩
  rcases h.perform blind fuel start.entry.action start.entry.frame performed intact with
    ⟨after', performed', twin⟩
  have settled := twin.settle
  exact ⟨_, ⟨funded, popped, fuel, after', performed', settled.lazyIntact, rfl⟩,
    settled.promote, rfl, rfl⟩

/-- The turn of a fan-out puts its next action in front, followed by the fan-out of the others.
Apart from that, only the current depth and the count of references change. -/
theorem Context.exists_expansion (host : Host E) {ctx : Context E} (h : ctx.Accounted running)
    (intact : ctx.overflowed = false) (funded : ctx.quota.isExhausted = false)
    (unstaged : ctx.staging = #[]) (swept : ctx.frames.fresh = []) {seat : Seat}
    {first : Action E} {rest : List (Action E)} {back : List (Entry E)}
    (front : ctx.pending.entries = seat.bundle (first :: rest) ++ back)
    (room : back.length + (first :: bundled rest).length ≤ ctx.limits.maxQueueDepth + 1) :
    ∃ started mid, Turn host ctx ⟨seat.entry (.fanOut first rest), started⟩ mid ∧
      mid.pending.entries = seat.entry first :: (seat.bundle rest ++ back) ∧
      mid.staging = #[] ∧ mid.frames.outline = ctx.frames.outline ∧ mid.log = ctx.log ∧
      mid.husk = ({ ctx with depth := seat.depth } : Context E).husk := by
  rcases Context.exists_pop? front with ⟨backlog, rfl, popped⟩
  let started : Context E := { ctx with pending := backlog, depth := seat.depth }
  have accounted : started.Accounted (seat.frame :: running) := (h.pop popped).accounted
  -- The fan-out has held its frame, so the frame is live.
  have waits : seat.entry (.fanOut first rest) ∈ ctx.waiting := by
    rw [Context.waiting, front]
    exact List.mem_append_right _ List.mem_cons_self
  rcases h.balanced.exists_frame? waits with ⟨frame, live, depth⟩
  have queued : started.queued = backlog.entries.length := by
    rw [Context.queued_eq_length, Context.waiting, show started.staging = #[] from unstaged]
    rfl
  rcases Context.enqueueAll_of_live accounted intact seat live depth (first :: bundled rest) with
    ⟨-, full⟩ | ⟨frames, sameLive, next, fresh, eq⟩
  · rw [queued] at full
    exact absurd room (Nat.not_le.mpr full)
  rw [← Context.expand_eq_foldl] at eq
  let after : Context E :=
    { started with
      frames
      staging := started.staging ++ seat.each (first :: bundled rest) }
  have performed : Context.perform host 1 (.fanOut first rest) seat.frame started = some after := by
    simp only [Context.perform, eq, after]
  refine ⟨started, (after.settle seat.frame).promote,
    ⟨funded, popped, 1, after, performed, intact, rfl⟩, ?_, rfl, ?_, rfl, rfl⟩
  · change (started.staging ++ seat.each (first :: bundled rest)).toList ++ backlog.entries = _
    rw [show started.staging = #[] from unstaged]
    simp [Seat.bundle]
  · -- The frame is held by the new entries, and there are no other new frames to sweep.
    have new : after.frames.fresh = [] := fresh.trans swept
    have holds : seat.frame ∈ after.waiting.map Entry.frame := by
      simp [Context.waiting, after, Seat.entry]
    have sweptLive : (after.settle seat.frame).frames.live = ctx.frames.live := by
      have settled := (accounted.leads (Leads.perform performed)).accounted.balanced.settle.2.2
      refine settled.trans (Eq.trans (List.filter_eq_self.mpr ?_) sameLive)
      intro entry _
      by_cases same : entry.1 = seat.frame
      · exact decide_eq_true (.inr (List.mem_append_right _ (same ▸ holds)))
      · exact decide_eq_true (.inl ⟨same, by simp [new]⟩)
    have sweptNext : (after.settle seat.frame).frames.next = ctx.frames.next :=
      (FrameTable.next_foldl_dropUnused _ _).trans next
    exact FrameTable.outline_eq_iff.mpr ⟨sweptNext, sweptLive, swept.symm⟩

/-- When the lazy context comes to its fan-out, a turn of its own brings in the next action.  The
contexts are then still twins, up to the current depth. -/
theorem Abreast.expand (h : Abreast parting running left plain lazy)
    (funded : plain.quota.isExhausted = false) {first : Action E} {rest : List (Action E)}
    {back : List (Entry E)}
    (front : plain.pending.entries = parting.each (first :: rest) ++ back)
    (lazyFront : lazy.pending.entries = parting.bundle (first :: rest) ++ back) :
    ∃ started mid, Turn host lazy ⟨parting.entry (.fanOut first rest), started⟩ mid ∧
      mid.pending.entries = parting.entry first :: (parting.bundle rest ++ back) ∧
      Twin parting running [] rest { plain with depth := parting.depth } mid := by
  have lazyUnstaged : lazy.staging = #[] := by
    have staging := h.staging.eq
    rw [h.unstaged] at staging
    exact Array.toList_inj.mp staging
  -- In the plain context there is room for all actions.
  have room : back.length + (first :: bundled rest).length ≤ lazy.limits.maxQueueDepth + 1 := by
    have bounded := h.plainAccounted.bounded
    rw [Context.waiting, front, h.unstaged] at bounded
    have shorter : (bundled rest).length ≤ rest.length := by cases rest <;> simp [bundled]
    simp only [Seat.each, List.length_append, List.length_map, List.length_cons,
      List.length_nil] at bounded
    rw [h.limits_eq, List.length_cons]
    omega
  obtain ⟨started, mid, turn, entries, staging, outline, log, husk⟩ :=
    Context.exists_expansion host h.lazyAccounted h.lazyIntact
      ((congrArg Quota.isExhausted h.quota_eq).trans funded) lazyUnstaged
      (h.fresh_eq.trans h.swept) lazyFront room
  have lazyAccounted := (h.lazyAccounted.leads (.turn turn)).accounted
  let deepen (ctx : Context E) : Context E := { ctx with depth := parting.depth }
  have plainAccounted : plain.Evolves running (deepen plain) :=
    h.plainAccounted.congr rfl rfl rfl rfl rfl
  refine ⟨started, mid, turn, entries, ⟨?_, outline.trans h.outline, ?_, ?_, ?_⟩, h.intact,
    plainAccounted.accounted, lazyAccounted⟩
  · exact husk.trans (congrArg deepen h.husk)
  · have story : mid.story = lazy.story := congrArg (·.toList.map Event.uncounted) log
    rw [story]
    exact h.story
  · rw [h.unstaged, staging]
    exact .refl _ _
  · exact ⟨rest, .inl rfl, [parting.entry first], back, front, entries⟩

/-! ## Both runs, turn by turn -/

/-- How a turn of the plain run is matched.  At the start of an action of the fan-out, one entry
stands for all actions that come after it, and none once there are no more. -/
inductive Keeps (parting : Parting E) (running : List FrameId) :
    List (Action E) → Start E → List (Start E) → List (Action E) → Prop where
  /-- The same entry starts in both runs. -/
  | other {left : List (Action E)} {start start' : Start E} :
      start'.entry = start.entry →
      Twin parting (start.entry.frame :: running) [] left start.context start'.context →
        Keeps parting running left start [start'] left
  /-- The fan-out brings in its next action, which starts right afterwards. -/
  | argument {first : Action E} {rest : List (Action E)} {expansion start start' : Start E}
      {back : List (Entry E)} :
      expansion.entry = parting.entry (.fanOut first rest) →
      start.entry = parting.entry first → start'.entry = start.entry →
      start.context.pending.entries = parting.each rest ++ back →
      start'.context.pending.entries = parting.bundle rest ++ back →
      Twin parting (start.entry.frame :: running) [] rest start.context start'.context →
        Keeps parting running (first :: rest) start [expansion, start'] rest

/-- How the starts of two runs go together, with the actions that are left before and after them. -/
inductive InStep (parting : Parting E) (running : List FrameId) :
    List (Action E) → List (Start E) → List (Start E) → List (Action E) → Prop where
  | refl (left : List (Action E)) : InStep parting running left [] [] left
  | turn {left mid last : List (Action E)} {start : Start E} {lead starts starts' : List (Start E)} :
      Keeps parting running left start lead mid → InStep parting running mid starts starts' last →
        InStep parting running left (start :: starts) (lead ++ starts') last

theorem Abreast.turn (blind : host.Blind) (h : Abreast parting running left plain lazy)
    (turn : Turn host plain start next) :
    ∃ lead left' next', Turns host lazy lead next' ∧ Keeps parting running left start lead left' ∧
      Abreast parting running left' next next' := by
  rcases h.pending with ⟨kept, which, pending⟩
  obtain ⟨backlog, front, started⟩ := Context.pop?_eq_some turn.popped
  rw [front] at pending
  rcases pending.uncons with ⟨rest, lazyFront, apart⟩ |
    ⟨action, actions, back, rfl, entry, eq, lazyFront⟩
  · -- The same entry stands first in both queues.
    have startFront : start.context.pending.entries = backlog.entries := by rw [started]
    obtain ⟨started', popped, -, twin⟩ := h.toTwin.pop turn.popped lazyFront
      ⟨kept, which, startFront ▸ apart⟩
    have funded := (congrArg Quota.isExhausted h.quota_eq).trans turn.funded
    rcases twin.turn blind turn funded popped with ⟨next', turn', abreast⟩
    exact ⟨_, left, next', .single turn', .other rfl twin, abreast⟩
  · -- The plain queue comes to an action of the fan-out, the lazy one to the fan-out itself.
    obtain rfl : action :: actions = left := which.resolve_right (List.cons_ne_nil _ _)
    have startRest : start.context.pending.entries = parting.each actions ++ back := by
      rw [started]
      exact eq
    have plainFront : plain.pending.entries = parting.each (action :: actions) ++ back := by
      rw [front, entry, eq]
      rfl
    rcases h.expand turn.funded plainFront lazyFront with
      ⟨expanding, mid, expansion, midFront, midTwin⟩
    rw [← entry] at midFront
    -- Taking the entry sets the depth, so it does not matter that the expansion has set it before.
    have popped : ({ plain with depth := parting.depth } : Context E).pop? =
        some (start.entry, start.context) := turn.popped
    obtain ⟨started', popped', lazyRest, twin⟩ := midTwin.pop popped midFront
      ⟨actions, .inl rfl, [], back, startRest, rfl⟩
    have funded := (congrArg Quota.isExhausted midTwin.quota_eq).trans turn.funded
    rcases twin.turn blind turn funded popped' with ⟨next', turn', abreast⟩
    exact ⟨_, actions, next', .head expansion (.single turn'),
      .argument rfl entry rfl startRest lazyRest twin, abreast⟩

theorem Abreast.turns (blind : host.Blind) {starts : List (Start E)}
    (h : Abreast parting running left plain lazy) (turns : Turns host plain starts next) :
    ∃ starts' left' next', Turns host lazy starts' next' ∧
      InStep parting running left starts starts' left' ∧
      Abreast parting running left' next next' := by
  induction turns generalizing left lazy with
  | refl => exact ⟨[], left, lazy, .refl lazy, .refl left, h⟩
  | head turn _ ih =>
    rcases h.turn blind turn with ⟨lead, mid, after, first, keeps, abreast⟩
    rcases ih abreast with ⟨starts', left', next', rest, inStep, last⟩
    exact ⟨lead ++ starts', left', next', first.trans rest, .turn keeps inStep, last⟩

/-- Twins remain twins when their runs end. -/
theorem Twin.finish {staged : List (Action E)} (h : Twin parting running staged left plain lazy)
    (outcome : Outcome) :
    Twin parting running staged left (plain.finish outcome).2 (lazy.finish outcome).2 := by
  let surface (ctx : Context E) : Context E := { ctx with depth := 0 }
  have husk := (congrArg surface h.husk :)
  refine ⟨{ h.toAlike with husk := husk }, h.intact, ?_, ?_⟩
  · exact (h.plainAccounted.leads (.finish outcome .refl)).accounted
  · exact (h.lazyAccounted.leads (.finish outcome .refl)).accounted

theorem Abreast.course (blind : host.Blind) {starts : List (Start E)} {outcome : Outcome}
    {final : Context E} (h : Abreast parting running left plain lazy)
    (course : Course host plain starts outcome final) (intact : final.overflowed = false) :
    ∃ starts' left' final', Course host lazy starts' outcome final' ∧
      InStep parting running left starts starts' left' ∧
      Twin parting running [] left' final final' := by
  induction course generalizing left lazy with
  | exhausted exhausted =>
    -- The quota is looked at before the fan-out is, so no additional turn is made.
    have exhausted' := (congrArg Quota.isExhausted h.quota_eq).trans exhausted
    refine ⟨[], left, _, .exhausted exhausted', .refl left, Twin.finish ?_ _⟩
    rw [h.limits_eq]
    exact (h.toTwin.deed (.record [.notice _]) trivial h.intact).2
  | completed funded popped =>
    have funded' := (congrArg Quota.isExhausted h.quota_eq).trans funded
    have popped' : lazy.pop? = none := by
      rcases h.pending with ⟨kept, -, pending⟩
      exact lazy.pop?_eq_none_iff.mpr (pending.nil_iff.mpr ((Context.pop?_eq_none_iff _).mp popped))
    exact ⟨[], left, _, .completed funded' popped', .refl left, h.toTwin.finish _⟩
  | overflowed _ _ _ overflowed =>
    exact absurd (overflowed.symm.trans intact) Bool.noConfusion
  | turn turn _ ih =>
    rcases h.turn blind turn with ⟨lead, mid, after, first, keeps, abreast⟩
    rcases ih abreast intact with ⟨starts', left', final', rest, inStep, last⟩
    exact ⟨lead ++ starts', left', final', first.course rest, .turn keeps inStep, last⟩

end Turns

/-! ## Scheduling -/

/-- What of a list of actions is put into a fan-out.  One or two are queued at once, and nothing is
queued for a released frame. -/
def Context.deferred (ctx : Context E) (frame : FrameId) (actions : List (Action E)) :
    List (Action E) :=
  if (ctx.frame? frame).isSome && 2 < actions.length then actions else []

/-- Where contexts part in which the actions are queued one by one and scheduled. -/
def Context.parting (ctx : Context E) (frame : FrameId) (actions : List (Action E)) : Parting E where
  depth := ctx.frameDepth frame
  frame := frame
  plain := (actions.foldl (fun ctx action => ctx.enqueue frame action) ctx).story
  lazy := (ctx.schedule frame actions).story

theorem Twin.refl {seat : Seat} {running : List FrameId} {ctx : Context E}
    (h : ctx.Accounted running) (intact : ctx.overflowed = false) :
    Twin ⟨seat, ctx.story, ctx.story⟩ running [] [] ctx ctx :=
  ⟨⟨rfl, rfl, ⟨[], by simp⟩, .refl _ _, ⟨[], .inl rfl, .refl _ _⟩⟩, intact, h, h⟩

/-- Queueing actions one by one and scheduling them makes twins. -/
theorem Context.Accounted.schedule_twin {running : List FrameId} {ctx : Context E}
    (h : ctx.Accounted running) (frame : FrameId) (actions : List (Action E))
    (intact : (actions.foldl (fun ctx action => ctx.enqueue frame action) ctx).overflowed = false) :
    Twin (ctx.parting frame actions) running (ctx.deferred frame actions) []
      (actions.foldl (fun ctx action => ctx.enqueue frame action) ctx)
      (ctx.schedule frame actions) := by
  have plainAccounted := (h.enqueueAll frame actions).accounted
  have lazyAccounted := (h.schedule frame actions).accounted
  by_cases long : 2 < actions.length
  · have bundle := ctx.schedule_of_long frame long
    obtain ⟨ctxIntact, room⟩ : ctx.overflowed = false ∧ ctx.queued ≤ ctx.limits.maxQueueDepth := by
      cases actions with
      | nil => simp at long
      | cons first rest => exact Context.room_of_enqueueAll intact
    have same : Alike (ctx.parting frame actions) (ctx.deferred frame actions) []
        (actions.foldl (fun ctx action => ctx.enqueue frame action) ctx)
        (ctx.schedule frame actions) := by
      rw [Context.parting, bundle]
      cases live : ctx.frame? frame with
      | none =>
        -- The actions are dropped, with a notice for each of them.
        have nothing : ctx.deferred frame actions = [] := by simp [deferred, live]
        rcases Context.enqueueAll_of_released ctxIntact room live actions with ⟨events, eq⟩
        obtain ⟨events', eq'⟩ := Context.enqueueAll_of_released ctxIntact room live (bundled actions)
        rw [nothing, eq, eq']
        exact ⟨rfl, rfl, ⟨[], by simp⟩, .refl _ _, ⟨[], .inl rfl, .refl _ _⟩⟩
      | some owner =>
        -- The staged entries are the only difference.
        have everything : ctx.deferred frame actions = actions := by simp [deferred, live, long]
        have depth : owner.depth = ctx.frameDepth frame := by simp [frameDepth, live]
        have queue (actions : List (Action E)) :=
          Context.enqueueAll_of_live h ctxIntact ⟨ctx.frameDepth frame, frame⟩ live depth actions
        obtain ⟨frames, live, next, fresh, eq⟩ := (queue actions).resolve_left fun full =>
          Bool.noConfusion (intact.symm.trans full.1)
        obtain ⟨frames', live', next', fresh', eq'⟩ := (queue (bundled actions)).resolve_left
          fun full => by
            have single : (bundled actions).length ≤ 1 := by cases actions <;> simp [bundled]
            omega
        change actions.foldl (fun ctx action => ctx.enqueue frame action) ctx = _ at eq
        change (bundled actions).foldl (fun ctx action => ctx.enqueue frame action) ctx = _ at eq'
        rw [everything, eq, eq']
        refine ⟨rfl, ?_, ⟨[], by simp⟩, ?_, ⟨[], .inl rfl, .refl _ _⟩⟩
        · exact FrameTable.outline_eq_iff.mpr
            ⟨next'.trans next.symm, live'.trans live.symm, fresh'.trans fresh.symm⟩
        · exact ⟨ctx.staging.toList, [], by simp, by simp [Seat.bundle]⟩
    exact ⟨same, intact, plainAccounted, lazyAccounted⟩
  · have none : ctx.deferred frame actions = [] := by simp [deferred, long]
    have same := ctx.schedule_of_short frame (Nat.not_lt.mp long)
    rw [none, parting, same]
    exact .refl plainAccounted intact

/-- Actions that are queued in a live frame leave no trace in the log. -/
theorem Context.story_enqueueAll {running : List FrameId} {ctx : Context E}
    (h : ctx.Accounted running) {frame : FrameId} {owner : Frame}
    (live : ctx.frame? frame = some owner) (actions : List (Action E))
    (intact : (actions.foldl (fun ctx action => ctx.enqueue frame action) ctx).overflowed = false) :
    (actions.foldl (fun ctx action => ctx.enqueue frame action) ctx).story = ctx.story := by
  cases actions with
  | nil => rfl
  | cons first rest =>
    have ctxIntact := (Context.room_of_enqueueAll intact).1
    rcases Context.enqueueAll_of_live h ctxIntact ⟨owner.depth, frame⟩ live rfl (first :: rest) with
      ⟨overflowed, -⟩ | ⟨frames, -, -, -, eq⟩
    · exact absurd (overflowed.symm.trans intact) Bool.noConfusion
    · exact (congrArg Context.story eq :)

/-- Scheduling actions does the same as queueing them one by one, from whatever entry is being
executed, for whatever frame and whatever is left to do in that entry.  Turn by turn the same
entries start with the same effects, and the runs end with the same outcome, quota and live frames.
-/
theorem schedule_in_step {host : Host E} (blind : host.Blind) {own : FrameId}
    {running : List FrameId} {ctx : Context E} (reachable : Reachable (own :: running) ctx)
    (frame : FrameId) (actions : List (Action E)) {remaining : List (Work E)}
    (blindWork : ∀ work ∈ remaining, work.Blind) {fuel : Nat} {plain : Context E}
    (performed : Work.performAll host fuel remaining
      (actions.foldl (fun ctx action => ctx.enqueue frame action) ctx) = some plain)
    (intact : plain.overflowed = false) :
    ∃ lazy, Work.performAll host fuel remaining (ctx.schedule frame actions) = some lazy ∧
      (∀ owner, ctx.frame? frame = some owner →
        (ctx.parting frame actions).lazy = (ctx.parting frame actions).plain) ∧
      (∀ starts next, Turns host (plain.settle own).promote starts next →
        ∃ starts' left next', Turns host (lazy.settle own).promote starts' next' ∧
          InStep (ctx.parting frame actions) running (ctx.deferred frame actions) starts starts'
            left ∧
          Twin (ctx.parting frame actions) running [] left next next' ∧
          next'.overflowed = false) ∧
      (∀ starts outcome final, Course host (plain.settle own).promote starts outcome final →
        final.overflowed = false →
        ∃ starts' left final', Course host (lazy.settle own).promote starts' outcome final' ∧
          InStep (ctx.parting frame actions) running (ctx.deferred frame actions) starts starts'
            left ∧
          Twin (ctx.parting frame actions) running [] left final final' ∧
          final'.overflowed = false ∧ final'.quota = final.quota ∧
          final'.frames.live = final.frames.live ∧ final'.memory = final.memory) := by
  -- What was queued right at the beginning has not overflowed the queue either.
  have first : (actions.foldl (fun ctx action => ctx.enqueue frame action) ctx).overflowed = false :=
    (Work.leads_all performed : Leads running _ running _).intact intact
  have scheduled := reachable.accounted.schedule_twin frame actions first
  rcases scheduled.workAll blind blindWork performed intact with ⟨lazy, performed', twin⟩
  have abreast : Abreast (ctx.parting frame actions) running (ctx.deferred frame actions)
      (plain.settle own).promote (lazy.settle own).promote :=
    ⟨twin.settle.promote_staged, rfl, rfl⟩
  refine ⟨lazy, performed', ?_, ?_, ?_⟩
  · intro owner live
    have lazyIntact := scheduled.lazyIntact
    -- Staging writes nothing into the log, so both stories are the one before.
    unfold Context.parting
    rw [Context.schedule_eq_foldl] at lazyIntact
    rw [Context.schedule_eq_foldl, Context.story_enqueueAll reachable.accounted live _ lazyIntact,
      Context.story_enqueueAll reachable.accounted live _ first]
  · intro starts next turns
    rcases abreast.turns blind turns with ⟨starts', left, next', turns', inStep, last⟩
    exact ⟨starts', left, next', turns', inStep, last.toTwin, last.lazyIntact⟩
  · intro starts outcome final course finalIntact
    obtain ⟨starts', left, final', course', inStep, last⟩ := abreast.course blind course finalIntact
    exact ⟨starts', left, final', course', inStep, last, last.lazyIntact, last.quota_eq,
      last.live_eq, (congrArg Context.memory last.husk :)⟩

/-- An entry schedules three calls of an empty function and ends. -/
theorem schedule_in_step_of_three_calls :
    ∃ (ctx : Context .bare) (actions : List (Action Embedding.bare)), actions.length = 3 ∧
      Reachable [⟨0⟩] ctx ∧
      ∃ starts final, Course .bare ((ctx.schedule ⟨0⟩ actions).settle ⟨0⟩).promote starts
        .completed final ∧ final.quota.remaining = 65533 := by
  let queue : Procedure .bare Unit := do
    let frame ← Procedure.pushFrame { depth := 0, scope := .clearAll }
    Procedure.effect (.enqueue frame .fallthrough)
  let queued : Context .bare := (queue.apply (.create {} () .off)).promote
  let ctx : Context .bare := { queued with pending := .empty, depth := 0 }
  let call : Action Embedding.bare := .call (.ofChains "nothing" []) .empty false (.named "alex")
  let plain : Context .bare :=
    [call, call, call].foldl (fun ctx action => ctx.enqueue ⟨0⟩ action) ctx
  have popped : queued.pop? = some (⟨0, ⟨0⟩, .fallthrough⟩, ctx) := rfl
  have reachable : Reachable [⟨0⟩] ctx :=
    ⟨{}, (), .off, (Leads.refl.procedure queue).promote.pop popped⟩
  have intact : plain.overflowed = false := by decide +kernel
  have blind : Host.bare.Blind :=
    ⟨fun code => code.elim, fun code => code.elim, fun code => code.elim, fun code => code.elim⟩
  have performed : Work.performAll .bare 0 [] plain = some plain := rfl
  -- The plain run can be followed to its end.
  have ran : (Context.drain .bare 4 (plain.settle ⟨0⟩).promote).map
      (fun run => (run.1, run.2.overflowed, run.2.quota)) =
        some (.completed, false, ⟨65533⟩) := by decide +kernel
  rcases Option.map_eq_some_iff.mp ran with ⟨⟨outcome, final⟩, drained, eq⟩
  simp only [Prod.mk.injEq] at eq
  rcases eq with ⟨rfl, finalIntact, quota⟩
  rcases Course.of_drain drained with ⟨starts, course⟩
  obtain ⟨lazy, lazyPerformed, -, -, ends⟩ := schedule_in_step blind reachable ⟨0⟩ [call, call, call]
    (fun work mem => absurd mem List.not_mem_nil) performed intact
  have same : ctx.schedule ⟨0⟩ [call, call, call] = lazy := Option.some.inj lazyPerformed
  rcases ends starts .completed final course finalIntact with
    ⟨starts', left, final', course', -, -, -, sameQuota, -⟩
  refine ⟨ctx, [call, call, call], rfl, reachable, starts', final', ?_, ?_⟩
  · rw [same]
    exact course'
  · rw [sameQuota, quota]

end CommandScheduler
