import CommandScheduler.Proofs.Procedure

/-!
# Queueing — what becomes of an action that is queued

Queueing an action can end in four ways, and everything that is said about queueing is derived from
them.  Scheduling a list of actions is queueing one to two of them or a single fan-out.  Every deed
queues some actions, one after another, or none at all; what else it does touches neither the limits
nor the overflow mark, and only a charge touches the quota.
-/

namespace CommandScheduler

/-- What is queued when a list of actions is scheduled. -/
def fan {V : Vocabulary} : List (Action V) → List (Action V)
  | [] => []
  | [action] => [action]
  | [first, second] => [first, second]
  | first :: rest => [.fanOut first rest]

theorem Action.fan_ne_nil {V : Vocabulary} {actions : List (Action V)} (h : actions ≠ []) :
    fan actions ≠ [] := by
  unfold fan
  split <;> simp_all

/-- A single action that brings in all actions of a list, if there are any. -/
def bundled {V : Vocabulary} : List (Action V) → List (Action V)
  | [] => []
  | first :: rest => [.fanOut first rest]

variable {E : Embedding}

namespace Context

/-! ## The log -/

@[simp]
theorem record_nil (ctx : Context E) : ctx.record [] = ctx := by
  simp [record]

theorem record_append (ctx : Context E) (events events' : List (Event E.Mark)) :
    ctx.record (events ++ events') = (ctx.record events).record events' := by
  have log : ctx.log ++ (events ++ events') = ctx.log ++ events ++ events' :=
    Array.toList_inj.mp (by simp)
  simp [record, log]

/-- Telling the sink, or nobody, writes at most some events. -/
theorem exists_trace_eq (ctx : Context E) (event : TraceEvent) :
    ∃ events, ctx.trace event = ctx.record events := by
  unfold trace
  cases ctx.sink? with
  | none => exact ⟨[], ctx.record_nil.symm⟩
  | some sink => exact ⟨_, rfl⟩

/-! ## One action -/

/-- Queueing an action makes a full queue overflow, is refused after an overflow, drops the action
if its frame was released, or stages it. -/
theorem enqueue_cases (ctx : Context E) (id : FrameId) (action : Action E) :
    (ctx.limits.maxQueueDepth < ctx.queued ∧ ctx.enqueue id action = ctx.overflow) ∨
    (ctx.overflowed = true ∧ ctx.enqueue id action = ctx) ∨
    (ctx.overflowed = false ∧ ctx.frame? id = none ∧
      ctx.enqueue id action = ctx.notify .frameReleased) ∨
    (ctx.overflowed = false ∧ ctx.queued ≤ ctx.limits.maxQueueDepth ∧
      ∃ depth frames, ctx.frames.retain? id = some (depth, frames) ∧
        ctx.enqueue id action =
          { ctx with frames, staging := ctx.staging.push { depth, frame := id, action } }) := by
  by_cases full : ctx.limits.maxQueueDepth < ctx.queued
  · exact .inl ⟨full, by simp [enqueue, full, overflow]⟩
  · -- The cases are those of the definition, in its order.
    cases overflowed : ctx.overflowed with
    | true => exact .inr (.inl ⟨rfl, by simp [enqueue, full, overflowed]⟩)
    | false =>
      cases retained : ctx.frames.retain? id with
      | none =>
        have dead : ctx.frame? id = none := by
          simpa [FrameTable.retain?, frame?, FrameTable.frame?] using retained
        exact .inr (.inr (.inl ⟨rfl, dead, by simp [enqueue, full, overflowed, retained]⟩))
      | some held =>
        rcases held with ⟨depth, frames⟩
        refine .inr (.inr (.inr ⟨rfl, Nat.not_lt.mp full, depth, frames, rfl, ?_⟩))
        simp [enqueue, full, overflowed, retained]

theorem overflowed_enqueue_of_full {ctx : Context E} (full : ctx.limits.maxQueueDepth < ctx.queued)
    (id : FrameId) (action : Action E) : (ctx.enqueue id action).overflowed = true := by
  simp [enqueue, full, overflow]

/-- An action for a released frame is dropped. -/
theorem enqueue_of_released {ctx : Context E} (intact : ctx.overflowed = false)
    (room : ctx.queued ≤ ctx.limits.maxQueueDepth) {id : FrameId} (dead : ctx.frame? id = none)
    (action : Action E) : ctx.enqueue id action = ctx.notify .frameReleased := by
  have notFull : ¬ ctx.limits.maxQueueDepth < ctx.queued := Nat.not_lt.mpr room
  have refused : ctx.frames.retain? id = none := by
    simpa [FrameTable.retain?, FrameTable.frame?, frame?] using dead
  simp [enqueue, notFull, intact, refused]

theorem overflowed_enqueue {ctx : Context E} (h : ctx.overflowed = true) (id : FrameId)
    (action : Action E) : (ctx.enqueue id action).overflowed = true := by
  rcases ctx.enqueue_cases id action with
    ⟨-, eq⟩ | ⟨-, eq⟩ | ⟨intact, -, eq⟩ | ⟨intact, -, depth, frames, -, eq⟩
  · rw [eq]
    rfl
  · rw [eq]
    exact h
  · simp [h] at intact
  · simp [h] at intact

theorem depth_enqueue (ctx : Context E) (id : FrameId) (action : Action E) :
    (ctx.enqueue id action).depth = ctx.depth := by
  rcases ctx.enqueue_cases id action with
    ⟨-, eq⟩ | ⟨-, eq⟩ | ⟨-, -, eq⟩ | ⟨-, -, depth, frames, -, eq⟩
  all_goals exact (congrArg Context.depth eq :)

/-- Queueing only takes away pending entries, and then all of them. -/
theorem pending_enqueue_suffix (ctx : Context E) (id : FrameId) (action : Action E) :
    (ctx.enqueue id action).pending.entries <:+ ctx.pending.entries := by
  rcases ctx.enqueue_cases id action with
    ⟨-, eq⟩ | ⟨-, eq⟩ | ⟨-, -, eq⟩ | ⟨-, -, depth, frames, -, eq⟩
  · rw [eq]
    exact List.nil_suffix
  all_goals
    have same : (ctx.enqueue id action).pending.entries = ctx.pending.entries :=
      (congrArg (fun after => after.pending.entries) eq :)
    exact same ▸ List.suffix_refl _

/-! ## Several actions -/

theorem schedule_eq_foldl (ctx : Context E) (frame : FrameId) (actions : List (Action E)) :
    ctx.schedule frame actions =
      (fan actions).foldl (fun ctx action => ctx.enqueue frame action) ctx := by
  match actions with
  | [] | [_] | [_, _] | _ :: _ :: _ :: _ => rfl

/-- One or two actions are queued at once. -/
theorem schedule_of_short (ctx : Context E) (frame : FrameId) {actions : List (Action E)}
    (short : actions.length ≤ 2) :
    ctx.schedule frame actions =
      actions.foldl (fun ctx action => ctx.enqueue frame action) ctx := by
  rcases actions with _ | ⟨first, _ | ⟨second, _ | ⟨third, rest⟩⟩⟩
  · rfl
  · rfl
  · rfl
  · simp at short

/-- For more actions a single one is queued. -/
theorem schedule_of_long (ctx : Context E) (frame : FrameId) {actions : List (Action E)}
    (long : 2 < actions.length) :
    ctx.schedule frame actions =
      (bundled actions).foldl (fun ctx action => ctx.enqueue frame action) ctx := by
  rcases actions with _ | ⟨first, _ | ⟨second, _ | ⟨third, rest⟩⟩⟩
  · simp at long
  · simp at long
  · simp at long
  · rfl

theorem expand_eq_foldl (ctx : Context E) (first : Action E) (rest : List (Action E))
    (frame : FrameId) :
    ctx.expand first rest frame =
      (first :: bundled rest).foldl (fun ctx action => ctx.enqueue frame action) ctx := by
  cases rest <;> rfl

theorem overflowed_enqueueAll {ctx : Context E} (h : ctx.overflowed = true) (id : FrameId)
    (actions : List (Action E)) :
    (actions.foldl (fun ctx action => ctx.enqueue id action) ctx).overflowed = true := by
  induction actions generalizing ctx with
  | nil => exact h
  | cons action rest ih => exact ih (overflowed_enqueue h id action)

/-- If several actions were queued without an overflow, there was room for the first one. -/
theorem room_of_enqueueAll {ctx : Context E} {id : FrameId} {action : Action E}
    {rest : List (Action E)}
    (h : ((action :: rest).foldl (fun ctx action => ctx.enqueue id action) ctx).overflowed = false) :
    ctx.overflowed = false ∧ ctx.queued ≤ ctx.limits.maxQueueDepth := by
  refine ⟨?_, ?_⟩
  · cases before : ctx.overflowed with
    | false => rfl
    | true =>
      rw [overflowed_enqueueAll before id (action :: rest)] at h
      cases h
  · refine Nat.not_lt.mp ?_
    intro full
    rw [List.foldl_cons, overflowed_enqueueAll (overflowed_enqueue_of_full full id action) id rest] at h
    cases h

theorem enqueueAll_of_released {ctx : Context E} (intact : ctx.overflowed = false)
    (room : ctx.queued ≤ ctx.limits.maxQueueDepth) {id : FrameId} (dead : ctx.frame? id = none)
    (actions : List (Action E)) :
    ∃ events, actions.foldl (fun ctx action => ctx.enqueue id action) ctx = ctx.record events := by
  induction actions generalizing ctx with
  | nil => exact ⟨[], ctx.record_nil.symm⟩
  | cons action rest ih =>
    rw [List.foldl_cons, enqueue_of_released intact room dead]
    have later : ∃ events, rest.foldl (fun ctx action => ctx.enqueue id action)
        (ctx.notify .frameReleased) = (ctx.notify .frameReleased).record events :=
      ih intact room dead
    rcases later with ⟨events, eq⟩
    exact ⟨[.notice .frameReleased] ++ events, by rw [eq, record_append, notify]⟩

theorem limits_enqueue (ctx : Context E) (id : FrameId) (action : Action E) :
    (ctx.enqueue id action).limits = ctx.limits := by
  rcases ctx.enqueue_cases id action with
    ⟨-, eq⟩ | ⟨-, eq⟩ | ⟨-, -, eq⟩ | ⟨-, -, depth, frames, -, eq⟩
  all_goals exact (congrArg Context.limits eq :)

theorem quota_enqueue (ctx : Context E) (id : FrameId) (action : Action E) :
    (ctx.enqueue id action).quota = ctx.quota := by
  rcases ctx.enqueue_cases id action with
    ⟨-, eq⟩ | ⟨-, eq⟩ | ⟨-, -, eq⟩ | ⟨-, -, depth, frames, -, eq⟩
  all_goals exact (congrArg Context.quota eq :)

theorem limits_enqueueAll (ctx : Context E) (id : FrameId) (actions : List (Action E)) :
    (actions.foldl (fun ctx action => ctx.enqueue id action) ctx).limits = ctx.limits := by
  induction actions generalizing ctx with
  | nil => rfl
  | cons action rest ih => exact (ih (ctx.enqueue id action)).trans (ctx.limits_enqueue id action)

theorem quota_enqueueAll (ctx : Context E) (id : FrameId) (actions : List (Action E)) :
    (actions.foldl (fun ctx action => ctx.enqueue id action) ctx).quota = ctx.quota := by
  induction actions generalizing ctx with
  | nil => rfl
  | cons action rest ih => exact (ih (ctx.enqueue id action)).trans (ctx.quota_enqueue id action)

/-- The contexts in which actions are queued, one after another. -/
def queueings (id : FrameId) : List (Action E) → Context E → List (Context E)
  | [], _ => []
  | action :: rest, ctx => ctx :: queueings id rest (ctx.enqueue id action)

end Context

/-! ## Deeds -/

/-- The contexts in which an effect queues an action. -/
def Effect.queueings (ctx : Context E) : Effect E → List (Context E)
  | .enqueue frame action => ctx.queueings frame [action]
  | .schedule frame actions => ctx.queueings frame (fan actions)
  | .queueCommand chain source callback =>
    let (frame, ctx) := ctx.pushTopFrame callback
    ctx.queueings frame [.topLevel chain source]
  | .queueCall function source callback =>
    let (frame, ctx) := ctx.pushTopFrame callback
    ctx.queueings frame [.call function (source.callback.chain callback) false source]
  | .ask _ | .pushFrame _ | .discard _ | .discardFrom _ | .charge | .install _ | .trace _
  | .fire .. | .present .. | .load | .store _ | .mark _ => []

namespace Deed

def queueings (ctx : Context E) : Deed E → List (Context E)
  | effect e => e.queueings ctx
  | record _ | openScope _ | closeScope => []

def isCharge : Deed E → Bool
  | effect .charge => true
  | _ => false

end Deed

/-- The context with a unit of the quota charged, or not. -/
def Context.chargeIf (ctx : Context E) (charged : Bool) : Context E :=
  if charged then ctx.charge else ctx

/-- From some context on, the deed only queues actions in a frame, one after another. -/
structure Deed.Queues (deed : Deed E) (ctx mid : Context E) (id : FrameId)
    (actions : List (Action E)) : Prop where
  limits : mid.limits = ctx.limits
  quota : mid.quota = (ctx.chargeIf deed.isCharge).quota
  overflowed : mid.overflowed = ctx.overflowed
  queueings : deed.queueings ctx = mid.queueings id actions
  result : (deed.apply ctx).2 = actions.foldl (fun ctx action => ctx.enqueue id action) mid

namespace Deed

/-- Every deed does nothing but to queue from some context on, be it nothing at all. -/
theorem exists_queues (deed : Deed E) (ctx : Context E) :
    ∃ mid id actions, deed.Queues ctx mid id actions := by
  -- A deed that queues nothing does all that it does before.
  have silent : (deed.apply ctx).2.limits = ctx.limits →
      (deed.apply ctx).2.quota = (ctx.chargeIf deed.isCharge).quota →
      (deed.apply ctx).2.overflowed = ctx.overflowed → deed.queueings ctx = [] →
      ∃ mid id actions, deed.Queues ctx mid id actions :=
    fun limits quota overflowed none => ⟨_, ⟨0⟩, [], limits, quota, overflowed, none, rfl⟩
  cases deed with
  | record events => exact silent rfl rfl rfl rfl
  | openScope scope => exact silent rfl rfl rfl rfl
  | closeScope => exact silent rfl rfl rfl rfl
  | effect effect =>
    cases effect with
    | enqueue frame action => exact ⟨ctx, frame, [action], rfl, rfl, rfl, rfl, rfl⟩
    | schedule frame actions =>
      exact ⟨ctx, frame, fan actions, rfl, rfl, rfl, rfl, ctx.schedule_eq_foldl frame actions⟩
    | queueCommand chain source callback =>
      exact ⟨(ctx.pushTopFrame callback).2, (ctx.pushTopFrame callback).1,
        [.topLevel chain source], rfl, rfl, rfl, rfl, rfl⟩
    | queueCall function source callback =>
      exact ⟨(ctx.pushTopFrame callback).2, (ctx.pushTopFrame callback).1,
        [.call function (source.callback.chain callback) false source], rfl, rfl, rfl, rfl, rfl⟩
    | discard frame =>
      have kept : (ctx.discard frame).limits = ctx.limits ∧
          (ctx.discard frame).quota = ctx.quota ∧
          (ctx.discard frame).overflowed = ctx.overflowed := by
        unfold Context.discard Context.rollBack
        split <;> exact ⟨rfl, rfl, rfl⟩
      exact silent kept.1 kept.2.1 kept.2.2 rfl
    | trace event =>
      rcases ctx.exists_trace_eq event with ⟨events, eq⟩
      exact silent (congrArg Context.limits eq :) (congrArg Context.quota eq :)
        (congrArg Context.overflowed eq :) rfl
    | present source error forked =>
      rcases ctx.exists_trace_eq (.error error.message) with ⟨events, eq⟩
      exact silent (congrArg Context.limits eq :) (congrArg Context.quota eq :)
        (congrArg Context.overflowed eq :) rfl
    | ask | pushFrame | discardFrom | charge | install | fire | load | store | mark =>
      exact silent rfl rfl rfl rfl

end Deed

namespace Context

theorem limits_deed (deed : Deed E) (ctx : Context E) :
    (deed.apply ctx).2.limits = ctx.limits := by
  rcases deed.exists_queues ctx with ⟨mid, id, actions, queues⟩
  rw [queues.result, mid.limits_enqueueAll]
  exact queues.limits

/-- An overflow is never taken back. -/
theorem overflowed_deed (deed : Deed E) (ctx : Context E) (h : ctx.overflowed = true) :
    (deed.apply ctx).2.overflowed = true := by
  rcases deed.exists_queues ctx with ⟨mid, id, actions, queues⟩
  rw [queues.result]
  exact overflowed_enqueueAll (queues.overflowed.trans h) id actions

end Context
end CommandScheduler
