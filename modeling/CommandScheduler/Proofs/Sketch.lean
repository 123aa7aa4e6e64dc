import CommandScheduler.Proofs.Accounting
import CommandScheduler.Proofs.Interpreter

/-!
# Sketch — one step of a native action

While a native action is performed, only little of the context matters: the tape, the actions it has
queued, and whether it has rolled its frame back.  A sketch keeps just that.

Deeds act on sketches, too, as far as native actions need them.  A sketch that depicts a context
still depicts it after any deed, unless the queue has overflowed; so what a procedure does can be
computed on sketches.
-/

namespace CommandScheduler

/-! ## Native actions -/

section Native

variable {V : Vocabulary}

mutual

/-- Whether an action is work of a native program. -/
def Action.isNative : Action V → Bool
  | .topLevel chain _ | .continuation chain .. => chain.isNative
  | .execute chain .. => chain.isTerminal && chain.terminal.isCommand
  | .fallthrough => true
  | .fanOut first rest => first.isNative && nativeActions rest
  | .task _ => false
  | .line line _ => line.isNative
  | .call function .. => function.isNative

/-- Whether all actions are native. -/
def nativeActions : List (Action V) → Bool
  | [] => true
  | action :: rest => action.isNative && nativeActions rest

end

theorem nativeActions_eq_true_iff {actions : List (Action V)} :
    nativeActions actions = true ↔ ∀ action ∈ actions, action.isNative = true := by
  induction actions with
  | nil => simp [nativeActions]
  | cons action rest ih => simp [nativeActions, ih]

theorem nativeActions_append {actions actions' : List (Action V)} (h : nativeActions actions = true)
    (h' : nativeActions actions' = true) : nativeActions (actions ++ actions') = true := by
  rw [nativeActions_eq_true_iff] at h h' ⊢
  intro action mem
  exact (List.mem_append.mp mem).elim (h action) (h' action)

theorem nativeActions_fan {actions : List (Action V)} (h : nativeActions actions = true) :
    nativeActions (fan actions) = true := by
  unfold fan
  split
  · exact h
  · exact h
  · exact h
  · simpa [nativeActions, Action.isNative] using h

end Native

/-! ## Scopes and flows -/

section Scopes

variable {V : Vocabulary}

/-- The entries that a rollback leaves. -/
def Scope.survivors : Scope → List (Entry V) → List (Entry V)
  | clearAll, _ => []
  | discardFrom depth, entries => entries.dropWhile (depth ≤ ·.depth)

/-- The entries that are left of the rest of a body. -/
def Flow.prune (scope : Scope) : Flow → List (Entry V) → List (Entry V)
  | goesOn, entries => entries
  | returned, entries => scope.survivors entries

theorem Scope.survivors_suffix (scope : Scope) (entries : List (Entry V)) :
    scope.survivors entries <:+ entries := by
  cases scope with
  | clearAll => exact List.nil_suffix
  | discardFrom depth => exact List.dropWhile_suffix _

/-- A second rollback with the same scope finds nothing to do. -/
theorem Scope.survivors_survivors (scope : Scope) (entries : List (Entry V)) :
    scope.survivors (scope.survivors entries) = scope.survivors entries := by
  cases scope with
  | clearAll => rfl
  | discardFrom depth =>
    simp only [survivors]
    induction entries with
    | nil => rfl
    | cons entry rest ih =>
      by_cases deep : depth ≤ entry.depth
      · simpa [deep] using ih
      · simp [deep]

theorem Flow.prune_suffix (scope : Scope) (flow : Flow) (entries : List (Entry V)) :
    flow.prune scope entries <:+ entries := by
  cases flow with
  | goesOn => exact List.suffix_refl _
  | returned => exact scope.survivors_suffix entries

theorem Scope.survivors_prune (scope : Scope) (flow : Flow) (entries : List (Entry V)) :
    scope.survivors (flow.prune scope entries) = scope.survivors entries := by
  cases flow with
  | goesOn => rfl
  | returned => exact scope.survivors_survivors entries

end Scopes

/-! ## Single operations -/

variable {E : Embedding}

namespace Context

theorem rollBack_entries (ctx : Context E) (scope : Scope) :
    (ctx.rollBack scope).pending.entries = scope.survivors ctx.pending.entries := by
  cases scope <;> rfl

end Context

theorem Profiler.enter_unseen {Mark : Type} (profiler : Profiler) (scope : String) :
    (profiler.enter scope : Profiler × List (Event Mark)).2.filter Event.isObservable = [] := by
  cases profiler <;> rfl

theorem Profiler.leave_unseen {Mark : Type} (profiler : Profiler) :
    (profiler.leave : Profiler × List (Event Mark)).2.filter Event.isObservable = [] := by
  match profiler with
  | .off | .recording | .logging [] | .logging (_ :: _) => rfl

/-! ## What is told to a sink or a source -/

namespace Context

/-- What the interpreter knows of a context. -/
def setting (ctx : Context E) : Setting :=
  { forkLimit := ctx.limits.forkLimit, sink? := ctx.sink? }

theorem trace_eq (ctx : Context E) (event : TraceEvent) :
    ctx.trace event = ctx.record (ctx.setting.traced event) := by
  unfold trace Setting.traced setting
  cases ctx.sink? <;> simp

theorem present_eq (ctx : Context E) (source : Source) (error : CommandError) (forked : Bool) :
    ctx.present source error forked = ctx.record (ctx.setting.presented source error forked) := by
  calc
    ctx.present source error forked
        = (ctx.trace (.error error.message)).record [.presented source.name error forked] := rfl
    _ = (ctx.record (ctx.setting.traced (.error error.message))).record
          [.presented source.name error forked] := by rw [trace_eq]
    _ = ctx.record (ctx.setting.presented source error forked) := (ctx.record_append _ _).symm

end Context

/-! ## Sketches -/

/-- Where an action is performed: its frame, what was pending before, and the handle that a frame
will get if the action adds one. -/
structure Site (E : Embedding) where
  limits : Limits
  sink? : Option Sink
  id : FrameId
  frame : Frame
  callee : FrameId
  rest : List (Entry E)

/-- What an action has done so far. -/
structure Sketch (E : Embedding) where
  tape : Tape E.Mark
  /-- Whether it has rolled its frame back. -/
  flow : Flow := .goesOn
  /-- What it has queued: in its own frame or, if it has added one, in that frame. -/
  staged : List (Action E) := []
  /-- The frame it has added. -/
  callee? : Option Frame := none

/-- What the interpreter knows of the context at a site. -/
def Site.setting (site : Site E) : Setting :=
  { forkLimit := site.limits.forkLimit, sink? := site.sink? }

/-- The frame in which an action queues. -/
def Site.target (site : Site E) (sketch : Sketch E) : FrameId × Frame :=
  match sketch.callee? with
  | none => (site.id, site.frame)
  | some frame => (site.callee, frame)

/-- The entries that the queued actions become. -/
def Site.entries (site : Site E) (sketch : Sketch E) : List (Entry E) :=
  sketch.staged.map fun action =>
    { depth := (site.target sketch).2.depth, frame := (site.target sketch).1, action }

/-- Performs a deed on a sketch.  Deeds of which native actions have no need are refused: queueing
in other frames, rolling those back, and whatever belongs to the embedding program. -/
def Site.draw (site : Site E) : (deed : Deed E) → Sketch E → Option (deed.Reply × Sketch E)
  | .record events, s => some ((), { s with tape := s.tape.write events })
  | .openScope _, s | .closeScope, s => some ((), s)
  | .effect (.ask .limits), s => some (site.limits, s)
  | .effect (.ask .depth), s => some (site.frame.depth, s)
  | .effect (.ask (.frame id)), s => if id = site.id then some (some site.frame, s) else none
  | .effect .charge, s => some ((), { s with tape := s.tape.charge })
  | .effect (.trace event), s =>
    some ((), { s with tape := s.tape.write (site.setting.traced event) })
  | .effect (.fire callback result), s =>
    some ((), { s with tape := s.tape.write (callback.fire result) })
  | .effect (.present source error forked), s =>
    some ((), { s with tape := s.tape.write (site.setting.presented source error forked) })
  | .effect (.discard id), s =>
    if id = site.id ∧ s.callee? = none then some ((), { s with flow := .returned }) else none
  | .effect (.enqueue id action), s =>
    if id = site.id ∧ s.callee? = none ∧ action.isNative then
      some ((), { s with staged := s.staged ++ [action] })
    else
      none
  | .effect (.schedule id actions), s =>
    if id = (site.target s).1 ∧ nativeActions actions then
      some ((), { s with staged := s.staged ++ fan actions })
    else
      none
  | .effect (.pushFrame frame), s =>
    if s.callee? = none ∧ s.staged.isEmpty ∧ frame.depth = site.frame.depth + 1 then
      some (site.callee, { s with callee? := some frame })
    else
      none
  | .effect _, _ => none

/-- The sketch shows what the action at the site has done in the context. -/
structure Sketch.Depicts (site : Site E) (running : List FrameId) (sketch : Sketch E)
    (ctx : Context E) : Prop where
  limits : ctx.limits = site.limits
  sink : ctx.sink? = site.sink?
  depth : ctx.depth = site.frame.depth
  intact : ctx.overflowed = false
  accounted : ctx.Accounted (site.id :: running)
  frame : ctx.frame? site.id = some site.frame
  callee : match sketch.callee? with
    | none => site.callee = ⟨ctx.frames.next⟩
    | some frame => ctx.frame? site.callee = some frame
  quota : ctx.quota = sketch.tape.quota
  events : ctx.log.toList.filter Event.isObservable = sketch.tape.events
  staged : ctx.staging.toList = site.entries sketch
  native : nativeActions sketch.staged = true
  deeper : ∀ frame, sketch.callee? = some frame → frame.depth = site.frame.depth + 1
  pending : ctx.pending.entries = sketch.flow.prune site.frame.scope site.rest

namespace Sketch.Depicts

variable {site : Site E} {running : List FrameId} {sketch : Sketch E} {ctx : Context E}

theorem record (h : sketch.Depicts site running ctx) (events : List (Event E.Mark)) :
    { sketch with tape := sketch.tape.write events }.Depicts site running (ctx.record events) :=
  { h with
    accounted := (h.accounted.record events).accounted
    events := by simp [Context.record, Tape.write, h.events] }

/-- Only observable events show in a sketch. -/
theorem profile (h : sketch.Depicts site running ctx) (profiler : Profiler)
    {events : List (Event E.Mark)} (unseen : events.filter Event.isObservable = []) :
    sketch.Depicts site running ({ ctx with profiler }.record events) := by
  have evolves : ctx.Evolves (site.id :: running) ({ ctx with profiler }.record events) :=
    h.accounted.congr rfl rfl rfl rfl rfl
  exact { h with
    accounted := evolves.accounted
    events := by simp [Context.record, unseen, h.events] }

theorem setting (h : sketch.Depicts site running ctx) : ctx.setting = site.setting := by
  rw [Context.setting, Site.setting, h.limits, h.sink]

theorem target (h : sketch.Depicts site running ctx) :
    ctx.frame? (site.target sketch).1 = some (site.target sketch).2 := by
  have callee := h.callee
  unfold Site.target
  cases added : sketch.callee? with
  | none => exact h.frame
  | some frame => simpa [added] using callee

/-- What is queued in the frame that the action queues in is staged, or the queue overflows. -/
theorem enqueue (h : sketch.Depicts site running ctx) {action : Action E}
    (native : action.isNative = true) :
    (ctx.enqueue (site.target sketch).1 action).overflowed = true ∨
      { sketch with staged := sketch.staged ++ [action] }.Depicts site running
        (ctx.enqueue (site.target sketch).1 action) := by
  refine (Context.enqueue_of_live h.accounted h.intact h.target action).imp_right ?_
  rintro ⟨frames, live, next, eq⟩
  have accounted := (h.accounted.enqueue (site.target sketch).1 action).accounted
  have frame? (id : FrameId) : frames.frame? id = ctx.frame? id := FrameTable.frame?_congr live id
  rw [eq] at accounted ⊢
  -- Only the counts of references change in the table, so all handles still lead where they did.
  refine { h with accounted, frame := ?_, callee := ?_, staged := ?_, native := ?_ }
  · exact (frame? _).trans h.frame
  · have callee := h.callee
    cases added : sketch.callee? with
    | none => simpa [added, next] using callee
    | some frame =>
      simp only [added] at callee ⊢
      exact (frame? _).trans callee
  · rw [Array.toList_push, h.staged]
    simp [Site.entries, Site.target]
  · exact nativeActions_append h.native (by simp [nativeActions, native])

theorem schedule (h : sketch.Depicts site running ctx) {actions : List (Action E)}
    (native : nativeActions actions = true) :
    (ctx.schedule (site.target sketch).1 actions).overflowed = true ∨
      { sketch with staged := sketch.staged ++ fan actions }.Depicts site running
        (ctx.schedule (site.target sketch).1 actions) := by
  rw [Context.schedule_eq_foldl]
  replace native := nativeActions_fan native
  generalize fan actions = actions at native
  -- Each action is queued in the same frame, whatever has been staged before it.
  induction actions generalizing sketch ctx with
  | nil => exact .inr (by simpa using h)
  | cons action rest ih =>
    rcases (Bool.and_eq_true _ _).mp native with ⟨first, later⟩
    rcases h.enqueue first with overflowed | staged
    · exact .inl (Context.overflowed_enqueueAll overflowed _ rest)
    · simpa [Site.target] using ih staged later

theorem discard (h : sketch.Depicts site running ctx) (own : sketch.callee? = none) :
    { sketch with flow := .returned }.Depicts site running (ctx.discard site.id) := by
  have evolves := h.accounted.discard site.id
  have scope : ctx.scopeOf site.id = site.frame.scope := by simp [Context.scopeOf, h.frame]
  -- The entry being executed holds its frame, so a rollback does not remove it.
  have frame : (ctx.discard site.id).frame? site.id = some site.frame := by
    have same := h.accounted.frame?_of_running evolves List.mem_cons_self List.mem_cons_self
    exact same.trans h.frame
  have pending : (ctx.discard site.id).pending.entries =
      site.frame.scope.survivors site.rest := by
    calc
      (ctx.discard site.id).pending.entries
          = site.frame.scope.survivors ctx.pending.entries := by
            rw [Context.discard, scope, Context.rollBack_entries]
      _ = site.frame.scope.survivors (sketch.flow.prune site.frame.scope site.rest) := by
            rw [h.pending]
      -- A second rollback of the same frame finds nothing more to discard.
      _ = site.frame.scope.survivors site.rest := Scope.survivors_prune _ _ _
  have callee := h.callee
  simp only [own] at callee
  have accounted := evolves.accounted
  rw [Context.discard, scope] at accounted frame pending ⊢
  cases kind : site.frame.scope with
  | clearAll =>
    rw [kind] at accounted frame pending
    refine { h with accounted, frame, callee := ?_, pending := ?_ }
    · simp [own, callee, Context.rollBack, Context.clearPending, FrameTable.next_releaseAll]
    · rw [pending, Flow.prune, kind]
  | discardFrom depth =>
    rw [kind] at accounted frame pending
    refine { h with accounted, frame, callee := ?_, events := ?_, pending := ?_ }
    · simp [own, callee, Context.rollBack, Context.discardFrom, Context.notify, Context.record,
        FrameTable.next_releaseAll]
    · simp [Context.rollBack, Context.discardFrom, Context.notify, Context.record,
        Event.isObservable, h.events]
    · rw [pending, Flow.prune, kind]

theorem pushFrame (h : sketch.Depicts site running ctx) (own : sketch.callee? = none)
    (unstaged : sketch.staged = []) {frame : Frame} (deeper : frame.depth = site.frame.depth + 1) :
    (ctx.pushFrame frame).1 = site.callee ∧
      { sketch with callee? := some frame }.Depicts site running (ctx.pushFrame frame).2 := by
  have evolves := h.accounted.pushFrame frame
  have callee := h.callee
  simp only [own] at callee
  have same := h.accounted.frame?_of_running evolves List.mem_cons_self List.mem_cons_self
  -- The handle that is given out is the next one of the table, as the site has foreseen.
  refine ⟨callee.symm, ?_⟩
  refine { h with accounted := evolves.accounted, frame := same.trans h.frame, callee := ?_
                  staged := ?_, deeper := ?_ }
  · simp [callee, Context.pushFrame, Context.frame?, FrameTable.insert, FrameTable.frame?,
      FrameTable.slot?, FrameTable.slotOf]
  · have staged := h.staged
    simpa [Site.entries, unstaged, Context.pushFrame] using staged
  · rintro added ⟨⟩
    exact deeper

/-- After a deed that the sketch allows, the queue has overflowed or both still agree. -/
theorem deed (h : sketch.Depicts site running ctx) (deed : Deed E) {reply : deed.Reply}
    {sketch' : Sketch E} (drawn : site.draw deed sketch = some (reply, sketch')) :
    (deed.apply ctx).2.overflowed = true ∨
      (deed.apply ctx).1 = reply ∧ sketch'.Depicts site running (deed.apply ctx).2 := by
  -- Deeds that the sketch refuses contradict `drawn`; each of the others has its lemma above.
  cases deed with
  | record events =>
    cases drawn
    exact .inr ⟨rfl, h.record events⟩
  | openScope scope =>
    cases drawn
    exact .inr ⟨rfl, h.profile _ (ctx.profiler.enter_unseen scope)⟩
  | closeScope =>
    cases drawn
    exact .inr ⟨rfl, h.profile _ ctx.profiler.leave_unseen⟩
  | effect effect =>
    cases effect with
    | ask query =>
      cases query with
      | limits =>
        cases drawn
        exact .inr ⟨h.limits, h⟩
      | depth =>
        cases drawn
        exact .inr ⟨h.depth, h⟩
      | frame id =>
        simp only [Site.draw] at drawn
        split at drawn
        · rename_i own
          cases drawn
          exact .inr ⟨own ▸ h.frame, h⟩
        · cases drawn
      | quota | overflowed | backlog | frameCount | sink | inspection => cases drawn
    | charge =>
      cases drawn
      have evolves : ctx.Evolves (site.id :: running) ctx.charge :=
        h.accounted.congr rfl rfl rfl rfl rfl
      exact .inr ⟨rfl, { h with
        accounted := evolves.accounted
        quota := congrArg Quota.charge h.quota }⟩
    | trace event =>
      cases drawn
      refine .inr ⟨rfl, ?_⟩
      simp only [Deed.apply, Effect.apply, Context.trace_eq, h.setting]
      exact h.record _
    | fire callback result =>
      cases drawn
      exact .inr ⟨rfl, h.record _⟩
    | present source error forked =>
      cases drawn
      refine .inr ⟨rfl, ?_⟩
      simp only [Deed.apply, Effect.apply, Context.present_eq, h.setting]
      exact h.record _
    | discard id =>
      simp only [Site.draw] at drawn
      split at drawn
      · rename_i own
        cases drawn
        exact .inr ⟨rfl, own.1 ▸ h.discard own.2⟩
      · cases drawn
    | enqueue id action =>
      simp only [Site.draw] at drawn
      split at drawn
      · rename_i own
        rcases own with ⟨rfl, callee, native⟩
        cases drawn
        have target : (site.target sketch).1 = site.id := by simp [Site.target, callee]
        rw [← target]
        exact (h.enqueue native).imp_right fun depicts => ⟨rfl, depicts⟩
      · cases drawn
    | schedule id actions =>
      simp only [Site.draw] at drawn
      split at drawn
      · rename_i own
        rcases own with ⟨rfl, native⟩
        cases drawn
        exact (h.schedule native).imp_right fun depicts => ⟨rfl, depicts⟩
      · cases drawn
    | pushFrame frame =>
      simp only [Site.draw] at drawn
      split at drawn
      · rename_i own
        rcases own with ⟨callee, unstaged, deeper⟩
        cases drawn
        exact .inr (h.pushFrame callee (List.isEmpty_iff.mp unstaged) deeper)
      · cases drawn
    | queueCommand | queueCall | discardFrom | install | load | store | mark => cases drawn

/-- What a procedure does to a sketch it does to the context, unless the queue overflows. -/
theorem run {α : Type} {procedure : Procedure E α} {value : α} {sketch' : Sketch E}
    (h : sketch.Depicts site running ctx)
    (drawn : procedure.run? site.draw sketch = some (value, sketch')) :
    (procedure.apply ctx).overflowed = true ∨
      (procedure.run Deed.apply ctx).1 = value ∧
        sketch'.Depicts site running (procedure.apply ctx) := by
  induction procedure generalizing sketch ctx with
  | done value =>
    cases drawn
    exact .inr ⟨rfl, h⟩
  | call op next ih =>
    cases first : site.draw op sketch with
    | none => simp [Script.run?, first] at drawn
    | some drawing =>
      rcases h.deed op first with overflowed | ⟨reply, depicts⟩
      · -- An overflow lasts to the end of the procedure.
        exact .inl (Script.run_preserves Context.overflowed_deed (next _) _ overflowed)
      · -- Context and sketch give the same reply, so the script goes on in the same way.
        have rest : (next (op.apply ctx).1).run? site.draw drawing.2 = some (value, sketch') := by
          rw [reply]
          simpa [Script.run?, first] using drawn
        exact ih _ depicts rest

end Sketch.Depicts

/-! ## Turns -/

/-- Between two turns, with what the interpreter knows, what is pending, and the frames of the entries
around the run. -/
structure Poised (running : List FrameId) (limits : Limits) (sink? : Option Sink)
    (tape : Tape E.Mark) (pending : List (Entry E)) (ctx : Context E) : Prop where
  limits : ctx.limits = limits
  sink : ctx.sink? = sink?
  intact : ctx.overflowed = false
  accounted : ctx.Accounted running
  quota : ctx.quota = tape.quota
  events : ctx.log.toList.filter Event.isObservable = tape.events
  staged : ctx.staging = #[]
  pending : ctx.pending.entries = pending

/-- The site of the first pending entry. -/
def Context.site (ctx : Context E) (frame : Frame) (entry : Entry E) (rest : List (Entry E)) :
    Site E :=
  { limits := ctx.limits
    sink? := ctx.sink?
    id := entry.frame
    frame
    callee := ⟨ctx.frames.next⟩
    rest }

namespace Poised

variable {running : List FrameId} {limits : Limits} {sink? : Option Sink} {tape : Tape E.Mark}
  {entry : Entry E} {rest pending : List (Entry E)} {ctx started : Context E} {frame : Frame}

theorem exists_frame? (h : Poised running limits sink? tape pending ctx) {entry : Entry E}
    (mem : entry ∈ pending) :
    ∃ frame, ctx.frame? entry.frame = some frame ∧ frame.depth = entry.depth := by
  refine h.accounted.balanced.exists_frame? ?_
  rw [Context.waiting, h.pending]
  exact List.mem_append_right _ mem

/-- The first entry starts with an empty sketch. -/
theorem start (h : Poised running limits sink? tape (entry :: rest) ctx)
    (live : ctx.frame? entry.frame = some frame) (popped : ctx.pop? = some (entry, started)) :
    ({ tape } : Sketch E).Depicts (ctx.site frame entry rest) running started := by
  have accounted := (h.accounted.pop popped).accounted
  obtain ⟨pending, entries, rfl⟩ := Context.pop?_eq_some popped
  have rest_eq : pending.entries = rest := by
    rw [h.pending] at entries
    exact (List.cons.inj entries).2.symm
  -- The depth that the entry remembers is the depth of its frame.
  rcases h.exists_frame? List.mem_cons_self with ⟨owner, ownerLive, depth⟩
  have same : owner = frame := Option.some.inj (ownerLive.symm.trans live)
  exact {
    limits := rfl
    sink := rfl
    depth := same ▸ depth.symm
    intact := h.intact
    accounted := accounted
    frame := live
    callee := rfl
    quota := h.quota
    events := h.events
    staged := by simp [h.staged, Site.entries]
    native := rfl
    deeper := by intro frame added; cases added
    pending := rest_eq }

end Poised

/-- When a native action is done, the next turn finds its entries in front of what it has left. -/
theorem Sketch.Depicts.settle {site : Site E} {running : List FrameId} {sketch : Sketch E}
    {ctx : Context E} (h : sketch.Depicts site running ctx) :
    Poised running site.limits site.sink? sketch.tape
      (site.entries sketch ++ sketch.flow.prune site.frame.scope site.rest)
      (ctx.settle site.id).promote ∧
    (sketch.staged ≠ [] →
      (ctx.settle site.id).promote.frame? (site.target sketch).1 = some (site.target sketch).2) := by
  have evolves := h.accounted.settle.trans h.accounted.settle.accounted.promote
  have pending : (ctx.settle site.id).promote.pending.entries =
      site.entries sketch ++ sketch.flow.prune site.frame.scope site.rest := by
    rw [← h.staged, ← h.pending]
    rfl
  refine ⟨⟨h.limits, h.sink, h.intact, evolves.accounted, h.quota, h.events, rfl, pending⟩, ?_⟩
  intro staged
  rcases List.exists_cons_of_ne_nil staged with ⟨action, rest, some⟩
  -- The staged entries wait before and after the turn ends.
  let entry : Entry E := ⟨(site.target sketch).2.depth, (site.target sketch).1, action⟩
  have mem : entry ∈ site.entries sketch := List.mem_map.mpr ⟨action, by simp [some], rfl⟩
  have before : entry ∈ ctx.waiting := List.mem_append_left _ (h.staged ▸ mem)
  have after : entry ∈ (ctx.settle site.id).promote.waiting := by
    rw [Context.waiting, pending]
    exact List.mem_append_right _ (List.mem_append_left _ mem)
  exact (h.accounted.frame?_of_waiting evolves before after).trans h.target

/-- After the turn of a native action the context is poised again. -/
theorem Poised.turn {running : List FrameId} {limits : Limits} {sink? : Option Sink}
    {tape : Tape E.Mark} {entry : Entry E} {rest : List (Entry E)} {ctx started : Context E}
    {frame : Frame} {sketch : Sketch E} {procedure : Procedure E Unit}
    (h : Poised running limits sink? tape (entry :: rest) ctx)
    (live : ctx.frame? entry.frame = some frame) (popped : ctx.pop? = some (entry, started))
    (run : procedure.run? (ctx.site frame entry rest).draw { tape } = some ((), sketch)) :
    (procedure.apply started).overflowed = true ∨
      Poised running limits sink? sketch.tape
        ((ctx.site frame entry rest).entries sketch ++ sketch.flow.prune frame.scope rest)
        ((procedure.apply started).settle entry.frame).promote ∧
      (sketch.staged ≠ [] →
        ((procedure.apply started).settle entry.frame).promote.frame?
          ((ctx.site frame entry rest).target sketch).1 =
            some ((ctx.site frame entry rest).target sketch).2) := by
  refine ((h.start live popped).run run).imp_right ?_
  rintro ⟨-, depicts⟩
  rcases depicts.settle with ⟨poised, target⟩
  refine ⟨?_, target⟩
  rw [← h.limits, ← h.sink]
  exact poised

end CommandScheduler
