import CommandScheduler.Proofs.Steps

/-!
# Layers — the order of the pending entries

A rollback only looks at the front of the queue.  That is enough for native programs: their pending
entries lie in layers, the deepest first, and each layer below the top one is the rest of a single
body.  So the entries at some depth or deeper are exactly a piece at the front.

Programs of an embedding may queue entries at any depth, and for these the order can be lost.
-/

namespace CommandScheduler

/-! ## Layers -/

section Layers

variable {V : Vocabulary}

/-- The first entry may stand in front of the second one. -/
def Entry.Above (first second : Entry V) : Prop :=
  second.depth ≤ first.depth ∧
    (first.depth = second.depth → 1 ≤ first.depth → first.frame = second.frame)

/-- The depths of the entries do not increase from front to back, and entries of one depth, if it is
not zero, belong to one frame. -/
def Layered (entries : List (Entry V)) : Prop :=
  entries.Pairwise Entry.Above

/-- Dropping entries from the front of layers is the same as looking at all of them. -/
theorem Layered.dropWhile_eq_filter {entries : List (Entry V)} (h : Layered entries) (depth : Nat) :
    entries.dropWhile (depth ≤ ·.depth) = entries.filter (·.depth < depth) := by
  induction entries with
  | nil => rfl
  | cons entry rest ih =>
    rcases List.pairwise_cons.mp h with ⟨above, layered⟩
    by_cases deep : depth ≤ entry.depth
    · have gone : ¬ entry.depth < depth := Nat.not_lt.mpr deep
      simpa [deep, gone] using ih layered
    · -- The first entry stays, and so do all others, for they are not deeper.
      have shallow (other : Entry V) (mem : other ∈ entry :: rest) : other.depth < depth := by
        rcases List.mem_cons.mp mem with rfl | mem
        · exact Nat.not_le.mp deep
        · exact Nat.lt_of_le_of_lt (above other mem).1 (Nat.not_le.mp deep)
      have all : (entry :: rest).filter (·.depth < depth) = entry :: rest :=
        List.filter_eq_self.mpr fun other mem => decide_eq_true (shallow other mem)
      rw [all]
      simp [deep]

end Layers

variable {E : Embedding}

/-! ## Rollbacks only shorten the queue -/

/-- Within a step, the pending entries are always a piece at the end of what they were. -/
theorem Context.pending_deed_suffix (deed : Deed E) (ctx : Context E) :
    (deed.apply ctx).2.pending.entries <:+ ctx.pending.entries := by
  -- New entries are staged, so only rollbacks and overflows change what is pending.
  cases deed with
  | record | openScope | closeScope => exact List.suffix_refl _
  | effect effect =>
    cases effect with
    | enqueue frame action => exact ctx.pending_enqueue_suffix frame action
    | schedule frame actions =>
      simp only [Deed.apply, Effect.apply]
      rw [schedule_eq_foldl]
      refine List.foldlRecOn
        (motive := fun after : Context E => after.pending.entries <:+ ctx.pending.entries)
        (fan actions) _ (List.suffix_refl _) ?_
      intro after suffix action _
      exact (after.pending_enqueue_suffix frame action).trans suffix
    | queueCommand chain source callback => exact Context.pending_enqueue_suffix _ _ _
    | queueCall function source callback => exact Context.pending_enqueue_suffix _ _ _
    | discard frame =>
      simp only [Deed.apply, Effect.apply, Context.discard, Context.rollBack_entries]
      exact Scope.survivors_suffix _ _
    | discardFrom depth => exact List.dropWhile_suffix _
    | trace event =>
      rcases ctx.exists_trace_eq event with ⟨events, eq⟩
      simp only [Deed.apply, Effect.apply, eq]
      exact List.suffix_refl _
    | present source error forked =>
      rcases ctx.exists_trace_eq (.error error.message) with ⟨events, eq⟩
      simp only [Deed.apply, Effect.apply, Context.present, eq]
      exact List.suffix_refl _
    | ask | pushFrame | charge | install | fire | load | store | mark => exact List.suffix_refl _

theorem Script.Calls.pending_suffix {α : Type} {procedure : Procedure E α}
    {ctx moment : Context E} {deed : Deed E} (calls : procedure.Calls Deed.apply ctx deed moment) :
    moment.pending.entries <:+ ctx.pending.entries :=
  calls.preserves (P := fun after => after.pending.entries <:+ ctx.pending.entries)
    (fun deed after suffix => (Context.pending_deed_suffix deed after).trans suffix)
    (List.suffix_refl _)

/-! ## Turns keep the order -/

/-- Between two turns: all pending work is native and lies in layers. -/
structure Orderly (ctx : Context E) : Prop where
  intact : ctx.overflowed = false
  accounted : ctx.Accounted []
  staged : ctx.staging = #[]
  native : ∀ entry ∈ ctx.pending.entries, entry.action.isNative = true
  layered : Layered ctx.pending.entries

theorem Orderly.poised {ctx : Context E} (h : Orderly ctx) :
    Poised [] ctx.limits ctx.sink? ⟨ctx.quota, ctx.log.toList.filter Event.isObservable⟩
      ctx.pending.entries ctx :=
  ⟨rfl, rfl, h.intact, h.accounted, rfl, rfl, h.staged, rfl⟩

theorem Orderly.native_of_pop {ctx started : Context E} (h : Orderly ctx) {entry : Entry E}
    (popped : ctx.pop? = some (entry, started)) : entry.action.isNative = true := by
  have native := h.native
  rw [Context.pending_of_pop popped] at native
  exact native entry List.mem_cons_self

/-- A native action keeps the order: what it queues belongs to its own frame, like the layer it was
taken from, or to a new frame one level below. -/
theorem Orderly.turn {host : Host E} {ctx next : Context E} {start : Start E} (h : Orderly ctx)
    (turn : Turn host ctx start next) : Orderly next := by
  obtain ⟨cons, frame, procedure, sketch, step⟩ :=
    h.poised.exists_sketch turn (h.native_of_pop turn.popped)
  let rest := start.context.pending.entries
  have layered := h.layered
  rw [cons] at layered
  rcases List.pairwise_cons.mp layered with ⟨above, layered⟩
  have suffix : sketch.flow.prune frame.scope rest <:+ rest := Flow.prune_suffix _ _ _
  refine ⟨step.settled.intact, step.settled.accounted, step.settled.staged, ?_, ?_⟩
  · intro other mem
    rw [step.settled.pending] at mem
    rcases List.mem_append.mp mem with mem | mem
    · rcases List.mem_map.mp mem with ⟨action, staged, rfl⟩
      exact nativeActions_eq_true_iff.mp step.depicts.native action staged
    · refine h.native other ?_
      rw [cons]
      exact List.mem_cons_of_mem _ (suffix.subset mem)
  · -- The next turn finds the new entries in front of what the rollback has left.
    rw [step.settled.pending]
    refine List.pairwise_append.mpr ⟨?_, layered.sublist suffix.sublist, ?_⟩
    · -- All queued entries belong to one frame.
      refine List.pairwise_map.mpr (List.pairwise_iff_forall_sublist.mpr ?_)
      intro first second _
      exact ⟨Nat.le_refl _, fun _ _ => rfl⟩
    · -- A new entry stands where the executed one stood, or one level below it.
      intro first mem second mem'
      rcases List.mem_map.mp mem with ⟨action, -, rfl⟩
      rcases above second (suffix.subset mem') with ⟨le, same⟩
      cases added : sketch.callee? with
      | none =>
        have target : (start.site ctx frame).target sketch = (start.entry.frame, frame) := by
          simp [Site.target, added, Start.site, Context.site]
        simp only [target, Entry.Above, step.depth]
        exact ⟨le, same⟩
      | some callee =>
        have target : ((start.site ctx frame).target sketch).2 = callee := by
          simp [Site.target, added]
        have deeper : callee.depth = frame.depth + 1 := step.depicts.deeper callee added
        have depth := step.depth
        simp only [target, Entry.Above]
        exact ⟨by omega, fun eq => by omega⟩

theorem Orderly.turns {host : Host E} {ctx next : Context E} {starts : List (Start E)}
    (h : Orderly ctx) (turns : Turns host ctx starts next) : Orderly next := by
  induction turns with
  | refl => exact h
  | head turn _ ih => exact ih (h.turn turn)

/-! ## Root invocations of native programs -/

/-- What can be asked of a context before it runs. -/
inductive Request (V : Vocabulary) where
  | command (chain : Chain V) (source : Source) (callback : Callback)
  | call (function : Function V) (source : Source) (callback : Callback)

namespace Request

def isNative {V : Vocabulary} : Request V → Bool
  | command chain .. => chain.isNative
  | call function .. => function.isNative

/-- Queues what is asked for. -/
def queue (ctx : Context E) : Request E → Context E
  | command chain source callback => ctx.queueCommand chain source callback
  | call function source callback => ctx.queueCall function source callback

end Request

/-- A new context from which a list of things has been asked. -/
def Context.asked (limits : Limits) (memory : E.Memory) (profiler : Profiler) (sink? : Option Sink)
    (requests : List (Request E)) : Context E :=
  requests.foldl Request.queue ((Context.create limits memory profiler).install sink?)

/-- Before the first turn: all staged work is native and at depth zero. -/
structure Asked (ctx : Context E) : Prop where
  accounted : ctx.Accounted []
  depth : ctx.depth = 0
  pending : ctx.pending.entries = []
  staged : ∀ entry ∈ ctx.staging.toList, entry.depth = 0 ∧ entry.action.isNative = true

theorem Asked.of_overflowed {ctx : Context E} (accounted : ctx.Accounted []) (depth : ctx.depth = 0)
    (overflowed : ctx.overflowed = true) : Asked ctx := by
  rcases List.append_eq_nil_iff.mp (accounted.cleared overflowed) with ⟨staged, pending⟩
  refine ⟨accounted, depth, pending, ?_⟩
  rw [staged]
  intro entry mem
  cases mem

/-- Queueing a native action in a new frame of depth zero. -/
theorem Asked.enqueue {ctx : Context E} (h : Asked ctx) (frame : Frame) (top : frame.depth = 0)
    {action : Action E} (native : action.isNative = true) :
    Asked ((ctx.pushFrame frame).2.enqueue (ctx.pushFrame frame).1 action) := by
  have pushed := (h.accounted.pushFrame frame).accounted
  have accounted := (pushed.enqueue (ctx.pushFrame frame).1 action).accounted
  have depth : ((ctx.pushFrame frame).2.enqueue (ctx.pushFrame frame).1 action).depth = 0 := by
    rw [Context.depth_enqueue]
    exact h.depth
  have live : (ctx.pushFrame frame).2.frame? (ctx.pushFrame frame).1 = some frame := by
    simp [Context.pushFrame, Context.frame?, FrameTable.insert, FrameTable.frame?,
      FrameTable.slot?, FrameTable.slotOf]
  by_cases overflowed :
      ((ctx.pushFrame frame).2.enqueue (ctx.pushFrame frame).1 action).overflowed = true
  · exact .of_overflowed accounted depth overflowed
  · have intact : (ctx.pushFrame frame).2.overflowed = false := by
      refine Decidable.byContradiction fun set => overflowed ?_
      exact Context.overflowed_enqueue (by simpa using set) _ action
    rcases (Context.enqueue_of_live pushed intact live action).resolve_left overflowed with
      ⟨frames, -, -, eq⟩
    refine ⟨accounted, depth, ?_, ?_⟩
    · rw [eq]
      exact h.pending
    · rw [eq]
      simp only [Array.toList_push]
      intro entry mem
      rcases List.mem_append.mp mem with mem | mem
      · exact h.staged entry mem
      · rw [List.mem_singleton.mp mem]
        exact ⟨top, native⟩

theorem Asked.queue {ctx : Context E} (h : Asked ctx) {request : Request E}
    (native : request.isNative = true) : Asked (request.queue ctx) := by
  have top (callback : Callback) :
      ctx.pushTopFrame callback = ctx.pushFrame { depth := 0, callback, scope := .clearAll } := by
    simp [Context.pushTopFrame, h.depth]
  cases request with
  | command chain source callback =>
    have native : (Action.topLevel chain source : Action E).isNative = true := native
    simpa [Request.queue, Context.queueCommand, top] using h.enqueue _ rfl native
  | call function source callback =>
    have native : (Action.call function (source.callback.chain callback) false source :
      Action E).isNative = true := native
    simpa [Request.queue, Context.queueCall, top] using h.enqueue _ rfl native

theorem Asked.of_requests (limits : Limits) (memory : E.Memory) (profiler : Profiler) (sink? : Option Sink)
    (requests : List (Request E)) (native : ∀ request ∈ requests, request.isNative = true) :
    Asked (.asked limits memory profiler sink? requests) := by
  have new : Asked ((Context.create limits memory profiler : Context E).install sink?) := by
    have created := Context.Accounted.create (E := E) limits memory profiler
    refine ⟨(created.install sink?).accounted, rfl, rfl, ?_⟩
    intro entry mem
    cases mem
  exact List.foldlRecOn (motive := Asked) requests Request.queue new
    fun _ h request mem => h.queue (native request mem)

theorem Asked.orderly {ctx : Context E} (h : Asked ctx) (intact : ctx.overflowed = false) :
    Orderly ctx.promote := by
  have pending : ctx.promote.pending.entries = ctx.staging.toList := by
    simp [Context.promote, Backlog.prepend, h.pending]
  refine ⟨intact, h.accounted.promote.accounted, rfl, ?_, ?_⟩
  · rw [pending]
    exact fun entry mem => (h.staged entry mem).2
  · rw [pending]
    refine List.pairwise_iff_forall_sublist.mpr ?_
    intro first second sublist
    have front := (h.staged first (sublist.subset List.mem_cons_self)).1
    have back := (h.staged second (sublist.subset (by simp))).1
    exact ⟨by omega, fun _ _ => by omega⟩

/-- A single request always fits into the queue. -/
theorem Orderly.of_request (limits : Limits) (memory : E.Memory) (profiler : Profiler)
    (sink? : Option Sink) {request : Request E} (native : request.isNative = true) :
    Orderly (Context.asked limits memory profiler sink? [request]).promote := by
  refine (Asked.of_requests limits memory profiler sink? [request]
    (List.forall_mem_singleton.mpr native)).orderly ?_
  cases request <;> rfl

/-- At every pop of a run of native programs the pending entries lie in layers, at or above the
entry that is taken, and so they do at every moment of its execution.  A rollback from some depth
on, which looks at the front only, therefore discards exactly the entries at that depth or deeper.
-/
theorem pending_layered {host : Host E} {limits : Limits} {memory : E.Memory} {profiler : Profiler}
    {sink? : Option Sink} {requests : List (Request E)}
    (native : ∀ request ∈ requests, request.isNative = true) {starts : List (Start E)}
    {ctx started : Context E} {entry : Entry E}
    (turns : Turns host (Context.asked limits memory profiler sink? requests).promote starts ctx)
    (popped : ctx.pop? = some (entry, started)) :
    Layered ctx.pending.entries ∧
    ∃ procedure, entry.action.work host entry.frame = .own procedure ∧
      ∀ deed moment, procedure.Calls Deed.apply started deed moment →
        Layered moment.pending.entries ∧
        (∀ other ∈ moment.pending.entries, entry.Above other) ∧
        ∀ depth, (moment.discardFrom depth).pending.entries =
          moment.pending.entries.filter (·.depth < depth) := by
  have asked := Asked.of_requests limits memory profiler sink? requests native
  have orderly : Orderly ctx := by
    cases overflowed : (Context.asked limits memory profiler sink? requests).overflowed with
    | false => exact (asked.orderly overflowed).turns turns
    | true =>
      -- The queue has been cleared, so there is no first turn.
      have empty := (Context.pop?_eq_none_iff _).mpr
        (List.append_eq_nil_iff.mp (asked.accounted.promote.accounted.cleared overflowed)).2
      cases turns with
      | refl => simp [popped] at empty
      | head turn _ => simp [turn.popped] at empty
  obtain ⟨pending, cons, rfl⟩ := Context.pop?_eq_some popped
  have layered := orderly.layered
  rw [cons] at layered ⊢
  rcases List.pairwise_cons.mp layered with ⟨above, rest⟩
  have mem : entry ∈ ctx.pending.entries := cons ▸ List.mem_cons_self
  rcases orderly.poised.exists_frame? mem with ⟨frame, -, -⟩
  obtain ⟨procedure, -, own, -⟩ := (ctx.site frame entry pending.entries).exists_run? host
    entry.action (orderly.native entry mem) ⟨ctx.quota, []⟩
  refine ⟨layered, procedure, own, ?_⟩
  intro deed moment calls
  -- Within the step entries are only taken away from the front.
  have suffix : moment.pending.entries <:+ pending.entries := calls.pending_suffix
  have momentLayered : Layered moment.pending.entries := rest.sublist suffix.sublist
  exact ⟨momentLayered, fun other mem => above other (suffix.subset mem),
    fun depth => momentLayered.dropWhile_eq_filter depth⟩

namespace TwoCalls

def give : Chain Embedding.bare := .ofStages "return 1" [] (.returnValue 1)

/-- A function of two lines, which both return. -/
def twice : Function Embedding.bare := .ofChains "twice" [give, give]

def first : Entry Embedding.bare :=
  ⟨0, ⟨0⟩, .call twice .empty false { name := "alex" }⟩

def second : Entry Embedding.bare :=
  ⟨0, ⟨1⟩, .call ⟨"never", []⟩ .empty false { name := "sam" }⟩

/-- A line of the function, in the frame of its body. -/
def line : Entry Embedding.bare :=
  ⟨1, ⟨2⟩, .line (.chain give) { name := "alex" }⟩

/-- The function is called in front of one that does nothing. -/
def requests : List (Request Embedding.bare) :=
  [.call twice { name := "alex" } .empty, .call ⟨"never", []⟩ { name := "sam" } .empty]

/-- The frame of a call that was asked for. -/
def top : FrameSlot :=
  { frame := { depth := 0, scope := .clearAll }, references := 1 }

/-- Both calls are pending. -/
def asked : Context .bare :=
  { limits := {}, quota := ⟨65536⟩, memory := (), pending := { entries := [first, second] }
    frames := { next := 2, slots := [(⟨1⟩, top), (⟨0⟩, top)], fresh := [⟨1⟩, ⟨0⟩] } }

def started : Context .bare :=
  { asked with pending := { entries := [second] } }

/-- The first call has been made, and its lines are pending in front of the second one. -/
def called : Context .bare :=
  { limits := {}, quota := ⟨65535⟩, memory := (), pending := { entries := [line, line, second] }
    frames :=
      { next := 3
        slots := [(⟨2⟩, { frame := { depth := 1, scope := .discardFrom 1 }, references := 2 }),
          (⟨1⟩, top)] }
    log := #[.notice (.called "twice" 0 2)] }

def working : Context .bare :=
  { called with pending := { entries := [line, second] }, depth := 1 }

theorem promote_asked : (Context.asked {} () .off none requests).promote = asked :=
  rfl

theorem turn_call : Turn .bare asked ⟨first, started⟩ called :=
  ⟨by decide +kernel, rfl, 1, _, rfl, by decide +kernel, by cbv⟩

theorem pop?_called : called.pop? = some (line, working) :=
  rfl

end TwoCalls

/-- The body of the first call is pending in front of the second call.  Its first line returns, and
the rollback takes the other line and nothing else. -/
theorem pending_layered_of_two_requests :
    ∃ procedure : Procedure .bare Unit,
      Turns .bare (Context.asked {} () .off none TwoCalls.requests).promote
        [⟨TwoCalls.first, TwoCalls.started⟩] TwoCalls.called ∧
      TwoCalls.called.pop? = some (TwoCalls.line, TwoCalls.working) ∧
      TwoCalls.called.pending.entries.map Entry.depth = [1, 1, 0] ∧
      Layered TwoCalls.called.pending.entries ∧
      TwoCalls.line.action.work .bare TwoCalls.line.frame = .own procedure ∧
      procedure.Calls Deed.apply TwoCalls.working (.effect (.discard TwoCalls.line.frame))
        TwoCalls.working ∧
      (TwoCalls.working.discardFrom 1).pending.entries =
        TwoCalls.working.pending.entries.filter (·.depth < 1) ∧
      (TwoCalls.working.discardFrom 1).pending.entries = [TwoCalls.second] := by
  have native : ∀ request ∈ TwoCalls.requests, request.isNative = true := by
    intro request mem
    rcases List.mem_cons.mp mem with rfl | mem
    · rfl
    · rw [List.mem_singleton.mp mem]
      rfl
  have turns : Turns .bare (Context.asked {} () .off none TwoCalls.requests).promote
      [⟨TwoCalls.first, TwoCalls.started⟩] TwoCalls.called := by
    rw [TwoCalls.promote_asked]
    exact .single TwoCalls.turn_call
  obtain ⟨layered, procedure, own, moments⟩ := pending_layered native turns TwoCalls.pop?_called
  cases own
  -- The depth is asked for and traced; then the source and the frame are told of the value.
  have calls :
      (Procedure.start .bare TwoCalls.give { name := "alex" } TwoCalls.line.frame).Calls Deed.apply
        TwoCalls.working (.effect (.discard TwoCalls.line.frame)) TwoCalls.working :=
    .later (.later (.later (.later (.later (.here _ _ _)))))
  obtain ⟨-, -, filtered⟩ := moments _ _ calls
  exact ⟨_, turns, TwoCalls.pop?_called, rfl, layered, rfl, calls, filtered 1, rfl⟩

end CommandScheduler
