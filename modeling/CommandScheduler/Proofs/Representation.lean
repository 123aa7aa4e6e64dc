import Mathlib.Data.List.Forall2
import CommandScheduler.Proofs.Checked
import CommandScheduler.Proofs.Course
import CommandScheduler.Proofs.Queueing

/-!
# Representation — jobs in the place of actions

A job represents an action if its track is that of the action's chain, and a fan-out if the
arguments from its index on represent the actions that are left.  A context represents another one if
their queues do so entry by entry and all else is the same in both.  Every operation keeps this.
-/

namespace CommandScheduler

variable {E : Embedding}

/-! ## Agreement -/

/-- A checked computation ends as another one does: with a related value, or for want of fuel. -/
inductive Checked.Agrees {α β : Type} (R : α → β → Prop) : Checked α → Option β → Prop where
  | value {a : α} {b : β} : R a b → Agrees R (.ok a) (some b)
  | outOfFuel : Agrees R (.error .outOfFuel) none

namespace Checked.Agrees

variable {α β γ δ : Type} {R : α → β → Prop} {S : γ → δ → Prop} {x : Checked α} {y : Option β}

theorem map {f : α → γ} {g : β → δ} (h : Agrees R x y) (next : ∀ a b, R a b → S (f a) (g b)) :
    Agrees S (do return f (← x)) (y.map g) := by
  cases h with
  | value related => exact .value (next _ _ related)
  | outOfFuel => exact .outOfFuel

theorem andThen {b : β} {f : α → Checked γ} {z : Option δ} (h : Agrees R x (some b))
    (next : ∀ a, R a b → Agrees S (f a) z) : Agrees S (x >>= f) z := by
  cases h with
  | value related => exact next _ related

theorem exists_value {b : β} (h : Agrees R x (some b)) : ∃ a, x = .ok a ∧ R a b := by
  cases h with
  | value related => exact ⟨_, rfl, related⟩

theorem no_fault (h : Agrees R x y) (fault : Fault) : x ≠ .error (.fault fault) := by
  cases h <;> simp

end Checked.Agrees

/-! ## Jobs for actions -/

/-- The job does what the action does. -/
inductive Job.Represents {V : Vocabulary} : Job V → Action V → Prop where
  | topLevel (chain : Chain V) (source : Source) :
      Represents (.topLevel chain.track source) (.topLevel chain source)
  | continuation (chain : Chain V) (origin : Source) (sources : List Source) (flags : Flags) :
      Represents (.continuation chain.track origin sources flags)
        (.continuation chain origin sources flags)
  | fallthrough : Represents .fallthrough .fallthrough
  /-- What a fan-out has brought in already makes no difference. -/
  | fanOut {arguments : Array (Job V)} {index : Nat} {first : Action V} {rest : List (Action V)} :
      List.Forall₂ Represents (arguments.toList.drop index) (first :: rest) →
        Represents (.fanOut arguments index) (.fanOut first rest)
  | task (code : V.Task) : Represents (.task code) (.task code)
  | line (chain : Chain V) (source : Source) :
      Represents (.line chain.track source) (.line (.chain chain) source)
  | customLine (code : V.Line) (source : Source) :
      Represents (.customLine code source) (.line (.custom code) source)
  | execute (chain : Chain V) (flags : Flags) (source : Source) :
      Represents (.execute chain.track flags source false) (.execute chain flags source)
  | resolved {chain : Chain V} (flags : Flags) (source : Source) :
      chain.isTerminal = true → chain.terminal.isCommand = true →
        Represents (.execute chain.track flags source true) (.execute chain flags source)
  | call (function : Function V) (callback : Callback) (returnParent : Bool) (source : Source) :
      Represents (.call function callback returnParent source)
        (.call function callback returnParent source)

namespace Job

variable {V : Vocabulary}

theorem represents_ofLine (line : Line V) (source : Source) :
    (ofLine line source).Represents (.line line source) := by
  cases line with
  | chain chain => exact .line chain source
  | custom code => exact .customLine code source

mutual

theorem represents_of : ∀ action : Action V, (of action).Represents action
  | .topLevel chain source => .topLevel chain source
  | .continuation chain origin sources flags => .continuation chain origin sources flags
  | .fallthrough => .fallthrough
  | .fanOut first rest => .fanOut (.cons (represents_of first) (represents_ofAll rest))
  | .task code => .task code
  | .line body source => represents_ofLine body source
  | .execute chain flags source => .execute chain flags source
  | .call function callback returnParent source => .call function callback returnParent source

theorem represents_ofAll :
    ∀ actions : List (Action V), List.Forall₂ Represents (ofAll actions) actions
  | [] => .nil
  | action :: rest => .cons (represents_of action) (represents_ofAll rest)

end

end Job

/-! ## Contexts with jobs -/

/-- The entry holds a job for the action of the other one. -/
structure Entry.Represents (entry' : Entry E.tracked) (entry : Entry E) : Prop where
  depth : entry'.depth = entry.depth
  frame : entry'.frame = entry.frame
  action : ∃ job, entry'.action = .task job ∧ job.Represents entry.action

theorem Entry.map_frame {entries' : List (Entry E.tracked)} {entries : List (Entry E)}
    (h : List.Forall₂ Entry.Represents entries' entries) :
    entries'.map Entry.frame = entries.map Entry.frame := by
  induction h with
  | nil => rfl
  | cons first _ ih => rw [List.map_cons, List.map_cons, first.frame, ih]

/-- A rollback finds the same entries at the front. -/
theorem Entry.discarded {entries' : List (Entry E.tracked)} {entries : List (Entry E)}
    (h : List.Forall₂ Entry.Represents entries' entries) (depth : Nat) :
    List.Forall₂ Entry.Represents (entries'.takeWhile (depth ≤ ·.depth))
        (entries.takeWhile (depth ≤ ·.depth)) ∧
      List.Forall₂ Entry.Represents (entries'.dropWhile (depth ≤ ·.depth))
        (entries.dropWhile (depth ≤ ·.depth)) := by
  induction h with
  | nil => exact ⟨.nil, .nil⟩
  | cons first rest ih =>
    simp only [List.takeWhile_cons, List.dropWhile_cons, first.depth]
    split
    · exact ⟨.cons first ih.1, ih.2⟩
    · exact ⟨.nil, .cons first rest⟩

namespace Context

/-- The context with jobs in its queue. -/
def holding (ctx : Context E) (pending : Backlog E.tracked) (staging : Array (Entry E.tracked)) :
    Context E.tracked :=
  { limits := ctx.limits, quota := ctx.quota, overflowed := ctx.overflowed, pending, staging
    depth := ctx.depth, frames := ctx.frames, sink? := ctx.sink?, profiler := ctx.profiler
    memory := ctx.memory, log := ctx.log }

/-- Both contexts are the same but for what they queue, jobs in the one and their actions in the
other. -/
inductive Represents : Context E.tracked → Context E → Prop where
  | mk (ctx : Context E) (pending : Backlog E.tracked) (staging : Array (Entry E.tracked)) :
      List.Forall₂ Entry.Represents pending.entries ctx.pending.entries →
      List.Forall₂ Entry.Represents staging.toList ctx.staging.toList →
        Represents (ctx.holding pending staging) ctx

theorem represents_create (limits : Limits) (memory : E.Memory) (profiler : Profiler) :
    Represents (.create limits memory profiler) (.create (E := E) limits memory profiler) :=
  .mk (.create limits memory profiler) .empty #[] .nil .nil

namespace Represents

variable {ctx' : Context E.tracked} {ctx : Context E}

/-! ### What is the same in both -/

theorem limits (h : ctx'.Represents ctx) : ctx'.limits = ctx.limits := by
  cases h
  rfl

theorem quota (h : ctx'.Represents ctx) : ctx'.quota = ctx.quota := by
  cases h
  rfl

theorem overflowed (h : ctx'.Represents ctx) : ctx'.overflowed = ctx.overflowed := by
  cases h
  rfl

theorem memory (h : ctx'.Represents ctx) : ctx'.memory = ctx.memory := by
  cases h
  rfl

theorem frameDepth (h : ctx'.Represents ctx) (id : FrameId) :
    ctx'.frameDepth id = ctx.frameDepth id := by
  cases h
  rfl

theorem frameCallback (h : ctx'.Represents ctx) (id : FrameId) :
    ctx'.frameCallback id = ctx.frameCallback id := by
  cases h
  rfl

theorem scopeOf (h : ctx'.Represents ctx) (id : FrameId) : ctx'.scopeOf id = ctx.scopeOf id := by
  cases h
  rfl

theorem size_pending (h : ctx'.Represents ctx) : ctx'.pending.size = ctx.pending.size := by
  cases h with
  | mk ctx pending staging waiting staged =>
    rw [ctx.pending.size_eq, ← waiting.length_eq]
    exact pending.size_eq

theorem size_staging (h : ctx'.Represents ctx) : ctx'.staging.size = ctx.staging.size := by
  cases h with
  | mk ctx pending staging waiting staged => exact staged.length_eq

theorem answer (h : ctx'.Represents ctx) (query : Query) :
    ctx'.answer query = ctx.answer query := by
  cases query with
  | backlog => exact Prod.ext h.size_pending h.size_staging
  | inspection =>
    simp only [Context.answer, inspect, h.size_pending, h.size_staging]
    cases h
    rfl
  | limits | quota | overflowed | depth | frameCount | frame | sink =>
    cases h
    rfl

/-! ### Operations that leave the queue alone -/

theorem record (h : ctx'.Represents ctx) (events : List (Event E.Mark)) :
    (ctx'.record events).Represents (ctx.record events) := by
  cases h with
  | mk ctx pending staging waiting staged =>
    exact .mk (ctx.record events) pending staging waiting staged

theorem notify (h : ctx'.Represents ctx) (notice : Notice) :
    (ctx'.notify notice).Represents (ctx.notify notice) :=
  h.record _

theorem trace (h : ctx'.Represents ctx) (event : TraceEvent) :
    (ctx'.trace event).Represents (ctx.trace event) := by
  have sink : ctx'.sink? = ctx.sink? := by
    cases h
    rfl
  unfold Context.trace
  rw [sink]
  cases ctx.sink? with
  | none => exact h
  | some sink => exact h.record _

theorem present (h : ctx'.Represents ctx) (source : Source) (error : CommandError)
    (forked : Bool) :
    (ctx'.present source error forked).Represents (ctx.present source error forked) :=
  (h.trace _).record _

theorem profile (h : ctx'.Represents ctx) (profiler : Profiler) :
    Represents { ctx' with profiler } { ctx with profiler } := by
  cases h with
  | mk ctx pending staging waiting staged =>
    exact .mk { ctx with profiler } pending staging waiting staged

theorem openScope (h : ctx'.Represents ctx) (scope : String) :
    (ctx'.openScope scope).Represents (ctx.openScope scope) := by
  have profiler : ctx'.profiler = ctx.profiler := by
    cases h
    rfl
  simp only [Context.openScope, profiler]
  exact (h.profile _).record _

theorem closeScope (h : ctx'.Represents ctx) : ctx'.closeScope.Represents ctx.closeScope := by
  have profiler : ctx'.profiler = ctx.profiler := by
    cases h
    rfl
  simp only [Context.closeScope, profiler]
  exact (h.profile _).record _

theorem charge (h : ctx'.Represents ctx) : ctx'.charge.Represents ctx.charge := by
  cases h with
  | mk ctx pending staging waiting staged => exact .mk ctx.charge pending staging waiting staged

theorem install (h : ctx'.Represents ctx) (sink? : Option Sink) :
    (ctx'.install sink?).Represents (ctx.install sink?) := by
  cases h with
  | mk ctx pending staging waiting staged =>
    exact .mk (ctx.install sink?) pending staging waiting staged

theorem store (h : ctx'.Represents ctx) (memory : E.Memory) :
    Represents { ctx' with memory } { ctx with memory } := by
  cases h with
  | mk ctx pending staging waiting staged =>
    exact .mk { ctx with memory } pending staging waiting staged

theorem pushFrame (h : ctx'.Represents ctx) (frame : Frame) :
    (ctx'.pushFrame frame).1 = (ctx.pushFrame frame).1 ∧
      (ctx'.pushFrame frame).2.Represents (ctx.pushFrame frame).2 := by
  cases h with
  | mk ctx pending staging waiting staged =>
    exact ⟨rfl, .mk (ctx.pushFrame frame).2 pending staging waiting staged⟩

theorem pushTopFrame (h : ctx'.Represents ctx) (callback : Callback) :
    (ctx'.pushTopFrame callback).1 = (ctx.pushTopFrame callback).1 ∧
      (ctx'.pushTopFrame callback).2.Represents (ctx.pushTopFrame callback).2 := by
  have depth : ctx'.depth = ctx.depth := by
    cases h
    rfl
  simp only [Context.pushTopFrame, depth]
  exact h.pushFrame _

theorem settle (h : ctx'.Represents ctx) (id : FrameId) :
    (ctx'.settle id).Represents (ctx.settle id) := by
  cases h with
  | mk ctx pending staging waiting staged =>
    exact .mk (ctx.settle id) pending staging waiting staged

theorem finish (h : ctx'.Represents ctx) (outcome : Outcome) :
    (ctx'.finish outcome).2.Represents (ctx.finish outcome).2 := by
  cases h with
  | mk ctx pending staging waiting staged =>
    exact .mk (ctx.finish outcome).2 pending staging waiting staged

/-! ### Operations on the queue -/

theorem overflow (h : ctx'.Represents ctx) : ctx'.overflow.Represents ctx.overflow := by
  cases h with
  | mk ctx pending staging waiting staged =>
    have eq : (ctx.holding pending staging).overflow = ctx.overflow.holding .empty #[] := by
      simp only [Context.overflow, holding, Entry.map_frame staged, Entry.map_frame waiting]
    rw [eq]
    exact .mk ctx.overflow .empty #[] .nil .nil

/-- A job is queued, refused or dropped as its action is. -/
theorem enqueue (h : ctx'.Represents ctx) (id : FrameId) {job : Job E} {action : Action E}
    (same : job.Represents action) :
    (Checked.enqueue ctx' id job).Represents (ctx.enqueue id action) := by
  have queued : ctx'.queued = ctx.queued := by
    rw [Context.queued, Context.queued, h.size_pending, h.size_staging]
  unfold Checked.enqueue Context.enqueue
  rw [h.limits, queued]
  by_cases full : ctx.limits.maxQueueDepth < ctx.queued
  · simp only [full, if_true]
    exact h.overflow
  · simp only [full, if_false, h.overflowed]
    split
    · exact h
    · cases h with
      | mk ctx pending staging waiting staged =>
        cases retained : ctx.frames.retain? id with
        | none =>
          simp only [holding, retained]
          exact record (.mk ctx pending staging waiting staged) _
        | some held =>
          simp only [holding, retained]
          let entry : Entry E := { depth := held.1, frame := id, action }
          let entry' : Entry E.tracked := { depth := held.1, frame := id, action := .task job }
          have added : List.Forall₂ Entry.Represents (staging.push entry').toList
              (ctx.staging.push entry).toList := by
            rw [Array.toList_push, Array.toList_push]
            exact List.rel_append staged (.cons ⟨rfl, rfl, job, rfl, same⟩ .nil)
          exact .mk { ctx with frames := held.2, staging := ctx.staging.push entry } pending
            (staging.push entry') waiting added

theorem discardFrom (h : ctx'.Represents ctx) (depth : Nat) :
    (ctx'.discardFrom depth).Represents (ctx.discardFrom depth) := by
  cases h with
  | mk ctx pending staging waiting staged =>
    have discarded := Entry.discarded waiting depth
    have eq : (ctx.holding pending staging).discardFrom depth =
        (ctx.discardFrom depth).holding (pending.dropFront depth) staging := by
      simp only [Context.discardFrom, holding, Backlog.front, Entry.map_frame discarded.1,
        discarded.1.length_eq]
      rfl
    rw [eq]
    exact .mk (ctx.discardFrom depth) (pending.dropFront depth) staging discarded.2 staged

theorem clearPending (h : ctx'.Represents ctx) :
    ctx'.clearPending.Represents ctx.clearPending := by
  cases h with
  | mk ctx pending staging waiting staged =>
    have eq : (ctx.holding pending staging).clearPending =
        ctx.clearPending.holding .empty staging := by
      simp only [Context.clearPending, holding, Entry.map_frame waiting]
    rw [eq]
    exact .mk ctx.clearPending .empty staging .nil staged

theorem discard (h : ctx'.Represents ctx) (id : FrameId) :
    (ctx'.discard id).Represents (ctx.discard id) := by
  rw [Context.discard, Context.discard, h.scopeOf]
  cases ctx.scopeOf id with
  | clearAll => exact h.clearPending
  | discardFrom depth => exact h.discardFrom depth

theorem promote (h : ctx'.Represents ctx) : ctx'.promote.Represents ctx.promote := by
  cases h with
  | mk ctx pending staging waiting staged =>
    refine .mk ctx.promote (pending.prepend staging) #[] ?_ .nil
    exact List.rel_append staged waiting

/-- The first job is that of the first action. -/
theorem pop? (h : ctx'.Represents ctx) :
    (ctx'.pop? = none ∧ ctx.pop? = none) ∨
      ∃ entry' entry started' started,
        ctx'.pop? = some (entry', started') ∧ ctx.pop? = some (entry, started) ∧
          entry'.Represents entry ∧ started'.Represents started := by
  cases h with
  | mk ctx pending staging waiting staged =>
    cases front : ctx.pending.entries with
    | nil =>
      rw [front] at waiting
      exact .inl ⟨((ctx.holding pending staging).pop?_eq_none_iff).mpr
        (List.forall₂_nil_right_iff.mp waiting), ctx.pop?_eq_none_iff.mpr front⟩
    | cons entry rest =>
      rw [front] at waiting
      rcases List.forall₂_cons_right_iff.mp waiting with ⟨entry', rest', first, others, front'⟩
      rcases exists_pop? front with ⟨left, rfl, popped⟩
      have started : (ctx.holding pending staging).pending.entries = entry' :: rest' := front'
      rcases exists_pop? started with ⟨left', rfl, popped'⟩
      refine .inr ⟨entry', entry, _, _, popped', popped, first, ?_⟩
      rw [first.depth]
      exact .mk { ctx with pending := left, depth := entry.depth } left' staging others staged

end Represents
end Context
end CommandScheduler
