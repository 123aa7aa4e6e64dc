import CommandScheduler.Proofs.Depth
import CommandScheduler.Proofs.Enclosed

/-!
# Profiling — the scopes that a profiler is told of

Only two actions of the scheduler enter a scope of the profiler: the one that walks the stages of a
chain and the one that executes a command.  Both leave it again whatever happens inside, and nothing
that can happen inside enters another scope or the run loop.  So between two actions no scope is
open, in the run loops that entries enter, too.
-/

namespace CommandScheduler

/-! ## Calls of the profiler -/

/-- How an active profiler is called. -/
inductive ProfilerCall where
  | enter (scope : String)
  | leave
  deriving DecidableEq

/-- What a profiler writes into the log of a scope that is left before anything else is entered. -/
def Profiler.shown {Mark : Type} : Profiler → String → List (Event Mark)
  | off, _ => []
  | recording, scope => [.entered scope, .left]
  | logging scopes, scope => [.notice (.profiled scope scopes.length)]

theorem Profiler.leave_enter {Mark : Type} (profiler : Profiler) (scope : String) :
    ((profiler.enter scope : _ × List (Event Mark)).1.leave : _ × List (Event Mark)).1 =
      profiler := by
  cases profiler <;> rfl

theorem Profiler.filter_shown {Mark : Type} (profiler : Profiler) (scope : String) :
    ((profiler.enter scope).2 ++ (profiler.enter scope : _ × List (Event Mark)).1.leave.2).filter
      Event.isProfiled = (profiler.shown scope : List (Event Mark)) := by
  cases profiler <;> rfl

variable {E : Embedding}

def Deed.profilerCall? : Deed E → Option ProfilerCall
  | .openScope scope => some (.enter scope)
  | .closeScope => some .leave
  | .effect _ | .record _ => none

/-- The calls of the profiler that a procedure makes, in order, if the profiler is active. -/
def Procedure.profilerCalls {α : Type} : Procedure E α → Context E → List ProfilerCall
  | .done _, _ => []
  | .call deed next, ctx =>
    deed.profilerCall?.toList ++ profilerCalls (next (deed.apply ctx).1) (deed.apply ctx).2

/-- Neither calls the profiler nor writes what only a profiler writes. -/
def Deed.IsSilent : Deed E → Prop
  | .effect _ => True
  | .record events => ∀ event ∈ events, event.isProfiled = false
  | .openScope _ | .closeScope => False

/-- With any host, the scheduler and the routines are silent apart from the scopes of the actions.
-/
theorem Host.within_silent (host : Host E) : host.Within Deed.IsSilent where
  effect := fun _ _ => trivial
  record := fun _ unprofiled => unprofiled
  redirect := fun _ _ _ _ _ _ => .of_forall (fun _ => trivial) _
  execute := fun _ _ _ _ _ => .of_forall (fun _ => trivial) _

/-! ## Tidy contexts -/

namespace Context

/-- What a profiler has written. -/
def profiled (ctx : Context E) : List (Event E.Mark) :=
  ctx.log.toList.filter Event.isProfiled

/-- From one context to the other some scopes were entered and left, one after another, so that the
profiler is as it was before. -/
structure Tidy (ctx : Context E) (scopes : List String) (ctx' : Context E) : Prop where
  profiler : ctx'.profiler = ctx.profiler
  profiled : ctx'.profiled = ctx.profiled ++ scopes.flatMap ctx.profiler.shown

namespace Tidy

variable {ctx mid ctx' : Context E} {scopes scopes' : List String}

theorem of_eq (profiler : ctx'.profiler = ctx.profiler) (log : ctx'.log = ctx.log) :
    ctx.Tidy [] ctx' :=
  ⟨profiler, by simp [Context.profiled, log]⟩

theorem refl (ctx : Context E) : ctx.Tidy [] ctx :=
  .of_eq rfl rfl

theorem trans (first : ctx.Tidy scopes mid) (second : mid.Tidy scopes' ctx') :
    ctx.Tidy (scopes ++ scopes') ctx' where
  profiler := second.profiler.trans first.profiler
  profiled := by
    rw [second.profiled, first.profiled, first.profiler, List.flatMap_append, List.append_assoc]

theorem record (ctx : Context E) {events : List (Event E.Mark)}
    (unprofiled : ∀ event ∈ events, event.isProfiled = false) :
    ctx.Tidy [] (ctx.record events) where
  profiler := rfl
  profiled := by
    have none : events.filter Event.isProfiled = [] := by simpa using unprofiled
    simp [Context.profiled, Context.record, none]

theorem notify (ctx : Context E) {notice : Notice}
    (unprofiled : (Event.notice notice : Event E.Mark).isProfiled = false) :
    ctx.Tidy [] (ctx.notify notice) :=
  record ctx (by simpa using unprofiled)

theorem trace (ctx : Context E) (event : TraceEvent) : ctx.Tidy [] (ctx.trace event) := by
  unfold Context.trace
  cases ctx.sink? with
  | none => exact refl ctx
  | some sink => exact record ctx (by simp [Event.isProfiled])

/-! ### Effects -/

theorem enqueue (ctx : Context E) (id : FrameId) (action : Action E) :
    ctx.Tidy [] (ctx.enqueue id action) := by
  rcases ctx.enqueue_cases id action with
    ⟨-, eq⟩ | ⟨-, eq⟩ | ⟨-, -, eq⟩ | ⟨-, -, depth, frames, -, eq⟩
  · rw [eq]
    exact of_eq rfl rfl
  · rw [eq]
    exact refl ctx
  · rw [eq]
    exact notify ctx rfl
  · rw [eq]
    exact of_eq rfl rfl

theorem enqueueAll (ctx : Context E) (id : FrameId) (actions : List (Action E)) :
    ctx.Tidy [] (actions.foldl (fun ctx action => ctx.enqueue id action) ctx) := by
  induction actions generalizing ctx with
  | nil => exact refl ctx
  | cons action rest ih => exact (enqueue ctx id action).trans (ih (ctx.enqueue id action))

theorem discardFrom (ctx : Context E) (depth : Nat) : ctx.Tidy [] (ctx.discardFrom depth) where
  profiler := rfl
  profiled := by
    simp [Context.profiled, Context.discardFrom, Context.notify, Context.record, Event.isProfiled]

theorem discard (ctx : Context E) (id : FrameId) : ctx.Tidy [] (ctx.discard id) := by
  unfold Context.discard Context.rollBack
  split
  · exact of_eq rfl rfl
  · exact discardFrom ctx _

/-- No effect enters or leaves a scope. -/
theorem effect (ctx : Context E) (effect : Effect E) : ctx.Tidy [] (effect.apply ctx).2 := by
  cases effect with
  | enqueue frame action => exact enqueue ctx frame action
  | schedule frame actions =>
    simp only [Effect.apply, Context.schedule_eq_foldl]
    exact enqueueAll ctx frame _
  | queueCommand chain source callback =>
    have pushed : ctx.Tidy [] (ctx.pushTopFrame callback).2 := of_eq rfl rfl
    exact pushed.trans (enqueue _ _ _)
  | queueCall function source callback =>
    have pushed : ctx.Tidy [] (ctx.pushTopFrame callback).2 := of_eq rfl rfl
    exact pushed.trans (enqueue _ _ _)
  | discard frame => exact discard ctx frame
  | discardFrom depth => exact discardFrom ctx depth
  | trace event => exact trace ctx event
  | fire callback result =>
    refine record ctx fun event mem => ?_
    rcases List.mem_map.mp mem with ⟨listener, -, rfl⟩
    rfl
  | present source error forked =>
    exact (trace ctx _).trans (record _ (by simp [Event.isProfiled]))
  | mark mark => exact record ctx (by simp [Event.isProfiled])
  | ask | pushFrame | charge | install | load | store => exact of_eq rfl rfl

/-- A scope is entered and left around something that enters none. -/
theorem enclose {scope : String} (inner : (ctx.openScope scope).Tidy [] mid) :
    ctx.Tidy [scope] mid.closeScope := by
  have opened : mid.profiler = (ctx.profiler.enter scope : _ × List (Event E.Mark)).1 :=
    inner.profiler
  have left : mid.closeScope.profiler = (mid.profiler.leave : _ × List (Event E.Mark)).1 := rfl
  have before : (ctx.openScope scope).profiled =
      ctx.profiled ++ (ctx.profiler.enter scope).2.filter Event.isProfiled := by
    simp [Context.profiled, Context.openScope, Context.record]
  have after : mid.closeScope.profiled =
      mid.profiled ++ mid.profiler.leave.2.filter Event.isProfiled := by
    simp [Context.profiled, Context.closeScope, Context.record]
  refine ⟨?_, ?_⟩
  · rw [left, opened, Profiler.leave_enter]
  · calc
      mid.closeScope.profiled
          = (ctx.openScope scope).profiled ++ mid.profiler.leave.2.filter Event.isProfiled := by
            rw [after, inner.profiled, List.flatMap_nil, List.append_nil]
      _ = ctx.profiled ++ ctx.profiler.shown scope := by
            rw [before, opened, List.append_assoc, ← List.filter_append, Profiler.filter_shown]
      _ = ctx.profiled ++ [scope].flatMap ctx.profiler.shown := by
            rw [List.flatMap_singleton]

end Tidy
end Context

/-! ## Actions of the scheduler -/

namespace Procedure

variable {ctx : Context E}

theorem profilerCalls_bind {α β : Type} (procedure : Procedure E α) (next : α → Procedure E β) :
    (procedure >>= next).profilerCalls ctx =
      procedure.profilerCalls ctx ++
        (next (procedure.run Deed.apply ctx).1).profilerCalls (procedure.apply ctx) := by
  induction procedure generalizing ctx with
  | done value => rfl
  | call deed rest ih =>
    have unfolded : (.call deed rest >>= next : Procedure E β) =
        .call deed fun reply => rest reply >>= next := rfl
    rw [unfolded, profilerCalls, ih, profilerCalls, List.append_assoc]
    rfl

/-- A silent procedure does not call the profiler and writes nothing in its place. -/
theorem tidy_of_silent {α : Type} {procedure : Procedure E α}
    (silent : Script.Only Deed.IsSilent procedure) (ctx : Context E) :
    procedure.profilerCalls ctx = [] ∧ ctx.Tidy [] (procedure.apply ctx) := by
  induction silent generalizing ctx with
  | done value => exact ⟨rfl, .refl ctx⟩
  | @call deed next silent _ ih =>
    rcases ih (deed.apply ctx).1 (deed.apply ctx).2 with ⟨none, later⟩
    cases deed with
    | effect effect => exact ⟨none, (Context.Tidy.effect ctx effect).trans later⟩
    | record events => exact ⟨none, (Context.Tidy.record ctx silent).trans later⟩
    | openScope | closeScope => cases silent

/-- Around an enclosed procedure the profiler is called for at most one scope, which is left before
the procedure is done. -/
theorem tidy_of_enclosed {procedure : Procedure E Unit}
    (enclosed : procedure.Enclosed Deed.IsSilent) (ctx : Context E) :
    (procedure.profilerCalls ctx = [] ∧ ctx.Tidy [] (procedure.apply ctx)) ∨
      ∃ scope, procedure.profilerCalls ctx = [.enter scope, .leave] ∧
        ctx.Tidy [scope] (procedure.apply ctx) := by
  induction enclosed generalizing ctx with
  | only silent => exact .inl (tidy_of_silent silent ctx)
  | @after α first next silent _ ih =>
    rcases tidy_of_silent silent ctx with ⟨none, before⟩
    have behind : (first >>= next).apply ctx =
        (next (first.run Deed.apply ctx).1).apply (first.apply ctx) := by
      simp [apply]
    rw [profilerCalls_bind, none, List.nil_append, behind]
    refine (ih (first.run Deed.apply ctx).1 (first.apply ctx)).imp ?_ ?_
    · rintro ⟨calls, later⟩
      exact ⟨calls, before.trans later⟩
    · rintro ⟨scope, calls, later⟩
      exact ⟨scope, calls, before.trans later⟩
  | @scope α body next scope inner later =>
    let opened := ctx.openScope scope
    let value := (body.run Deed.apply opened).1
    rcases tidy_of_silent inner opened with ⟨innerCalls, within⟩
    rcases tidy_of_silent (later value) (body.apply opened).closeScope with ⟨laterCalls, behind⟩
    let whole : Procedure E Unit := do
      openScope scope
      let value ← body
      closeScope
      next value
    have calls : whole.profilerCalls ctx = .enter scope :: (body.profilerCalls opened ++
        .leave :: (next value).profilerCalls (body.apply opened).closeScope) :=
      congrArg (ProfilerCall.enter scope :: ·) (profilerCalls_bind body _)
    have applied : whole.apply ctx = (next value).apply (body.apply opened).closeScope := by
      simp [whole, apply, value, opened]
    refine .inr ⟨scope, ?_, ?_⟩
    · rw [calls, innerCalls, laterCalls, List.nil_append]
    · rw [applied]
      exact within.enclose.trans behind

end Procedure

/-! ## Runs -/

variable {host : Host E} {ctx mid ctx' moment : Context E}

/-- From one context to the other some scopes were entered and left, one after another. -/
def Context.Tidies (ctx ctx' : Context E) : Prop :=
  ∃ scopes, ctx.Tidy scopes ctx'

theorem Context.Tidy.tidies {scopes : List String} (tidy : ctx.Tidy scopes ctx') :
    ctx.Tidies ctx' :=
  ⟨scopes, tidy⟩

theorem Context.Tidies.trans (first : ctx.Tidies mid) (second : mid.Tidies ctx') :
    ctx.Tidies ctx' := by
  rcases first with ⟨scopes, first⟩
  rcases second with ⟨scopes', second⟩
  exact ⟨scopes ++ scopes', first.trans second⟩

theorem Procedure.Enclosed.tidies {procedure : Procedure E Unit}
    (enclosed : procedure.Enclosed Deed.IsSilent) (ctx : Context E) :
    ctx.Tidies (procedure.apply ctx) := by
  rcases procedure.tidy_of_enclosed enclosed ctx with ⟨-, tidy⟩ | ⟨scope, -, tidy⟩
  · exact tidy.tidies
  · exact tidy.tidies

theorem Context.Tidies.pop {started : Context E} {entry : Entry E}
    (popped : ctx.pop? = some (entry, started)) : ctx.Tidies started := by
  obtain ⟨pending, -, rfl⟩ := Context.pop?_eq_some popped
  exact ⟨[], .of_eq rfl rfl⟩

/-- Whatever a run does, it leaves no scope open. -/
theorem Context.Tidies.carries (host : Host E) : Carries host Context.Tidies where
  refl := fun ctx => (Tidy.refl ctx).tidies
  trans := .trans
  effect := fun effect ctx => (Tidy.effect ctx effect).tidies
  own := fun own ctx => (host.within_silent.enclosed own).tidies ctx
  step := fun popped executed =>
    ((Tidies.pop popped).trans executed).trans ⟨[], .of_eq rfl rfl⟩
  promote := fun _ => ⟨[], .of_eq rfl rfl⟩
  limitReached := fun ctx _ => (Tidy.notify ctx rfl).tidies
  queueOverflowed := fun ctx _ => (Tidy.notify ctx rfl).tidies
  finish := fun _ _ => ⟨[], .of_eq rfl rfl⟩

/-! ## Between two actions -/

/-- Whether no action of the scheduler is under way when this is left of some work. -/
def Work.isBetween : Work E → Bool
  | .own (.done _) | .embedded _ => true
  | .own (.call ..) => false

/-- Within an action of the scheduler there is nothing but the rest of its procedure. -/
theorem Passes.exists_own {procedure : Procedure E Unit} {work rest : Work E} {resumed : Bool}
    (passes : Passes host work ctx resumed rest moment) (own : work = .own procedure) :
    ∃ left : Procedure E Unit, rest = .own left ∧ left.apply moment = procedure.apply ctx := by
  induction passes generalizing procedure with
  | here work ctx => exact ⟨procedure, own, rfl⟩
  | deed _ ih =>
    cases own
    exact ih rfl
  | effect | inside | behind | run => cases own

theorem Passes.tidies {work rest : Work E} {resumed : Bool}
    (passes : Passes host work ctx resumed rest moment)
    (whole : ∀ procedure, work = .own procedure → procedure.Enclosed Deed.IsSilent)
    (between : rest.isBetween = true) : ctx.Tidies moment := by
  have carries := Context.Tidies.carries host
  induction passes with
  | here work ctx => exact carries.refl ctx
  | @deed deed next ctx moment _ _ inner _ =>
    -- The action is ended, since nothing in its middle is between two actions.
    rcases (Passes.deed inner).exists_own rfl with ⟨left, rfl, applied⟩
    cases left with
    | done value =>
      have ended : moment = Procedure.apply (.call deed next) ctx := applied
      rw [ended]
      exact (whole _ rfl).tidies ctx
    | call => cases between
  | @effect effect _ ctx _ _ _ _ ih =>
    exact (carries.effect effect ctx).trans (ih (fun _ own => by cases own) between)
  | inside _ ih => exact ih (fun _ own => host.within_silent.enclosed own) between
  | @behind _ _ _ _ _ _ _ _ done _ _ isDone _ first later =>
    have ended : done.isBetween = true := by
      match done with
      | .own (.done _) | .embedded _ => rfl
      | .own (.call ..) => cases isDone
    exact (first (fun _ own => host.within_silent.enclosed own) ended).trans
      (later (fun _ own => by cases own) between)
  | run ran _ ih => exact (carries.run ran).trans (ih (fun _ own => by cases own) between)

/-- The moments, from the first context on, at which no action of the scheduler is under way: the
embedding program is at one of its instructions, be it the work itself or the work of an entry, or a
run loop is at the head of a turn. -/
inductive Boundary (host : Host E) : Work E → Context E → Context E → Prop where
  | instruction {work : Work E} {rest : Program E Unit} {ctx moment : Context E} {resumed : Bool} :
      Passes host work ctx resumed (.embedded rest) moment → Boundary host work ctx moment
  /-- In a run loop that the work has entered. -/
  | turn {work : Work E} {next : Outcome → Program E Unit} {ctx mid head : Context E}
      {resumed : Bool} {starts : List (Start E)} :
      Passes host work ctx resumed (.embedded (.call .run next)) mid →
      Turns host mid.promote starts head → Boundary host work ctx head
  /-- In the work of an entry that such a run loop has taken. -/
  | entry {work : Work E} {next : Outcome → Program E Unit}
      {ctx mid head started moment : Context E} {resumed : Bool} {starts : List (Start E)}
      {entry : Entry E} :
      Passes host work ctx resumed (.embedded (.call .run next)) mid →
      Turns host mid.promote starts head → head.quota.isExhausted = false →
      head.pop? = some (entry, started) →
      Boundary host (entry.action.work host entry.frame) started moment →
        Boundary host work ctx moment

theorem Boundary.tidies {work : Work E} (boundary : Boundary host work ctx moment)
    (whole : ∀ procedure, work = .own procedure → procedure.Enclosed Deed.IsSilent) :
    ctx.Tidies moment := by
  have carries := Context.Tidies.carries host
  -- The run loops of entries are nested in the ones that have taken the entries.
  induction boundary with
  | instruction passes => exact passes.tidies whole rfl
  | turn passes turns =>
    exact (passes.tidies whole rfl).trans ((carries.promote _).trans (carries.turns turns))
  | entry passes turns _ popped _ ih =>
    have reached := (passes.tidies whole rfl).trans
      ((carries.promote _).trans (carries.turns turns))
    have inner := ih fun procedure own => host.within_silent.enclosed own
    exact (reached.trans (.pop popped)).trans inner

/-- An active profiler is called in pairs.  Each action of the scheduler calls it for at most one
scope, which it enters and leaves again.  So whatever programs, hosts and entries do, nested runs
and overflows included, between two actions the profiler has been told of scopes that were left
before the next one was entered, and knows of no more open ones than in the beginning. -/
theorem profiled_in_pairs (host : Host E) :
    (∀ (action : Action E) (frame : FrameId) (procedure : Procedure E Unit),
      action.work host frame = .own procedure → ∀ ctx,
        procedure.profilerCalls ctx = [] ∨
          ∃ scope, procedure.profilerCalls ctx = [.enter scope, .leave]) ∧
    (∀ (limits : Limits) (memory : E.Memory) (profiler : Profiler) (program : Program E Unit)
      (moment : Context E),
      Boundary host (.embedded program) (.create limits memory profiler) moment →
        moment.profiler = profiler ∧
        ∃ scopes : List String, moment.log.toList.filter Event.isProfiled =
          scopes.flatMap profiler.shown) := by
  refine ⟨?_, ?_⟩
  · intro action frame procedure own ctx
    refine (procedure.tidy_of_enclosed (host.within_silent.enclosed own) ctx).imp ?_ ?_
    · rintro ⟨calls, -⟩
      exact calls
    · rintro ⟨scope, calls, -⟩
      exact ⟨scope, calls⟩
  · intro limits memory profiler program moment boundary
    rcases boundary.tidies (fun _ own => by cases own) with ⟨scopes, same, profiled⟩
    exact ⟨same, scopes, profiled⟩

/-- A task runs the queue, in which a command with a stage waits.  When that run has ended, two
scopes were entered and left, and the task is still being executed. -/
theorem profiled_in_pairs_of_nested_run :
    ∃ (program : Program .single Unit) (moment : Context .single) (scopes : List String),
      Boundary .resuming (.embedded program) (.create {} () (.logging [])) moment ∧
      moment.profiler = .logging [] ∧ scopes.length = 2 ∧
      moment.log.toList.filter Event.isProfiled =
        scopes.flatMap (Profiler.logging []).shown := by
  let stage : Stage Embedding.single := { redirect := .modifier fun source => .ok [source] }
  let chain : Chain Embedding.single :=
    .ofStages "as say" [stage] (.command { run := fun _ => .ok 1 })
  let program : Program .single Unit :=
    .call (.effect (.pushFrame { depth := 1, scope := .discardFrom 1 })) fun frame =>
    .call (.effect (.enqueue frame (.task ()))) fun _ =>
    .call (.effect (.queueCommand chain { name := "alex" } .empty)) fun _ =>
    .call .run fun _ => .done ()
  let new : Context .single := .create {} () (.logging [])
  let mid : Context .single := (((new.pushFrame { depth := 1, scope := .discardFrom 1 }).2.enqueue
    ⟨0⟩ (.task ())).queueCommand chain { name := "alex" } .empty)
  -- The nested run is followed to its end.
  have ran : (mid.promote.pop?.bind fun head =>
      (head.2.run .resuming 4).map fun result =>
        (result.2.log.toList.filter Event.isProfiled).length) = some 2 := by
    decide +kernel
  rcases Option.bind_eq_some_iff.mp ran with ⟨⟨entry, started⟩, popped, ended⟩
  rcases Option.map_eq_some_iff.mp ended with ⟨⟨outcome, moment⟩, ran, count⟩
  have taken : mid.promote.pop?.map (·.1) = some ⟨1, ⟨0⟩, .task ()⟩ := rfl
  rw [popped] at taken
  cases taken
  have boundary : Boundary .resuming (.embedded program) new moment :=
    .entry (.effect (.effect (.effect (.here _ mid)))) (.refl _) rfl popped
      (.instruction (.run ran (.here _ _)))
  obtain ⟨-, paired⟩ := profiled_in_pairs Host.resuming
  rcases paired {} () (.logging []) program moment boundary with ⟨same, scopes, profiled⟩
  have two : scopes.length = 2 := by
    simpa [profiled, Profiler.shown, List.length_flatMap, List.map_const'] using count
  exact ⟨program, moment, scopes, boundary, same, two, profiled⟩

end CommandScheduler
