import CommandScheduler.Proofs.Survivors

/-!
# Returning — a command that returns from its frame, beside one that does not

A stage that returns cuts a command in two: the frame is rolled back, and the rest of the stages is
resolved by an entry of its own.  Apart from the rollback, and from what the callback of the frame
hears, nothing comes of the cut: the same modifiers are applied, the same errors are presented and
the command is executed for the same sources at the same cost as if a stage that does nothing stood
in place of the one that returns.
-/

namespace CommandScheduler

/-! ## The stages of the command -/

/-- A command with one stage in the middle of others that only replace sources. -/
structure Cut (V : Vocabulary) where
  input : String
  passed : List (Stage V) := []
  before : List (Stage V)
  /-- Whether the sources of the middle stage come from a fork. -/
  forked : Bool
  after : List (Stage V)
  command : Command
  plainBefore : before.all (·.redirect.isPlain) = true
  plainAfter : after.all (·.redirect.isPlain) = true

namespace Cut

variable {V : Vocabulary} {Mark : Type} (cut : Cut V) (setting : Setting) (source : Source)

/-- The command with a redirect in the middle. -/
def chain (redirect : Redirect V) : Chain V :=
  { input := cut.input
    passed := cut.passed
    ahead := cut.before ++ { forked := cut.forked, redirect } :: cut.after
    terminal := .command cut.command }

/-- The stages behind the middle one, with the cursor at the first of them. -/
def remainder (redirect : Redirect V) : Chain V :=
  { input := cut.input
    passed := { forked := cut.forked, redirect } :: (cut.before.reverse ++ cut.passed)
    ahead := cut.after
    terminal := .command cut.command }

/-- The flags with which the middle stage is passed. -/
def flags : Flags :=
  Flags.initial.forkedIf (cut.before.any (·.forked) || cut.forked)

/-- Whether errors of the command belong to a fork. -/
def isForked : Bool :=
  cut.before.any (·.forked) || cut.forked || cut.after.any (·.forked)

/-- What the stages before the middle one make of the source. -/
def first : Resolved Mark :=
  setting.resolved source .initial [source] cut.before.reverse

/-- What the stages behind the middle one make of the sources that have come there. -/
def second (reached : List Source) : Resolved Mark :=
  setting.resolved source cut.flags reached cut.after.reverse

/-- What executing the command for a source shows. -/
def shows (depth : Nat) : Source → List (Event Mark) :=
  setting.performance depth cut.input cut.command cut.isForked

theorem isForked_flags : cut.flags.isForked = (cut.before.any (·.forked) || cut.forked) :=
  Flags.isForked_forkedIf _ _

/-- Behind a stage that does nothing, the others go on as if nothing stood between. -/
theorem resolved_passthrough {reached : List Source}
    (reaches : (cut.first setting source : Resolved Mark).sources? = some reached) :
    (setting.resolved source .initial [source] (cut.chain .passthrough).ahead.reverse :
        Resolved Mark) =
      let first : Resolved Mark := cut.first setting source
      let second : Resolved Mark := cut.second setting source reached
      { sources? := second.sources?
        charges := first.charges + second.charges
        events := first.events ++ second.events } := by
  let stage : Stage V := { forked := cut.forked, redirect := .passthrough }
  have stages : (cut.chain .passthrough).ahead.reverse =
      cut.after.reverse ++ stage :: cut.before.reverse := by
    simp [chain, stage]
  -- The stage passes on what it gets; all that it leaves is its flag.
  have passed : (setting.resolved source .initial [source] (stage :: cut.before.reverse) :
      Resolved Mark) = cut.first setting source := by
    simp [Setting.resolved, stage, first]
  have raised : cut.flags.isForked =
      (Flags.initial.isForked || (stage :: cut.before.reverse).any (·.forked)) := by
    rw [cut.isForked_flags, List.any_cons, List.any_reverse, Bool.or_comm]
    rfl
  rw [stages]
  exact Setting.resolved_after passed reaches raised cut.after.reverse

/-- Of the flags only the fork counts in a resolution. -/
theorem resolved_setReturn (reached : List Source) :
    (setting.resolved source cut.flags.setReturn reached cut.after.reverse : Resolved Mark) =
      cut.second setting source reached := by
  have raised : cut.flags.isForked =
      (cut.flags.setReturn.isForked || ([] : List (Stage V)).any (·.forked)) := by
    simp
  have start : (setting.resolved source cut.flags.setReturn reached ([] : List (Stage V)) :
      Resolved Mark) = { sources? := some reached } := rfl
  have whole := Setting.resolved_after start rfl raised cut.after.reverse
  simpa [second] using whole

theorem forked_passthrough : (cut.chain .passthrough).ahead.any (·.forked) = cut.isForked := by
  simp [chain, isForked, Bool.or_assoc]

theorem native_remainder (redirect : Redirect V) : (cut.remainder redirect).isNative = true := by
  refine (Bool.and_eq_true _ _).mpr ⟨?_, rfl⟩
  rw [List.all_eq_true]
  intro stage mem
  have plain := List.all_eq_true.mp cut.plainAfter stage mem
  cases kind : stage.redirect with
  | passthrough | modifier | returnRun => rfl
  | custom code => simp [kind, Redirect.isPlain] at plain

theorem plain_passthrough :
    (cut.chain .passthrough).ahead.all (·.redirect.isPlain) = true := by
  simp only [chain, List.all_append, List.all_cons, cut.plainBefore, cut.plainAfter]
  rfl

end Cut

variable {E : Embedding} {scene : Scene E} {running : List FrameId} {frame : Frame} {id : FrameId}
  {tape : Tape E.Mark} {action : Action E} {rest : List (Entry E)} {ctx : Context E}
  {source : Source} {reached : List Source}

/-! ## The first step -/

/-- A resolution that is taken over leaves nothing to launch. -/
theorem Context.resolve_of_prepare {host : Host E} {chain : Chain E} {origin : Source}
    {sources : List Source} {flags : Flags} {after : Context E}
    (more : chain.isTerminal = false)
    (prepared : (ctx.openScope ("prepare " ++ chain.input)).prepare host origin id chain.input
      chain.terminal chain.passed chain.ahead sources flags = (none, after)) :
    ctx.resolve host chain origin sources flags id = after.closeScope := by
  simp only [resolve, more, Bool.false_eq_true, if_false, prepared]

/-- A routine that returns the rest of a chain, on sketches. -/
theorem Site.run?_returnRun (site : Site E) (tape : Tape E.Mark) {chain next : Chain E}
    (ahead : chain.next? = some next) (native : next.isNative = true) (source : Source)
    (some : reached ≠ []) (flags : Flags) :
    (Procedure.ofRoutine (Executor.returnRun source reached chain flags site.id)).run? site.draw
        { tape } =
      Option.some ((), {
        tape
        flow := .returned
        staged := [.continuation next source reached flags.setReturn] }) := by
  have left : reached.isEmpty = false := by simpa [List.isEmpty_eq_false_iff] using some
  let continuation : Action E := .continuation next source reached flags.setReturn
  have native : continuation.isNative = true := native
  rw [Procedure.ofRoutine_returnRun source reached chain next ahead]
  simp only [left, Bool.false_eq_true, if_false, Script.run?_bind]
  rw [run?_discard site _ rfl]
  exact run?_enqueue site { tape, flow := .returned } rfl native

/-- The step that starts the returning command rolls the frame back and leaves the remaining stages
to an entry of their own. -/
theorem Sketch.Depicts.start_returning {callee : FrameId} (cut : Cut E) (host : Host E)
    (h : ({ tape } : Sketch E).Depicts (scene.site frame id callee rest) running ctx)
    (reaches : (cut.first scene.setting source : Resolved E.Mark).sources? = some reached)
    (some : reached ≠ []) (room : rest.length ≤ scene.limits.maxQueueDepth) :
    let first : Resolved E.Mark := cut.first scene.setting source
    ({ tape := tape.spend first.charges
        (scene.setting.traced (.command frame.depth cut.input) ++ first.events)
       flow := .returned
       staged := [.continuation (cut.remainder .returnRun) source reached cut.flags.setReturn] } :
        Sketch E).Depicts (scene.site frame id callee rest) running
      ((Procedure.start host (cut.chain .returnRun) source id).apply ctx) := by
  intro first
  let site := scene.site frame id callee rest
  let chain : Chain E := cut.chain .returnRun
  let traced : List (Event E.Mark) := scene.setting.traced (.command frame.depth cut.input)
  let scope := (ctx.record traced).openScope ("prepare " ++ cut.input)
  have opened : ({ tape := tape.write traced } : Sketch E).Depicts site running scope :=
    (h.record traced).profile _ ((ctx.record traced).profiler.enter_unseen _)
  have resolved := opened.resolvedBy first
  have tapes : (tape.write traced).spend first.charges first.events =
      tape.spend first.charges (traced ++ first.events) := by
    rw [Tape.write_eq_spend, Tape.spend_spend, Nat.zero_add]
  rw [tapes] at resolved
  -- The walk comes to the stage that returns, with the flag raised by all stages up to it.
  let cursor : Chain E :=
    { input := cut.input
      passed := cut.before.reverse ++ cut.passed
      ahead := { forked := cut.forked, redirect := .returnRun } :: cut.after
      terminal := .command cut.command }
  have drawn := site.run?_returnRun (tape.spend first.charges (traced ++ first.events))
    (rfl : cursor.next? = Option.some (cut.remainder .returnRun)) (cut.native_remainder _) source
    some cut.flags
  have returned := resolved.run_of_fits drawn (by
    change 1 + rest.length ≤ scene.limits.maxQueueDepth + 1
    omega)
  have performed : (Procedure.start host chain source id).apply ctx =
      ((Procedure.ofRoutine (Executor.returnRun source reached cursor cut.flags id)).apply
        (scope.resolvedBy first)).closeScope := by
    have flags : (Flags.initial.forkedIf (cut.before.any (·.forked))).forkedIf cut.forked =
        cut.flags := Flags.forkedIf_forkedIf _ _ _
    have same : scope.resolution source .initial [source] cut.before.reverse = first := by
      rw [Context.resolution, opened.setting]
      rfl
    have more : chain.isTerminal = false := by simp [chain, Cut.chain, Chain.isTerminal]
    have prepared : scope.prepare host source id chain.input chain.terminal chain.passed
        chain.ahead [source] .initial =
          (none, (Procedure.ofRoutine (Executor.returnRun source reached cursor cut.flags id)).apply
            (scope.resolvedBy first)) := by
      rw [Procedure.apply, Procedure.run_ofRoutine, ← flags]
      have walked := scope.prepare_append host source .initial [source] id cut.input
        (.command cut.command) cut.before (cursor.ahead) cut.passed cut.plainBefore
      simp only [same, reaches, first] at walked
      exact walked
    rw [h.start host]
    exact Context.resolve_of_prepare more prepared
  rw [performed]
  exact returned.profile _ (Profiler.leave_unseen _)

/-! ## The remaining stages -/

/-- The sources, of which the first one reports to the frame, too. -/
def Frame.rebound (frame : Frame) : List Source → List Source
  | [] => []
  | first :: rest => first.withCallback (first.callback.chain frame.callback) :: rest

theorem Frame.rebind_eq_rebound (frame : Frame) {flags : Flags} (returning : flags.isReturn = true)
    (sources : List Source) : frame.body.rebind flags sources = frame.rebound sources := by
  cases sources with
  | nil => rfl
  | cons first rest =>
    rw [Body.rebind, if_pos returning]
    rfl

/-- What a frame hears if no source is left that could report to it: a failure, as long as there is
quota. -/
def Frame.answer {Mark : Type} (frame : Frame) (sources? : Option (List Source)) (quota : Quota) :
    List (Event Mark) :=
  if sources? = some [] ∧ quota.isExhausted = false then frame.callback.fire .failure else []

namespace Scene.Awaits

/-- The turn that starts the returning command never overflows. -/
theorem starts_returning (cut : Cut E)
    (h : scene.Awaits running frame id tape [action] rest ctx)
    (funded : tape.quota.isExhausted = false)
    (returns : action.Starts (cut.chain .returnRun) source)
    (reaches : (cut.first scene.setting source : Resolved E.Mark).sources? = some reached)
    (some : reached ≠ []) (room : rest.length ≤ scene.limits.maxQueueDepth) :
    let first : Resolved E.Mark := cut.first scene.setting source
    ∃ start mid, Turn scene.host ctx start mid ∧ start.entry.action = action ∧
      scene.Awaits running frame id
        (tape.spend first.charges
          (scene.setting.traced (.command frame.depth cut.input) ++ first.events))
        [.continuation (cut.remainder .returnRun) source reached cut.flags.setReturn]
        (frame.scope.survivors rest) mid := by
  intro first
  have performs : scene.Performs running frame id tape rest True
      (.start scene.host (cut.chain .returnRun) source id) _ :=
    fun callee started depicts => .inr (depicts.start_returning cut scene.host reaches some room)
  have goes := h.goes funded (returns.work scene.host id) performs rfl
  rcases goes with ⟨narrow, -⟩ | ⟨starts, mid, turns, actions, poised, live⟩
  · exact absurd trivial narrow
  · rcases List.map_eq_singleton_iff.mp actions with ⟨start, rfl, same⟩
    cases turns with
    | head turn more =>
      cases more
      exact ⟨start, mid, turn, same, poised, live⟩

/-- Without a source, a returning command has left a failure for its frame. -/
theorem fallsThrough (h : scene.Awaits running frame id tape [.fallthrough] rest ctx)
    (settled : frame.scope.survivors rest = rest) :
    ctx.Goes scene.host (rest.length < scene.limits.maxQueueDepth)
      (scene.Served running frame id (tape.spend 0 (frame.answer (some []) tape.quota)) rest
        []) := by
  cases exhausted : tape.quota.isExhausted with
  | true => simpa [Frame.answer, exhausted] using .refl (h.idle exhausted)
  | false =>
    have performs : scene.Performs running frame id tape rest
        (rest.length < scene.limits.maxQueueDepth) (.fallThrough id)
        { tape := (frame.body.fail tape).1, flow := .returned } :=
      .of_run (fun callee => Site.run?_fallThrough _ tape) fun _ => .inl rfl
    refine (h.goes exhausted rfl performs rfl).imp ?_
    rintro starts next ⟨actions, poised, -⟩
    have answer : tape.spend 0 (frame.answer (some []) tape.quota) = (frame.body.fail tape).1 := by
      simp only [Frame.answer, exhausted, and_self, if_true]
      rfl
    rw [answer]
    refine ⟨executed_of_actions actions, [], ⟨?_, fun some => absurd rfl some⟩, fun _ => rfl⟩
    -- The second rollback of the frame finds nothing more to discard.
    have pending : frame.entries id ([] : List (Action E)) ++ Flow.returned.prune frame.scope
        (frame.entries id [] ++ rest) = frame.entries id [] ++ rest := settled
    rw [← pending]
    exact poised

/-- What a returning command has left once its stages are passed: the executions, of which the first
reports to the frame, or the failure for it, or nothing if a stage has aborted the resolution. -/
theorem reports (cut : Cut E) {chain : Chain E} (atEnd : chain.ahead = [])
    (kind : chain.terminal = .command cut.command) (input : chain.input = cut.input) {flags : Flags}
    (isForked : flags.isForked = cut.isForked) (returning : flags.isReturn = true)
    {sources? : Option (List Source)}
    (h : scene.Awaits running frame id tape ((sources?.map (frame.launched chain flags)).getD [])
      rest ctx)
    (settled : frame.scope.survivors rest = rest) :
    let served := tape.affords (frame.rebound (sources?.getD []))
    ctx.Goes scene.host (rest.length < scene.limits.maxQueueDepth)
      (scene.Served running frame id
        (tape.spend served.length
          (served.flatMap (cut.shows scene.setting frame.depth) ++
            frame.answer sources? tape.quota)) rest served) := by
  have idle : tape.affords (frame.rebound []) = [] := by simp [Tape.affords, Frame.rebound]
  cases sources? with
  | none =>
    -- Nothing has been queued, neither an execution nor the failure.
    intro served
    have nobody : served = [] := idle
    rw [nobody]
    refine .refl ⟨rfl, [], ?_, fun _ => rfl⟩
    simpa [Frame.answer] using h
  | some sources =>
    cases sources with
    | nil =>
      have block : frame.launched chain flags [] = [.fallthrough] := by
        simp [Frame.launched, returning]
      rw [Option.map_some, Option.getD_some, block] at h
      intro served
      have nobody : served = [] := idle
      rw [nobody]
      exact h.fallsThrough settled
    | cons first others =>
      have block : frame.launched chain flags (first :: others) =
          fan ((frame.rebound (first :: others)).map (.execute chain flags)) := by
        rw [← frame.rebind_eq_rebound returning]
        rfl
      have silent :
          (frame.answer (some (first :: others)) tape.quota : List (Event E.Mark)) = [] := by
        simp [Frame.answer]
      rw [Option.map_some, Option.getD_some, block] at h
      have executes := h.schedules atEnd kind flags (frame.rebound (first :: others))
      rw [isForked, input] at executes
      rw [silent]
      simpa [Tape.serve, Cut.shows] using executes

/-- The remaining stages of a command that returns, once the frame is rolled back. -/
theorem continues (cut : Cut E)
    (h : scene.Awaits running frame id tape
      [.continuation (cut.remainder .returnRun) source reached cut.flags.setReturn] rest ctx)
    (funded : tape.quota.isExhausted = false) (settled : frame.scope.survivors rest = rest) :
    let second : Resolved E.Mark := cut.second scene.setting source reached
    let resolved := tape.spend second.charges second.events
    let served := resolved.affords (frame.rebound (second.sources?.getD []))
    ctx.Goes scene.host (rest.length < scene.limits.maxQueueDepth)
      (scene.Served running frame id
        (resolved.spend served.length
          (served.flatMap (cut.shows scene.setting frame.depth) ++
            frame.answer second.sources? resolved.quota)) rest served) := by
  intro second resolved served
  let raised := cut.flags.setReturn.forkedIf (cut.after.any (·.forked))
  have isForked : raised.isForked = cut.isForked := by
    simp only [raised, Flags.isForked_forkedIf, Flags.isForked_setReturn, cut.isForked_flags,
      Cut.isForked]
  have returning : raised.isReturn = true := by simp [raised]
  have first : ctx.Goes scene.host (rest.length < scene.limits.maxQueueDepth) fun before next =>
      before.map (·.entry.action) =
        [.continuation (cut.remainder .returnRun) source reached cut.flags.setReturn] ∧
      scene.Awaits running frame id resolved
        ((second.sources?.map
          (frame.launched (cut.remainder .returnRun).atTerminal raised)).getD []) rest next := by
    have own (callee : FrameId) (started : Context E)
        (_ : ({ tape } : Sketch E).Depicts (scene.site frame id callee rest) running started) :
        (Procedure.resolve scene.host (cut.remainder .returnRun) source reached
            cut.flags.setReturn id).apply started =
          (started.record []).resolve scene.host (cut.remainder .returnRun) source reached
            cut.flags.setReturn id := by
      rw [Procedure.apply_resolve, Context.record_nil]
    have same : (scene.setting.resolved source cut.flags.setReturn reached
        (cut.remainder .returnRun).ahead.reverse : Resolved E.Mark) = second :=
      cut.resolved_setReturn scene.setting source reached
    have resolves := h.resolves funded rfl own cut.plainAfter rfl
    rw [same] at resolves
    exact resolves
  refine first.bind ?_
  rintro before next - ⟨actions, awaits⟩
  refine (awaits.reports cut rfl rfl rfl isForked returning settled).imp ?_
  intro later final served
  exact served.after actions

end Scene.Awaits

namespace Frame

theorem take_rebound (frame : Frame) (count : Nat) (sources : List Source) :
    (frame.rebound sources).take count = frame.rebound (sources.take count) := by
  cases count <;> cases sources <;> rfl

@[simp]
theorem length_rebound (frame : Frame) (sources : List Source) :
    (frame.rebound sources).length = sources.length := by
  cases sources <;> rfl

end Frame

namespace Scene.Awaits

/-- With a stage that does nothing in the middle, the command is executed for as many sources as
there are units left. -/
theorem passesThrough (cut : Cut E) (h : scene.Awaits running frame id tape [action] rest ctx)
    (funded : tape.quota.isExhausted = false)
    (starts : action.Starts (cut.chain .passthrough) source)
    (reaches : (cut.first scene.setting source : Resolved E.Mark).sources? = some reached) :
    let first : Resolved E.Mark := cut.first scene.setting source
    let second : Resolved E.Mark := cut.second scene.setting source reached
    let resolved := tape.spend (first.charges + second.charges)
      (scene.setting.traced (.command frame.depth cut.input) ++ first.events ++ second.events)
    let served := resolved.affords (second.sources?.getD [])
    ctx.Goes scene.host (rest.length < scene.limits.maxQueueDepth)
      (scene.Served running frame id
        (resolved.spend served.length (served.flatMap (cut.shows scene.setting frame.depth))) rest
        served) := by
  have goes := h.starts funded starts cut.plain_passthrough rfl
  simp only [cut.resolved_passthrough scene.setting source reaches, cut.forked_passthrough,
    ← List.append_assoc] at goes
  exact goes

/-- With a stage that returns in the middle, the frame is rolled back first, and then the command is
executed for the same sources. -/
theorem returns (cut : Cut E) (h : scene.Awaits running frame id tape [action] rest ctx)
    (funded : tape.quota.isExhausted = false)
    (returns : action.Starts (cut.chain .returnRun) source)
    (reaches : (cut.first scene.setting source : Resolved E.Mark).sources? = some reached)
    (some : reached ≠ []) (room : rest.length ≤ scene.limits.maxQueueDepth)
    (left : (Quota.charge^[(cut.first scene.setting source : Resolved E.Mark).charges]
      tape.quota).isExhausted = false) :
    let first : Resolved E.Mark := cut.first scene.setting source
    let second : Resolved E.Mark := cut.second scene.setting source reached
    let start := scene.setting.traced (.command frame.depth cut.input) ++ first.events
    let resolved := tape.spend (first.charges + second.charges) (start ++ second.events)
    let served := resolved.affords (second.sources?.getD [])
    ∃ first' mid, Turn scene.host ctx first' mid ∧ first'.entry.action = action ∧
      scene.Served running frame id (tape.spend first.charges start)
        (frame.entries id
            [.continuation (cut.remainder .returnRun) source reached cut.flags.setReturn] ++
          frame.scope.survivors rest) [] [first'] mid ∧
      mid.Goes scene.host (rest.length < scene.limits.maxQueueDepth)
        (scene.Served running frame id
          (resolved.spend served.length
            ((frame.rebound served).flatMap (cut.shows scene.setting frame.depth) ++
              frame.answer second.sources? resolved.quota))
          (frame.scope.survivors rest) (frame.rebound served)) := by
  intro first second start resolved served
  obtain ⟨first', mid, turn, same, awaits⟩ :=
    h.starts_returning cut funded returns reaches some room
  have nobody : executed [first'] = [] := by
    have none : action.executedFor? = none := returns.executedFor?
    simp [executed, same, none]
  refine ⟨first', mid, turn, same, ⟨nobody, [], ?_, fun _ => rfl⟩, ?_⟩
  · exact ⟨awaits.poised, fun some => absurd rfl some⟩
  · have passed : (tape.spend first.charges start).spend second.charges second.events = resolved :=
      tape.spend_spend _ _ _ _
    have rebound : resolved.affords (frame.rebound (second.sources?.getD [])) =
        frame.rebound served :=
      frame.take_rebound _ _
    -- If there was room before the rollback, there is room after it.
    have narrower : (frame.scope.survivors rest).length ≤ rest.length :=
      (Scope.survivors_suffix _ _).length_le
    have goes := (awaits.continues cut left (Scope.survivors_survivors _ _)).of_room
      (Nat.lt_of_le_of_lt narrower)
    rw [← frame.length_rebound served, ← rebound, ← passed]
    exact goes

end Scene.Awaits

/-! ## What is told -/

theorem Callback.fire_chain {Mark : Type} (first second : Callback) (result : Result) :
    ((first.chain second).fire result : List (Event Mark)) =
      first.fire result ++ second.fire result :=
  List.map_append

theorem Frame.filter_answer {Mark : Type} (frame : Frame) (sources? : Option (List Source))
    (quota : Quota) :
    (frame.answer sources? quota : List (Event Mark)).filter Event.isFired =
      frame.answer sources? quota := by
  unfold answer
  split
  · exact Callback.filter_fire _ _
  · rfl

theorem Frame.filter_not_answer {Mark : Type} (frame : Frame) (sources? : Option (List Source))
    (quota : Quota) :
    (frame.answer sources? quota : List (Event Mark)).filter (!·.isFired) = [] := by
  rw [← frame.filter_answer, List.filter_filter]
  simp

theorem Cut.filter_shows {V : Vocabulary} {Mark : Type} (cut : Cut V) (setting : Setting)
    (depth : Nat) (sources : List Source) :
    (sources.flatMap (cut.shows setting depth) : List (Event Mark)).filter Event.isFired =
      sources.flatMap fun source => source.callback.fire (cut.command.result source) := by
  rw [List.filter_flatMap]
  simp only [shows, Setting.filter_performance]

theorem Callback.filter_not_fire {Mark : Type} (callback : Callback) (result : Result) :
    (callback.fire result : List (Event Mark)).filter (!·.isFired) = [] := by
  rw [List.filter_eq_nil_iff]
  intro event mem
  rcases List.mem_map.mp mem with ⟨listener, -, rfl⟩
  exact Bool.false_ne_true

/-- Apart from what its listeners are told, nothing depends on the callback of a source, if the
command does not look at it. -/
theorem Setting.performance_withCallback {Mark : Type} (setting : Setting) (depth : Nat)
    (input : String) {command : Command} {source : Source} {callback : Callback}
    (insensitive : command.run (source.withCallback callback) = command.run source)
    (forked : Bool) :
    (setting.performance depth input command forked (source.withCallback callback) :
        List (Event Mark)).filter (!·.isFired) =
      (setting.performance depth input command forked source).filter (!·.isFired) := by
  simp only [performance, List.filter_append, Callback.filter_not_fire, insensitive]
  rfl

/-- That the first source reports to a frame, too, makes no other difference. -/
theorem Cut.unheard_rebound {V : Vocabulary} {Mark : Type} (cut : Cut V) (setting : Setting)
    (frame : Frame) (depth : Nat)
    (insensitive : ∀ source callback,
      cut.command.run (source.withCallback callback) = cut.command.run source)
    (sources : List Source) :
    ((frame.rebound sources).flatMap (cut.shows setting depth) : List (Event Mark)).filter
        (!·.isFired) =
      (sources.flatMap (cut.shows setting depth)).filter (!·.isFired) := by
  cases sources with
  | nil => rfl
  | cons source others =>
    have same : (cut.shows setting depth
          (source.withCallback (source.callback.chain frame.callback)) : List (Event Mark)).filter
          (!·.isFired) =
        (cut.shows setting depth source).filter (!·.isFired) :=
      setting.performance_withCallback _ _ (insensitive source _) _
    simp only [Frame.rebound, List.flatMap_cons, List.filter_append, same]

/-! ## Both commands -/

/-- If there is quota after some charges, there was quota before. -/
theorem Quota.funded_of_iterate {quota : Quota} {charges : Nat}
    (funded : (Quota.charge^[charges] quota).isExhausted = false) : quota.isExhausted = false := by
  induction charges generalizing quota with
  | zero => exact funded
  | succ charges ih =>
    rw [Function.iterate_succ_apply] at funded
    have after := ih funded
    cases exhausted : quota.isExhausted with
    | false => rfl
    | true =>
      -- A charge does not bring back any quota.
      exact Bool.noConfusion (after.symm.trans (isExhausted_chargeIf exhausted true))

namespace Context

/-- The context in which an action of a frame is the next one to be performed. -/
def upNext (ctx : Context E) (id : FrameId) (action : Action E) : Context E :=
  (ctx.enqueue id action).promote

/-- From the first context to the last one, commands have been executed for these sources, so many
units have been charged, and these events have been added, as far as they are observable.  The rest
is pending behind what work of the frame still waits for quota. -/
structure Ran (ctx : Context E) (frame : Frame) (id : FrameId) (charges : Nat)
    (events : List (Event E.Mark)) (rest : List (Entry E)) (sources : List Source)
    (starts : List (Start E)) (final : Context E) : Prop where
  executed : executed starts = sources
  quota : final.quota = Quota.charge^[charges] ctx.quota
  events : final.log.toList.filter Event.isObservable =
    (ctx.log.toList ++ events).filter Event.isObservable
  pending : ∃ block, final.pending.entries = frame.entries id block ++ rest ∧
    (final.quota.isExhausted = false → block = [])

theorem Accounted.awaits_upNext (host : Host E) (h : ctx.Accounted running)
    (intact : ctx.overflowed = false) (unstaged : ctx.staging = #[])
    (room : ctx.queued ≤ ctx.limits.maxQueueDepth) (live : ctx.frame? id = some frame)
    (action : Action E) :
    Scene.Awaits { host, limits := ctx.limits, sink? := ctx.sink? } running frame id
      { quota := ctx.quota, events := ctx.log.toList.filter Event.isObservable } [action]
      ctx.pending.entries (ctx.upNext id action) := by
  have accounted := (h.enqueue id action).accounted.promote
  rcases enqueue_of_room h intact room live action with ⟨frames, same, next, fresh, eq⟩
  unfold upNext
  rw [eq] at accounted ⊢
  refine ⟨⟨rfl, rfl, intact, accounted.accounted, rfl, rfl, rfl, ?_⟩, fun _ => ?_⟩
  · rw [unstaged]
    rfl
  · exact (FrameTable.frame?_congr same id).trans live

end Context

theorem Scene.Served.ran {base : Context E} {charges : Nat} {events : List (Event E.Mark)}
    {sources : List Source} {starts : List (Start E)}
    (h : scene.Served running frame id
      (Tape.spend { quota := base.quota, events := base.log.toList.filter Event.isObservable }
        charges events) rest sources starts ctx) :
    base.Ran frame id charges events rest sources starts ctx := by
  rcases h.left with ⟨block, ⟨poised, -⟩, done⟩
  refine ⟨h.executed, poised.quota, ?_, block, poised.pending, ?_⟩
  · rw [poised.events, List.filter_append]
    rfl
  · rw [poised.quota]
    exact done

/-- Between two steps there is room for an entry of a live frame, and its command comes to the
middle stage with these sources and with quota left. -/
structure Cut.Arrives (cut : Cut E) (running : List FrameId) (ctx : Context E) (id : FrameId)
    (frame : Frame) (source : Source) (reached : List Source) : Prop where
  reachable : Reachable running ctx
  intact : ctx.overflowed = false
  unstaged : ctx.staging = #[]
  room : ctx.queued ≤ ctx.limits.maxQueueDepth
  live : ctx.frame? id = some frame
  reaches : (cut.first ctx.setting source : Resolved E.Mark).sources? = some reached
  some : reached ≠ []
  funded : (Quota.charge^[(cut.first ctx.setting source : Resolved E.Mark).charges]
    ctx.quota).isExhausted = false

/-- A command with a stage that returns, compared with the same command with a stage in its place
that does nothing, if sources and quota are left when the stage is reached.  Unless the queue
overflows for lack of room, both apply the same modifiers and execute the command for the same
sources at the same charges.  The returning command first rolls its frame back.  Of its sources the
first one reports to the frame, after its own callback; without any source the frame hears a
failure, as long as there is quota; and if a stage aborts the resolution the frame hears nothing.
Whatever is not told to a listener is the same, if the command does not look at the callback of its
source. -/
theorem returning_compared (host : Host E) {cut : Cut E}
    (arrives : cut.Arrives running ctx id frame source reached) {plain returning : Action E}
    (starts : plain.Starts (cut.chain .passthrough) source)
    (returns : returning.Starts (cut.chain .returnRun) source) :
    let first : Resolved E.Mark := cut.first ctx.setting source
    let second : Resolved E.Mark := cut.second ctx.setting source reached
    let rest := ctx.pending.entries
    let left := Quota.charge^[first.charges + second.charges] ctx.quota
    let served := (second.sources?.getD []).take left.remaining.toNat
    let charges := first.charges + second.charges + served.length
    let start := ctx.setting.traced (.command frame.depth cut.input) ++ first.events
    let shows : Source → List (Event E.Mark) := cut.shows ctx.setting frame.depth
    let told := start ++ second.events ++ served.flatMap shows
    let told' := start ++ second.events ++ (frame.rebound served).flatMap shows ++
      frame.answer second.sources? left
    (ctx.upNext id plain).Goes host (rest.length < ctx.limits.maxQueueDepth)
      (ctx.Ran frame id charges told rest served) ∧
    (∃ first' mid, Turn host (ctx.upNext id returning) first' mid ∧
      first'.entry.action = returning ∧
      ctx.Ran frame id first.charges start
        (frame.entries id
            [.continuation (cut.remainder .returnRun) source reached cut.flags.setReturn] ++
          frame.scope.survivors rest) [] [first'] mid ∧
      mid.Goes host (rest.length < ctx.limits.maxQueueDepth)
        (ctx.Ran frame id charges told' (frame.scope.survivors rest) (frame.rebound served))) ∧
    told'.filter Event.isFired =
      (match served with
      | [] => frame.answer second.sources? left
      | source :: others =>
        let result :=
          cut.command.result (source.withCallback (source.callback.chain frame.callback))
        source.callback.fire result ++ frame.callback.fire result ++
          others.flatMap fun source => source.callback.fire (cut.command.result source)) ∧
    ((∀ source callback, cut.command.run (source.withCallback callback) = cut.command.run source) →
      told'.filter (!·.isFired) = told.filter (!·.isFired)) := by
  intro first second rest left served charges start shows told told'
  let scene : Scene E := { host, limits := ctx.limits, sink? := ctx.sink? }
  let tape : Tape E.Mark :=
    { quota := ctx.quota, events := ctx.log.toList.filter Event.isObservable }
  have funded : tape.quota.isExhausted = false := Quota.funded_of_iterate arrives.funded
  have waits (action : Action E) :
      Scene.Awaits scene running frame id tape [action] rest (ctx.upNext id action) :=
    arrives.reachable.accounted.awaits_upNext host arrives.intact arrives.unstaged arrives.room
      arrives.live action
  have room : rest.length ≤ scene.limits.maxQueueDepth := by
    simpa [ctx.queued_eq_length, Context.waiting, arrives.unstaged] using arrives.room
  refine ⟨?_, ?_, ?_, ?_⟩
  · have goes := (waits plain).passesThrough cut funded starts arrives.reaches
    simp only [Tape.spend_spend] at goes
    exact goes.imp fun _ _ served => served.ran
  · obtain ⟨first', mid, turn, same, begun, goes⟩ :=
      (waits returning).returns cut funded returns arrives.reaches arrives.some room
        arrives.funded
    simp only [Tape.spend_spend, ← List.append_assoc] at goes
    exact ⟨first', mid, turn, same, begun.ran, goes.imp fun _ _ served => served.ran⟩
  · -- No listener is told anything before the command is executed.
    have unheard : (start ++ second.events).filter Event.isFired = [] := by
      simp [start, first, second, Cut.first, Cut.second, Setting.filter_traced,
        Setting.filter_resolved]
    rw [List.filter_append, List.filter_append, unheard, cut.filter_shows, List.nil_append,
      frame.filter_answer]
    cases same : served with
    | nil => simp [Frame.rebound]
    | cons source others =>
      -- The frame has heard of the first source, so no failure is left for it.
      have somebody : second.sources? ≠ Option.some [] := by
        intro nobody
        simp [served, nobody] at same
      simp [Frame.rebound, Frame.answer, somebody, Source.withCallback, Callback.fire_chain]
  · intro insensitive
    simp only [told', told, List.filter_append, frame.filter_not_answer, List.append_nil]
    rw [cut.unheard_rebound ctx.setting frame frame.depth insensitive served]

/-! ## A new context -/

/-- A frame waits for its first action in a new context with a limit. -/
def Context.rooted (limit : Nat) : Context .bare :=
  ((Context.create { commandLimit := limit } () .off).pushFrame
    { depth := 0, callback := .single (.label "root"), scope := .clearAll }).2

theorem Cut.arrives_rooted {limit : Nat} {cut : Cut Embedding.bare} {source : Source}
    {reached : List Source}
    (reaches : (cut.first (Context.rooted limit).setting source : Resolved Empty).sources? =
      some reached)
    (some : reached ≠ [])
    (funded : (Quota.charge^[(cut.first (Context.rooted limit).setting source :
      Resolved Empty).charges] (Context.rooted limit).quota).isExhausted = false) :
    cut.Arrives [] (Context.rooted limit) ⟨0⟩
      { depth := 0, callback := .single (.label "root"), scope := .clearAll } source reached where
  reachable := ⟨{ commandLimit := limit }, (), .off, Leads.refl.deed (.effect (.pushFrame _))⟩
  intact := rfl
  unstaged := rfl
  room := Nat.zero_le _
  live := rfl
  reaches := reaches
  some := some
  funded := funded

/-- A fork comes first, then the middle stage, and then the command. -/
def Cut.split : Cut Embedding.bare where
  input := "split return say"
  before := [
    { forked := true, redirect := .modifier fun _ => .ok [.named "bo", .named "cy"] }]
  forked := false
  after := []
  command := { run := fun source => if source.name = "bo" then .ok 1 else .error (.failed "no") }
  plainBefore := rfl
  plainAfter := rfl

/-- The frame hears of the first source of two, after the source itself has heard. -/
theorem returning_compared_of_split :
    ∃ starts final, Turns .bare
        ((Context.rooted 9).upNext ⟨0⟩ (.topLevel (Cut.split.chain .returnRun) (.named "alex")))
        starts final ∧
      (executed starts).map (·.name) = ["bo", "cy"] ∧
      final.log.toList.filter Event.isFired =
        [.fired (.source "bo") (.success 1), .fired (.label "root") (.success 1),
          .fired (.source "cy") .failure] ∧
      final.quota.remaining = 6 := by
  have arrives : Cut.split.Arrives [] (Context.rooted 9) ⟨0⟩ _ (.named "alex") _ :=
    Cut.arrives_rooted rfl (by decide) (by decide)
  obtain ⟨-, ⟨first, mid, turn, same, begun, goes⟩, told, -⟩ :=
    returning_compared .bare arrives .topLevel .topLevel
  rcases goes with ⟨narrow, -⟩ | ⟨starts, final, turns, ran⟩
  · exact absurd (by decide) narrow
  · refine ⟨first :: starts, final, .head turn turns, ?_, ?_, ?_⟩
    · have all : executed (first :: starts) = executed [first] ++ executed starts :=
        executed_append [first] starts
      rw [all, begun.executed, ran.executed]
      rfl
    · rw [← Event.filter_isFired, ran.events, Event.filter_isFired, List.filter_append, told]
      rfl
    · rw [ran.quota]
      rfl

/-- The source, the error and the flag with which an error is presented. -/
def Event.presentation? {Mark : Type} : Event Mark → Option (String × CommandError × Bool)
  | .presented source error forked => some (source, error, forked)
  | _ => none

/-- Behind the middle stage the source is dropped. -/
def Cut.dropping : Cut Embedding.bare where
  input := "return drop say"
  before := []
  forked := false
  after := [{ forked := false, redirect := .modifier fun _ => .ok [] }]
  command := { run := fun _ => .ok 1 }
  plainBefore := rfl
  plainAfter := rfl

/-- The command fails unless somebody listens to its source. -/
def Cut.heeding : Cut Embedding.bare where
  input := "return say"
  before := []
  forked := false
  after := []
  command := {
    run := fun source => if source.callback.isEmpty then .error (.failed "unheard") else .ok 1 }
  plainBefore := rfl
  plainAfter := rfl

/-- With the quota used up the failure stays queued and the frame hears nothing; and a command may
tell by the callback of its source that the frame listens. -/
theorem returning_differs :
    (¬ ∀ (cut : Cut Embedding.bare) (ctx final : Context .bare) (frame : Frame) (id : FrameId)
        (source : Source) (reached : List Source) (fuel : Nat) (outcome : Outcome),
      ctx.queued = 0 → 1 ≤ ctx.limits.maxQueueDepth →
      cut.Arrives [] ctx id frame source reached →
      (cut.second ctx.setting source reached : Resolved Empty).sources? = some [] →
      (ctx.enqueue id (.topLevel (cut.chain .returnRun) source)).run .bare fuel =
        some (outcome, final) → outcome ≠ .overflowed →
      final.log.toList.filter Event.isFired =
        ctx.log.toList.filter Event.isFired ++ frame.callback.fire .failure) ∧
    ¬ ∀ (cut : Cut Embedding.bare) (ctx final final' : Context .bare) (frame : Frame)
        (id : FrameId) (source : Source) (reached : List Source) (fuel fuel' : Nat)
        (outcome outcome' : Outcome),
      ctx.queued = 0 → 1 ≤ ctx.limits.maxQueueDepth →
      cut.Arrives [] ctx id frame source reached →
      (ctx.enqueue id (.topLevel (cut.chain .passthrough) source)).run .bare fuel =
        some (outcome, final) → outcome ≠ .overflowed →
      (ctx.enqueue id (.topLevel (cut.chain .returnRun) source)).run .bare fuel' =
        some (outcome', final') → outcome' ≠ .overflowed →
      final'.log.toList.filterMap Event.presentation? =
        final.log.toList.filterMap Event.presentation? := by
  refine ⟨?_, ?_⟩
  · intro answers
    let queued : Context .bare :=
      (Context.rooted 1).enqueue ⟨0⟩ (.topLevel (Cut.dropping.chain .returnRun) { name := "alex" })
    have arrives : Cut.dropping.Arrives [] (Context.rooted 1) ⟨0⟩ _ { name := "alex" } _ :=
      Cut.arrives_rooted rfl (by decide) (by decide)
    have ran : (queued.run .bare 4).map
        (fun result => (result.1, (result.2.log.toList.filter Event.isFired).length)) =
          some (.quotaExhausted, 0) := by
      decide +kernel
    rcases Option.map_eq_some_iff.mp ran with ⟨⟨outcome, final⟩, ran, eq⟩
    rcases Prod.mk.inj eq with ⟨rfl, silent⟩
    have told := answers _ _ final _ _ _ _ 4 _ rfl (by decide) arrives rfl ran (by decide)
    rw [told] at silent
    cases silent
  · intro same
    let queued (middle : Redirect Embedding.bare) : Context .bare :=
      (Context.rooted 9).enqueue ⟨0⟩ (.topLevel (Cut.heeding.chain middle) { name := "alex" })
    have arrives : Cut.heeding.Arrives [] (Context.rooted 9) ⟨0⟩ _ { name := "alex" } _ :=
      Cut.arrives_rooted rfl (by decide) (by decide)
    have plain : ((queued .passthrough).run .bare 4).map
        (fun result => (result.1, result.2.log.toList.filterMap Event.presentation?)) =
          some (.completed, [("alex", .failed "unheard", false)]) := by
      decide +kernel
    have returning : ((queued .returnRun).run .bare 4).map
        (fun result => (result.1, result.2.log.toList.filterMap Event.presentation?)) =
          some (.completed, []) := by
      decide +kernel
    rcases Option.map_eq_some_iff.mp plain with ⟨⟨outcome, final⟩, ran, eq⟩
    rcases Option.map_eq_some_iff.mp returning with ⟨⟨outcome', final'⟩, ran', eq'⟩
    rcases Prod.mk.inj eq with ⟨rfl, presented⟩
    rcases Prod.mk.inj eq' with ⟨rfl, silent⟩
    have told := same _ _ final final' _ _ _ _ 4 4 _ _ rfl (by decide) arrives ran (by decide) ran'
      (by decide)
    rw [presented, silent] at told
    cases told

end CommandScheduler
