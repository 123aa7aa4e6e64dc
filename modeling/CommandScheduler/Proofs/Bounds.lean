import CommandScheduler.Proofs.Reachable
import CommandScheduler.Proofs.Representation

/-!
# Bounds — no look-up of the scheduler ever misses

The checked scheduler is compared with the scheduler on cursors, function by function: from contexts
of which the one represents the other, both end alike, and so none of the checks ever finds a fault.

The two facts that the checks rest on travel in the relation between the queues.  A track that
waits is that of a cursor, which puts its position within its links and one terminal at their end;
and what a waiting fan-out has left is not empty, which puts its index within its arguments.
-/

namespace CommandScheduler

variable {E : Embedding}

/-! ## Scripts in agreement -/

/-- Two answers of a script: the same reply, and related states. -/
def Checked.Along {α σ' σ : Type} (R : σ' → σ → Prop) (answer' : α × σ') (answer : α × σ) : Prop :=
  answer'.1 = answer.1 ∧ R answer'.2 answer.2

/-- If two handlers agree on each operation, then they do so on a script. -/
theorem Script.agrees {Op : Type} {Reply : Op → Type} {α σ' σ : Type} {R : σ' → σ → Prop}
    {handle' : (op : Op) → σ' → Checked (Reply op × σ')}
    {handle : (op : Op) → σ → Option (Reply op × σ)}
    (step : ∀ op state' state, R state' state →
      Checked.Agrees (Checked.Along R) (handle' op state') (handle op state))
    (script : Script Op Reply α) {state' : σ'} {state : σ} (h : R state' state) :
    Checked.Agrees (Checked.Along R) (script.runChecked handle' state')
      (script.run? handle state) := by
  induction script generalizing state' state with
  | done value => exact .value ⟨rfl, h⟩
  | call op next ih =>
    have first := step op state' state h
    simp only [runChecked, run?]
    generalize handle' op state' = x at first ⊢
    generalize handle op state = y at first ⊢
    cases first with
    | @value reply' reply related =>
      rcases reply' with ⟨reply', after'⟩
      rcases reply with ⟨reply, after⟩
      obtain ⟨rfl, later⟩ := related
      exact ih reply' later
    | outOfFuel => exact .outOfFuel

/-- The resolution has reached the terminal at that track with the same sources and flags, or was
aborted or taken over in both contexts. -/
def Checked.Reaches (chain : Chain E)
    (answer' : Option (Track E × List Source × Flags) × Context E.tracked)
    (answer : Option (List Source × Flags) × Context E) : Prop :=
  answer'.1 = answer.1.map (fun reached => (chain.track, reached.1, reached.2)) ∧
    answer'.2.Represents answer.2

namespace Context.Represents

open Checked (Agrees Along Reaches)

variable {ctx' : Context E.tracked} {ctx : Context E} {frame : FrameId}

/-! ## Scheduling -/

theorem schedule (h : ctx'.Represents ctx) (frame : FrameId) {arguments : List (Job E)}
    {actions : List (Action E)} (same : List.Forall₂ Job.Represents arguments actions) :
    Agrees Represents (Checked.schedule ctx' frame arguments.toArray)
      (some (ctx.schedule frame actions)) := by
  cases same with
  | nil => exact .value h
  | cons first others =>
    cases others with
    | nil => exact .value (h.enqueue frame first)
    | cons second others =>
      cases others with
      | nil => exact .value ((h.enqueue frame first).enqueue frame second)
      | cons third others =>
        have fanned :
            Job.Represents (.fanOut (_ :: _ :: _ :: _).toArray 0) (.fanOut _ (_ :: _ :: _)) :=
          .fanOut (.cons first (.cons second (.cons third others)))
        exact .value (h.enqueue frame fanned)

/-- The jobs and the actions are made from the same things, one by one. -/
theorem scheduleEach {α : Type} (h : ctx'.Represents ctx) (frame : FrameId) (items : List α)
    {job : α → Job E} {action : α → Action E} (same : ∀ item, (job item).Represents (action item)) :
    Agrees Represents (Checked.schedule ctx' frame (items.map job).toArray)
      (some (ctx.schedule frame (items.map action))) := by
  refine h.schedule frame ?_
  rw [List.forall₂_map_left_iff, List.forall₂_map_right_iff]
  exact List.forall₂_same.mpr fun item _ => same item

theorem expand (h : ctx'.Represents ctx) (frame : FrameId) {arguments : Array (Job E)}
    {index : Nat} {first : Action E} {rest : List (Action E)}
    (same : List.Forall₂ Job.Represents (arguments.toList.drop index) (first :: rest)) :
    Agrees Represents (Checked.expand arguments index frame ctx')
      (some (ctx.expand first rest frame)) := by
  rcases List.forall₂_cons_right_iff.mp same with ⟨job, jobs, head, others, left⟩
  have found : arguments[index]? = some job := by
    rw [← Array.getElem?_toList, ← List.head?_drop, left, List.head?_cons]
  have behind : arguments.toList.drop (index + 1) = jobs := by
    rw [← List.tail_drop, left, List.tail_cons]
  have size : arguments.size = index + jobs.length + 1 := by
    have lengths := congrArg List.length left
    simp only [List.length_drop, Array.length_toList, List.length_cons] at lengths
    omega
  have queued := h.enqueue frame head
  simp only [Checked.expand, Checked.argument, found, Checked.ofOption, pure_bind]
  cases others with
  | nil =>
    have last : ¬ index + 1 < arguments.size := by simp [size]
    simp only [last, if_false]
    exact .value queued
  | cons next others =>
    have more : index + 1 < arguments.size := by simp [size]
    simp only [more, if_true]
    refine .value (queued.enqueue frame (.fanOut ?_))
    rw [behind]
    exact .cons next others

/-! ## Effects -/

theorem enqueueTop (h : ctx'.Represents ctx) (callback : Callback) {job : Job E}
    {action : Action E} (same : job.Represents action) :
    (Checked.enqueue (ctx'.pushTopFrame callback).2 (ctx'.pushTopFrame callback).1 job).Represents
      ((ctx.pushTopFrame callback).2.enqueue (ctx.pushTopFrame callback).1 action) := by
  obtain ⟨id, pushed⟩ := h.pushTopFrame callback
  rw [id]
  exact pushed.enqueue _ same

theorem effect (h : ctx'.Represents ctx) (effect : Effect E) :
    Agrees (Along Represents) (Checked.effect effect ctx') (some (effect.apply ctx)) := by
  cases effect with
  | ask query => exact .value ⟨h.answer query, h⟩
  | enqueue frame action => exact .value ⟨rfl, h.enqueue frame (Job.represents_of action)⟩
  | schedule frame actions =>
    exact (h.schedule frame (Job.represents_ofAll actions)).andThen
      fun after later => .value ⟨rfl, later⟩
  | pushFrame frame => exact .value (h.pushFrame frame)
  | queueCommand chain source callback =>
    exact .value ⟨rfl, h.enqueueTop callback (.topLevel chain source)⟩
  | queueCall function source callback =>
    exact .value ⟨rfl, h.enqueueTop callback (.call function _ false source)⟩
  | discard frame => exact .value ⟨rfl, h.discard frame⟩
  | discardFrom depth => exact .value ⟨rfl, h.discardFrom depth⟩
  | charge => exact .value ⟨rfl, h.charge⟩
  | install sink? => exact .value ⟨rfl, h.install sink?⟩
  | trace event => exact .value ⟨rfl, h.trace event⟩
  | fire callback result => exact .value ⟨rfl, h.record _⟩
  | present source error forked => exact .value ⟨rfl, h.present source error forked⟩
  | load => exact .value ⟨h.memory, h⟩
  | store memory => exact .value ⟨rfl, h.store memory⟩
  | mark mark => exact .value ⟨rfl, h.record _⟩

theorem routine (h : ctx'.Represents ctx) (routine : Routine E Unit) :
    Agrees Represents (Checked.routine routine ctx') (some (routine.apply ctx)) := by
  have ran : Agrees (Along Represents) (routine.runChecked Checked.effect ctx')
      (routine.run? (fun op state => some (op.apply state)) ctx) :=
    Script.agrees (fun op _ _ same => same.effect op) routine h
  rw [Script.run?_some] at ran
  exact ran.andThen fun _ related => .value related.2

/-! ## Resolving a chain -/

theorem applyModifier (h : ctx'.Represents ctx) {track : Track E} {apply : Modifier}
    (runs : ∀ source, track.runModifier? source =
      pure (some (apply source, ([.applied source.name] : List (Event E.Mark)))))
    (origin : Source) (forked : Bool) (yielded : Array Source) (sources : List Source) :
    Agrees (Along Represents) (Checked.applyModifier track origin forked yielded sources ctx')
      (some (ctx.applyModifier apply origin forked yielded sources)) := by
  induction sources generalizing yielded ctx' ctx with
  | nil => exact .value ⟨rfl, h⟩
  | cons source rest ih =>
    have applied := h.record [.applied source.name]
    simp only [Checked.applyModifier, Context.applyModifier, runs, pure_bind, Checked.ofOption]
    cases apply source with
    | ok sources =>
      simp only [applied.limits]
      split
      · exact .value ⟨rfl, (applied.notify _).present _ _ _⟩
      · exact ih applied _
    | error error =>
      have presented := applied.present source error forked
      cases forked with
      | true => exact ih presented _
      | false => exact .value ⟨rfl, presented⟩

theorem returnRun (h : ctx'.Represents ctx) {chain next : Chain E}
    (ahead : chain.next? = some next) (origin : Source) (sources : List Source) (flags : Flags)
    (frame : FrameId) :
    Agrees Represents (Checked.returnRun chain.track origin sources flags frame ctx')
      (some ((Executor.returnRun origin sources chain flags frame).apply ctx)) := by
  simp only [Checked.returnRun, Chain.next?_track, ahead, Option.map_some, Checked.ofOption,
    pure_bind, Routine.apply, ← Procedure.run_ofRoutine,
    Procedure.ofRoutine_returnRun origin sources chain next ahead]
  by_cases empty : sources.isEmpty = true
  · by_cases returning : flags.isReturn = true
    · simpa [empty, returning, Effect.apply] using .value (h.enqueue frame .fallthrough)
    · simpa [empty, returning] using .value h
  · have queued := (h.discard frame).enqueue frame
      (.continuation next origin sources flags.setReturn)
    simpa [empty, Effect.apply] using .value queued

/-- Going through the stages ahead of a cursor ends at its terminal, in one round for each of them
and one more. -/
theorem prepare (h : ctx'.Represents ctx) (host : Host E) (origin : Source) (frame : FrameId)
    (input : String) (terminal : Terminal E) (passed ahead : List (Stage E))
    (sources : List Source) (flags : Flags) {rounds : Nat} (enough : ahead.length < rounds)
    {chain : Chain E} (same : chain = { input, passed, ahead, terminal }) :
    Agrees (Reaches chain.atTerminal)
      (Checked.prepare host origin frame rounds chain.track sources flags ctx')
      (some (ctx.prepare host origin frame input terminal passed ahead sources flags)) := by
  induction ahead generalizing passed sources flags rounds chain ctx' ctx with
  | nil =>
    subst same
    obtain ⟨rounds, rfl⟩ := Nat.exists_eq_succ_of_ne_zero (Nat.ne_of_gt enough)
    simp only [Checked.prepare, Chain.isTerminal_track, pure_bind]
    exact .value ⟨rfl, h⟩
  | cons stage rest ih =>
    obtain ⟨rounds, rfl⟩ := Nat.exists_eq_succ_of_ne_zero (Nat.ne_of_gt (Nat.zero_lt_of_lt enough))
    have left : rest.length < rounds := Nat.lt_of_succ_lt_succ enough
    rcases stage with ⟨forked, redirect⟩
    let next : Chain E := { input, passed := ⟨forked, redirect⟩ :: passed, ahead := rest, terminal }
    have moved : chain.next? = some next := by rw [same]; rfl
    have same' : next.atTerminal = chain.atTerminal := by
      simp [same, next, Chain.atTerminal]
    have open' : chain.isTerminal = false := by rw [same]; rfl
    have forks : chain.isForked = forked := by rw [same]; rfl
    have link : chain.link = .redirect ⟨forked, redirect⟩ := by rw [same]; rfl
    simp only [Checked.prepare, Chain.isTerminal_track, Chain.isForked_track, Chain.link_track,
      Chain.next?_track, pure_bind, open', forks, link, moved, Option.map_some, Checked.ofOption,
      Bool.false_eq_true, if_false, Chain.ofTrack?_track]
    -- Whatever the stage makes of the sources, the rounds that are left suffice for the rest.
    have walks {ctx' : Context E.tracked} {ctx : Context E} (h : ctx'.Represents ctx)
        (sources : List Source) :
        Agrees (Reaches chain.atTerminal)
          (Checked.prepare host origin frame rounds next.track sources (flags.forkedIf forked) ctx')
          (some (ctx.prepare host origin frame input terminal (⟨forked, redirect⟩ :: passed) rest
            sources (flags.forkedIf forked))) :=
      same' ▸ ih h _ sources _ left rfl
    cases redirect with
    | passthrough => exact walks h sources
    | modifier apply =>
      have runs (source : Source) : chain.track.runModifier? source =
          pure (some (apply source, ([.applied source.name] : List (Event E.Mark)))) := by
        obtain ⟨answer?, runs, gives, answers⟩ :=
          @Chain.runModifier?_track E.toVocabulary E.Mark chain source
        obtain ⟨answer, rfl⟩ := Option.isSome_iff_exists.mp (answers ⟨forked, apply, link⟩)
        have applies : answer = (apply source, [.applied source.name]) := by
          rw [same] at gives
          exact gives
        rw [runs, applies]
      have applied :=
        h.charge.applyModifier runs origin (flags.forkedIf forked).isForked #[] sources
      refine applied.andThen fun answer' related => ?_
      rcases answer' with ⟨yielded?, after'⟩
      simp only [Context.prepare]
      generalize ctx.charge.applyModifier apply origin (flags.forkedIf forked).isForked #[]
        sources = answer at related
      rcases answer with ⟨_, after⟩
      obtain ⟨rfl, later⟩ := related
      cases yielded? with
      | none => exact .value ⟨rfl, later⟩
      | some yielded => exact walks later yielded
    | returnRun =>
      have returned := h.returnRun moved origin sources (flags.forkedIf forked) frame
      rw [same] at returned ⊢
      exact returned.andThen fun after' later => .value ⟨rfl, later⟩
    | custom code =>
      have done := h.routine (host.redirect code origin sources chain (flags.forkedIf forked) frame)
      rw [same] at done ⊢
      exact done.andThen fun after' later => .value ⟨rfl, later⟩

/-! ## The terminal -/

theorem takeOver (h : ctx'.Represents ctx) (host : Host E) (chain : Chain E) (flags : Flags)
    (frame : FrameId) (sources : List Source) :
    Agrees Represents (Checked.takeOver host chain.track flags frame sources ctx')
      (some (sources.foldl
        (fun ctx source => (Context.takeOver host chain source flags frame).apply ctx) ctx)) := by
  induction sources generalizing ctx' ctx with
  | nil => exact .value h
  | cons source rest ih =>
    simp only [Checked.takeOver, Chain.ofTrack?_track, Checked.ofOption, pure_bind]
    exact (h.routine _).andThen fun after' later => ih later

theorem launch (h : ctx'.Represents ctx) (host : Host E) {chain : Chain E}
    (atEnd : chain.isTerminal = true) (sources : List Source) (flags : Flags) (frame : FrameId) :
    Agrees Represents (Checked.launch host chain.track sources flags frame ctx')
      (some (ctx.launch host chain sources flags frame)) := by
  have link : chain.link = .terminal chain.terminal := by
    simp [Chain.link, List.isEmpty_iff.mp atEnd]
  cases sources with
  | nil =>
    simp only [Checked.launch, Context.launch, List.isEmpty_nil, if_true]
    split
    · exact .value (h.enqueue frame .fallthrough)
    · exact .value h
  | cons first rest =>
    simp only [Checked.launch, Context.launch, List.isEmpty_cons, Bool.false_eq_true, if_false,
      Chain.link_track, link, pure_bind]
    cases kind : chain.terminal with
    | command command =>
      have isCommand : chain.terminal.isCommand = true := by rw [kind]; rfl
      -- What is scheduled here takes along that it is at a command, for when it is executed.
      have scheduled (sources : List Source) :=
        h.scheduleEach frame sources fun source => .resolved flags source atEnd isCommand
      simp only [Terminal.isCommand, if_true, h.frameCallback]
      by_cases returning : flags.isReturn = true
      · simp only [returning, if_true]
        exact scheduled (first.withCallback _ :: rest)
      · simp only [returning, if_false, Bool.false_eq_true]
        exact scheduled (first :: rest)
    | returnValue | returnFailure | call | custom =>
      exact h.takeOver host chain flags frame (first :: rest)

theorem resolve (h : ctx'.Represents ctx) (host : Host E) (chain : Chain E) (origin : Source)
    (sources : List Source) (flags : Flags) (frame : FrameId) :
    Agrees Represents (Checked.resolve host chain.track origin sources flags frame ctx')
      (some (ctx.resolve host chain origin sources flags frame)) := by
  simp only [Checked.resolve, Context.resolve, Chain.isTerminal_track, pure_bind]
  by_cases atEnd : chain.isTerminal = true
  · simp only [atEnd, if_true]
    exact h.launch host atEnd sources flags frame
  · simp only [atEnd, if_false, Bool.false_eq_true]
    have enough : chain.ahead.length < chain.track.links.size := by
      rw [Chain.size_links_track]
      omega
    have opened := h.openScope ("prepare " ++ chain.input)
    refine (opened.prepare host origin frame chain.input chain.terminal chain.passed
      chain.ahead sources flags enough rfl).andThen fun answer' reaches => ?_
    rcases answer' with ⟨prepared', after'⟩
    generalize (ctx.openScope ("prepare " ++ chain.input)).prepare host origin frame chain.input
      chain.terminal chain.passed chain.ahead sources flags = answer at reaches
    rcases answer with ⟨prepared, after⟩
    obtain ⟨rfl, later⟩ := reaches
    cases prepared with
    | none => exact .value later.closeScope
    | some reached =>
      exact later.closeScope.launch host chain.isTerminal_atTerminal reached.1 reached.2 frame

/-! ## The other jobs -/

theorem start (h : ctx'.Represents ctx) (host : Host E) (chain : Chain E) (source : Source)
    (frame : FrameId) :
    Agrees Represents (Checked.start host chain.track source frame ctx')
      (some (ctx.start host chain source frame)) := by
  rw [Checked.start, Context.start, h.frameDepth]
  exact (h.trace _).resolve host chain source [source] .initial frame

/-- Whoever has scheduled it, an execution goes the same way; if it was a resolution, the track is
at a command. -/
theorem executeCommand (h : ctx'.Represents ctx) (chain : Chain E) (flags : Flags)
    (source : Source) {resolved : Bool}
    (command : resolved = true → chain.isTerminal = true ∧ chain.terminal.isCommand = true)
    (frame : FrameId) :
    Agrees Represents (Checked.executeCommand chain.track flags source resolved frame ctx')
      (some (ctx.executeCommand chain flags source frame)) := by
  have charged := (h.openScope ("execute " ++ chain.input)).charge
  obtain ⟨answer?, runs, gives, answers⟩ :=
    @Chain.runExecutable?_track E.toVocabulary E.Mark chain source
  have accepted : Checked.accept resolved answer? = pure (chain.runExecutable source) := by
    rw [← gives]
    cases resolved with
    | false => rfl
    | true =>
      obtain ⟨answer, rfl⟩ := Option.isSome_iff_exists.mp
        (answers (command rfl).1 (command rfl).2)
      rfl
  simp only [Checked.executeCommand, Context.executeCommand, Chain.input_track, runs, pure_bind,
    accepted]
  have executed := charged.record (chain.runExecutable source).2
  cases (chain.runExecutable source : Except CommandError Int32 × List (Event E.Mark)).1 with
  | ok value =>
    simp only [executed.frameDepth]
    exact .value (executed.trace _).closeScope
  | error error => exact .value (executed.present source error flags.isForked).closeScope

theorem callFunction (h : ctx'.Represents ctx) (function : Function E) (callback : Callback)
    (returnParent : Bool) (source : Source) (frame : FrameId) :
    Agrees Represents (Checked.callFunction function callback returnParent source frame ctx')
      (some (ctx.callFunction function callback returnParent source frame)) := by
  simp only [Checked.callFunction, Context.callFunction, h.charge.frameDepth]
  generalize ctx.charge.frameDepth frame = depth
  have told := (h.charge.trace (.called depth function.id function.lines.length)).notify
    (.called function.id depth function.lines.length)
  by_cases empty : function.lines.isEmpty = true
  · simp only [empty, if_true]
    exact .value told
  · simp only [empty, if_false, Bool.false_eq_true, told.scopeOf]
    obtain ⟨id, pushed⟩ := told.pushFrame _
    rw [id]
    exact pushed.scheduleEach _ function.lines (Job.represents_ofLine · source)

theorem fallThrough (h : ctx'.Represents ctx) (frame : FrameId) :
    (ctx'.fallThrough frame).Represents (ctx.fallThrough frame) := by
  rw [Context.fallThrough, Context.fallThrough, h.frameCallback]
  exact discard (h.record _) frame

/-! ## The run loop -/

theorem instruct {perform' : Job E → FrameId → Context E.tracked → Checked (Context E.tracked)}
    {perform : Action E → FrameId → Context E → Option (Context E)}
    {drain' : Context E.tracked → Checked (Outcome × Context E.tracked)}
    {drain : Context E → Option (Outcome × Context E)}
    (performs : ∀ job action frame ctx' ctx, job.Represents action → Represents ctx' ctx →
      Agrees Represents (perform' job frame ctx') (perform action frame ctx))
    (drains : ∀ ctx' ctx, Represents ctx' ctx → Agrees (Along Represents) (drain' ctx') (drain ctx))
    (h : ctx'.Represents ctx) (op : Instruction E) :
    Agrees (Along Represents) (Checked.instruct perform' drain' op ctx')
      (ctx.instruct perform drain op) := by
  cases op with
  | effect effect => exact h.effect effect
  | perform action frame =>
    exact (performs _ _ frame _ _ (Job.represents_of action) h).map fun _ _ later => ⟨rfl, later⟩
  | run => exact drains _ _ h.promote

/-- Jobs are performed and the queue is drained alike.  Both call each other, and so they are
compared in one induction on the fuel. -/
theorem perform_drain (host : Host E) (fuel : Nat) :
    (∀ (job : Job E) action frame ctx' ctx, job.Represents action → Represents ctx' ctx →
      Agrees Represents (Checked.perform host fuel job frame ctx')
        (Context.perform host fuel action frame ctx)) ∧
    (∀ ctx' ctx, Represents ctx' ctx →
      Agrees (Along Represents) (Checked.drain host fuel ctx') (Context.drain host fuel ctx)) := by
  induction fuel with
  | zero => exact ⟨fun _ _ _ _ _ _ _ => .outOfFuel, fun _ _ _ => .outOfFuel⟩
  | succ fuel ih =>
    rcases ih with ⟨performs, drains⟩
    have runs {ctx' : Context E.tracked} {ctx : Context E} (h : ctx'.Represents ctx)
        (program : Program E Unit) :
        Agrees Represents
          (do
            return (← program.runChecked
              (Checked.instruct (Checked.perform host fuel) (Checked.drain host fuel)) ctx').2)
          ((program.run? (Context.instruct (Context.perform host fuel) (Context.drain host fuel))
            ctx).map (·.2)) :=
      (Script.agrees (fun op _ _ related => related.instruct performs drains op) program h).map
        fun _ _ related => related.2
    refine ⟨?_, ?_⟩
    · intro job action frame ctx' ctx same h
      cases same with
      | topLevel chain source => exact h.start host chain source frame
      | continuation chain origin sources flags =>
        exact h.resolve host chain origin sources flags frame
      | fallthrough => exact .value (h.fallThrough frame)
      | fanOut same => exact h.expand frame same
      | task code => exact runs h _
      | line chain source => exact h.start host chain source frame
      | customLine code source => exact runs h _
      | execute chain flags source =>
        exact h.executeCommand chain flags source (fun no => absurd no Bool.false_ne_true) frame
      | resolved flags source atEnd isCommand =>
        exact h.executeCommand _ flags source (fun _ => ⟨atEnd, isCommand⟩) frame
      | call function callback returnParent source =>
        exact h.callFunction function callback returnParent source frame
    · intro ctx' ctx h
      -- Nothing but jobs is ever queued, so whatever is taken can be performed.
      rw [Checked.drain, Context.drain, h.quota, h.limits]
      split
      · exact .value ⟨rfl, Represents.finish (h.notify _) _⟩
      · rcases h.pop? with ⟨none', none⟩ |
          ⟨entry', entry, started', started, popped', popped, same, h⟩
        · rw [none', none]
          exact .value ⟨rfl, h.finish _⟩
        · rcases same.action with ⟨job, isJob, same'⟩
          simp only [popped', popped, isJob, same.frame]
          have performed := performs job entry.action entry.frame started' started same' h
          generalize Checked.perform host fuel job entry.frame started' = x at performed ⊢
          generalize Context.perform host fuel entry.action entry.frame started = y at performed ⊢
          cases performed with
          | outOfFuel => exact .outOfFuel
          | value later =>
            have settled := later.settle entry.frame
            simp only [bind, Except.bind, settled.overflowed, settled.limits]
            split
            · exact .value ⟨rfl, Represents.finish (settled.notify _) _⟩
            · exact drains _ _ settled.promote

/-- Whatever a program asks for, the checked run and the run end alike. -/
theorem runProgram {α : Type} (h : ctx'.Represents ctx) (host : Host E) (program : Program E α)
    (fuel : Nat) :
    Agrees (Along Represents) (Checked.runProgram host fuel program ctx')
      (ctx.runProgram host fuel program) := by
  obtain ⟨performs, drains⟩ := perform_drain host fuel
  exact Script.agrees (fun op _ _ related => related.instruct performs drains op) program h

end Context.Represents

/-! ## Tracks and runs -/

/-- What comes out of a builder is at one of its links, has its only terminal at the end, and can be
moved on everywhere but there; and each cursor comes out of one.  So no look-up of a run ever
misses, its resolutions end at a terminal, and the scheduler runs no link in a way that it does not
support: the checked run never faults, and it ends as the run on cursors does. -/
theorem indices_in_range (host : Host E) (limits : Limits) (memory : E.Memory)
    (profiler : Profiler) :
    (∀ track : Track E, track.Obtained →
      track.position < track.links.size ∧
      (∀ i link, track.links[i]? = some link →
        (link.isTerminal = true ↔ i + 1 = track.links.size)) ∧
      (track.next? = none ↔ track.isTerminal = pure true) ∧
      ∃! chain : Chain E, chain.track = track) ∧
    (∀ chain : Chain E, chain.track.Obtained) ∧
    ∀ {α : Type} (program : Program E α) (fuel : Nat),
      let checked := Checked.runProgram host fuel program (.create limits memory profiler)
      (∀ fault, checked ≠ .error (.fault fault)) ∧
      Checked.Agrees (Checked.Along Context.Represents) checked
        ((Context.create limits memory profiler).runProgram host fuel program) := by
  refine ⟨?_, Chain.obtained_track, ?_⟩
  · intro track obtained
    obtain ⟨chain, rfl⟩ := Track.obtained_iff.mp obtained
    refine ⟨chain.position_lt_size, fun i link found => chain.isTerminal_iff_last found, ?_, chain,
      rfl, fun other same => Chain.track_injective same⟩
    rw [Chain.next?_track, Option.map_eq_none_iff, chain.next?_eq_none_iff, Chain.isTerminal_track]
    exact ⟨fun atEnd => congrArg pure atEnd, fun same => Except.ok.inj same⟩
  · intro α program fuel
    have agrees := (Context.represents_create limits memory profiler).runProgram host program fuel
    exact ⟨agrees.no_fault, agrees⟩

/-- A track without a terminal, which no builder gives, does fault. -/
example (host : Host E) (ctx : Context E.tracked) (source : Source) (frame : FrameId) :
    let stage : Stage E := { redirect := .passthrough }
    let unfinished : Track E := { input := "as", links := #[.redirect stage], position := 0 }
    Checked.start host unfinished source frame ctx = .error (.fault .noNext) :=
  rfl

/-- A track of a fork and a command, moved on to the command, and a run of its chain for one source,
which the fork turns into three. -/
theorem indices_in_range_of_fork :
    ∃ (track : Track Embedding.bare) (chain : Chain Embedding.bare)
        (program : Program .bare Outcome) (final' : Context Embedding.bare.tracked)
        (final : Context .bare),
      track.Obtained ∧ track.position < track.links.size ∧ chain.track.next? = some track ∧
      track.next? = none ∧
      (∀ i link, track.links[i]? = some link → (link.isTerminal = true ↔ i = 1)) ∧
      Checked.runProgram .bare 16 program (.create {} () .off) = .ok (.completed, final') ∧
      (Context.create {} () .off).runProgram .bare 16 program = some (.completed, final) ∧
      final'.Represents final ∧ final.log.size = 7 := by
  let triple : Modifier := fun _ => .ok [.named "bo", .named "cy", .named "di"]
  let say : Command := { run := fun _ => .ok 1 }
  let begun : Track Embedding.bare := ((Builder.start "split say").fork triple).execute say
  let track : Track Embedding.bare := { begun with position := 1 }
  let chain : Chain Embedding.bare :=
    .ofStages "split say" [{ forked := true, redirect := .modifier triple }] (.command say)
  let program : Program .bare Outcome := do
    Program.ofRoutine (.effect (.queueCommand chain (.named "alex") .empty))
    Program.run
  have obtained : track.Obtained := .next (.execute say (.fork triple (.start _))) rfl
  obtain ⟨tracks, -, runs⟩ := indices_in_range .bare {} () .off
  obtain ⟨inside, ends, last, -⟩ := tracks track obtained
  have second (i : Nat) (link : Link Embedding.bare) (found : track.links[i]? = some link) :
      link.isTerminal = true ↔ i = 1 :=
    (ends i link found).trans Nat.succ_inj
  obtain ⟨-, agrees⟩ := runs program 16
  -- The fork writes one event, and each of the three commands two.
  have ran : ((Context.create {} () .off).runProgram .bare 16 program).map
      (fun result => (result.1, result.2.log.size)) = some (.completed, 7) := by
    decide +kernel
  rcases Option.map_eq_some_iff.mp ran with ⟨⟨outcome, final⟩, ran, eq⟩
  rcases Prod.mk.inj eq with ⟨rfl, size⟩
  rw [ran] at agrees
  obtain ⟨⟨outcome', final'⟩, checked, rfl, related⟩ := agrees.exists_value
  exact ⟨track, chain, program, final', final, obtained, inside, rfl, last.mpr rfl, second, checked,
    ran, related, size⟩

end CommandScheduler
