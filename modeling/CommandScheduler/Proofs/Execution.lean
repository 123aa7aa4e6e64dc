import CommandScheduler.Proofs.Charges
import CommandScheduler.Proofs.Refinement
import CommandScheduler.Proofs.Resolution
import CommandScheduler.Proofs.Room

/-!
# Execution — for whom the command of a chain is executed

A chain whose stages only replace sources leaves a block of executions, one for each source that has
survived its stages, or a fan-out that brings them in.  The block is worked off from the front as
long as there is quota; each execution takes one unit, and nothing else in the block takes any.  So
the sources for which the command is executed are as many of the survivors as there are units left,
and what a run shows and costs can be said in advance.
-/

namespace CommandScheduler

/-! ## What an execution shows -/

/-- What the callback of a source hears of a command. -/
def Command.result (command : Command) (source : Source) : Result :=
  match command.run source with
  | .ok value => .success value
  | .error _ => .failure

/-- What executing a command for a source shows.  The source's callback hears the result; then the
sink hears the value, or the error is presented to the source. -/
def Setting.performance {Mark : Type} (setting : Setting) (depth : Nat) (input : String)
    (command : Command) (forked : Bool) (source : Source) : List (Event Mark) :=
  (if command.quiet then [] else [.executed source.name]) ++
    source.callback.fire (command.result source) ++
    match command.run source with
    | .ok value => setting.traced (.returned depth input value)
    | .error error => setting.presented source error forked

/-! ## Spending -/

/-- A unit that is left can be taken. -/
theorem Quota.remaining_charge {quota : Quota} (funded : quota.isExhausted = false) :
    quota.charge.remaining = quota.remaining - 1 := by
  have some : ¬ quota.remaining ≤ 0 := by
    rw [← Quota.isExhausted_iff, funded]
    exact Bool.false_ne_true
  simp only [charge, least]
  omega

namespace Tape

variable {Mark : Type} (tape : Tape Mark)

/-- The tape after some charges, with those of the events that are observable. -/
def spend (charges : Nat) (events : List (Event Mark)) : Tape Mark :=
  { quota := Quota.charge^[charges] tape.quota
    events := tape.events ++ events.filter Event.isObservable }

@[simp]
theorem spend_nothing : tape.spend 0 [] = tape := by
  simp [spend]

theorem spend_spend (charges charges' : Nat) (events events' : List (Event Mark)) :
    (tape.spend charges events).spend charges' events' =
      tape.spend (charges + charges') (events ++ events') := by
  simp [spend, ← Function.iterate_add_apply, Nat.add_comm charges']

theorem write_eq_spend (events : List (Event Mark)) : tape.write events = tape.spend 0 events := rfl

/-- As many of the sources, from the first on, as there are units left. -/
def affords (sources : List Source) : List Source :=
  sources.take tape.quota.remaining.toNat

/-- The tape after one unit has been spent on each source that it affords. -/
def serve (shows : Source → List (Event Mark)) (sources : List Source) : Tape Mark :=
  tape.spend (tape.affords sources).length ((tape.affords sources).flatMap shows)

variable {tape}

theorem affords_of_exhausted (exhausted : tape.quota.isExhausted = true) (sources : List Source) :
    tape.affords sources = [] := by
  rw [Quota.isExhausted_iff] at exhausted
  simp [affords, Int.toNat_of_nonpos exhausted]

theorem affords_cons (funded : tape.quota.isExhausted = false) (source : Source)
    (sources : List Source) (events : List (Event Mark)) :
    tape.affords (source :: sources) = source :: (tape.spend 1 events).affords sources := by
  have some : ¬ tape.quota.remaining ≤ 0 := by
    rw [← Quota.isExhausted_iff, funded]
    exact Bool.false_ne_true
  have units : tape.quota.remaining.toNat = (tape.quota.remaining - 1).toNat + 1 := by omega
  rw [affords, units, List.take_succ_cons]
  simp [affords, spend, Quota.remaining_charge funded]

theorem serve_of_exhausted (exhausted : tape.quota.isExhausted = true)
    (shows : Source → List (Event Mark)) (sources : List Source) :
    tape.serve shows sources = tape := by
  simp [serve, affords_of_exhausted exhausted]

theorem serve_cons (funded : tape.quota.isExhausted = false) (shows : Source → List (Event Mark))
    (source : Source) (sources : List Source) :
    tape.serve shows (source :: sources) = (tape.spend 1 (shows source)).serve shows sources := by
  rw [serve, affords_cons funded source sources (shows source), serve, spend_spend,
    List.length_cons, Nat.add_comm, List.flatMap_cons]

end Tape

theorem Setting.execute_eq_spend {Mark : Type} (setting : Setting) (body : Body) (input : String)
    (command : Command) (flags : Flags) (source : Source) (tape : Tape Mark) :
    (setting.execute body input command flags source tape).1 =
      tape.spend 1 (setting.performance body.depth input command flags.isForked source) := by
  cases run : command.run source <;> cases quiet : command.quiet <;>
    simp [execute, performance, Command.execute, Command.result, run, quiet, Tape.spend,
      Tape.write, Tape.charge, List.filter_cons, Event.isObservable]

variable {E : Embedding}

/-! ## Executions among the entries started -/

/-- The source for which an action executes a command. -/
def Action.executedFor? {V : Vocabulary} : Action V → Option Source
  | .execute _ _ source => some source
  | _ => none

/-- The sources for which commands have been executed. -/
def executed (starts : List (Start E)) : List Source :=
  starts.filterMap (·.entry.action.executedFor?)

theorem executed_append (starts starts' : List (Start E)) :
    executed (starts ++ starts') = executed starts ++ executed starts' :=
  List.filterMap_append

theorem executed_of_actions {starts : List (Start E)} {actions : List (Action E)}
    (eq : starts.map (·.entry.action) = actions) :
    executed starts = actions.filterMap Action.executedFor? := by
  rw [← eq, List.filterMap_map]
  rfl

/-! ## Blocks of a frame -/

namespace Scene

/-- Between two turns, a block of a frame's actions is pending in front of the rest. -/
structure Awaits (scene : Scene E) (running : List FrameId) (frame : Frame) (id : FrameId)
    (tape : Tape E.Mark) (block : List (Action E)) (rest : List (Entry E)) (ctx : Context E) :
    Prop where
  poised : Poised running scene.limits scene.sink? tape (frame.entries id block ++ rest) ctx
  live : block ≠ [] → ctx.frame? id = some frame

/-- Some turns have executed commands for these sources, and what is left of the block, if anything,
waits for quota. -/
structure Served (scene : Scene E) (running : List FrameId) (frame : Frame) (id : FrameId)
    (tape : Tape E.Mark) (rest : List (Entry E)) (sources : List Source) (starts : List (Start E))
    (ctx : Context E) : Prop where
  executed : executed starts = sources
  left : ∃ block, scene.Awaits running frame id tape block rest ctx ∧
    (tape.quota.isExhausted = false → block = [])

/-- Wherever an entry of the frame starts with this tape in front of the rest, the procedure does
what the sketch shows, if there is room. -/
def Performs (scene : Scene E) (running : List FrameId) (frame : Frame) (id : FrameId)
    (tape : Tape E.Mark) (rest : List (Entry E)) (room : Prop) (procedure : Procedure E Unit)
    (sketch : Sketch E) : Prop :=
  ∀ callee started,
    let site := scene.site frame id callee rest
    ({ tape } : Sketch E).Depicts site running started →
      sketch.Mirrors room site running (procedure.apply started)

variable {scene : Scene E} {running : List FrameId} {frame : Frame} {id : FrameId}
  {tape : Tape E.Mark} {action : Action E} {block : List (Action E)} {rest : List (Entry E)}
  {ctx : Context E} {room : Prop} {sketch : Sketch E} {procedure : Procedure E Unit}

theorem Performs.of_run
    (run : ∀ callee, procedure.run? (scene.site frame id callee rest).draw { tape } =
      some ((), sketch))
    (fits : room → sketch.staged = [] ∨
      sketch.staged.length + rest.length ≤ scene.limits.maxQueueDepth + 1) :
    scene.Performs running frame id tape rest room procedure sketch := by
  intro callee started site depicts
  refine depicts.mirrors (run callee) ?_
  intro free
  exact (fits free).elim depicts.fits_of_unstaged fun le => le

namespace Awaits

/-- Without quota nothing is done. -/
theorem idle (h : scene.Awaits running frame id tape block rest ctx)
    (exhausted : tape.quota.isExhausted = true) :
    scene.Served running frame id tape rest [] [] ctx :=
  ⟨rfl, block, h, fun funded => by simp [exhausted] at funded⟩

/-- The first action of a block is performed in one turn. -/
theorem goes (h : scene.Awaits running frame id tape (action :: block) rest ctx)
    (funded : tape.quota.isExhausted = false) (own : action.work scene.host id = .own procedure)
    (performs : scene.Performs running frame id tape (frame.entries id block ++ rest) room procedure
      sketch)
    (callee : sketch.callee? = none) :
    ctx.Goes scene.host room fun starts next =>
      starts.map (·.entry.action) = [action] ∧
      Poised running scene.limits scene.sink? sketch.tape
        (frame.entries id sketch.staged ++
          sketch.flow.prune frame.scope (frame.entries id block ++ rest)) next ∧
      (sketch.staged ≠ [] → next.frame? id = some frame) := by
  let entry : Entry E := { depth := frame.depth, frame := id, action }
  have site : ctx.site frame entry (frame.entries id block ++ rest) =
      scene.site frame id ⟨ctx.frames.next⟩ (frame.entries id block ++ rest) := by
    simp [Context.site, Scene.site, h.poised.limits, h.poised.sink, entry]
  have target : (ctx.site frame entry (frame.entries id block ++ rest)).target sketch =
      (id, frame) := by
    simp [Site.target, callee, Context.site, entry]
  have start : Poised running scene.limits scene.sink? tape
      (entry :: (frame.entries id block ++ rest)) ctx := h.poised
  have turned := start.goes (h.live (List.cons_ne_nil _ _)) funded own
    (site ▸ performs ⟨ctx.frames.next⟩)
  simp only [Site.entries, target] at turned
  refine turned.imp ?_
  rintro starts next ⟨entries, poised, live⟩
  refine ⟨?_, poised, live⟩
  have actions := congrArg (List.map Entry.action) entries
  simpa [Function.comp_def] using actions

/-- Unless the action rolls its frame back, what it queues stands in front of the rest of the block.
-/
theorem turn (h : scene.Awaits running frame id tape (action :: block) rest ctx)
    (funded : tape.quota.isExhausted = false) (own : action.work scene.host id = .own procedure)
    (performs : scene.Performs running frame id tape (frame.entries id block ++ rest) room procedure
      sketch)
    (callee : sketch.callee? = none) (goesOn : sketch.flow = .goesOn) :
    ctx.Goes scene.host room fun starts next =>
      starts.map (·.entry.action) = [action] ∧
      scene.Awaits running frame id sketch.tape (sketch.staged ++ block) rest next := by
  refine (h.goes funded own performs callee).bind ?_
  rintro starts next turns ⟨actions, poised, live⟩
  have pending : frame.entries id sketch.staged ++
        sketch.flow.prune frame.scope (frame.entries id block ++ rest) =
      frame.entries id (sketch.staged ++ block) ++ rest := by
    simp [goesOn, Flow.prune, Frame.entries]
  rw [pending] at poised
  refine .refl ⟨by simpa using actions, poised, ?_⟩
  intro some
  cases staged : sketch.staged with
  | cons => exact live (by simp [staged])
  | nil =>
    -- Nothing new is queued, but the rest of the block has waited all the time.
    rcases List.exists_cons_of_ne_nil some with ⟨first, others, cons⟩
    rw [staged, List.nil_append] at cons
    let entry : Entry E := { depth := frame.depth, frame := id, action := first }
    have before : entry ∈ ctx.waiting := by
      simp [Context.waiting, h.poised.pending, Frame.entries, cons, entry]
    have after : entry ∈ next.waiting := by
      simp [Context.waiting, poised.pending, Frame.entries, staged, cons, entry]
    have evolves := h.poised.accounted.leads (.turns turns)
    have same := h.poised.accounted.frame?_of_waiting evolves before after
    exact same.trans (h.live (List.cons_ne_nil _ _))

end Awaits

/-- What has been served in an earlier turn. -/
theorem Served.after {sources : List Source} {starts starts' : List (Start E)}
    (h : scene.Served running frame id tape rest sources starts' ctx)
    (actions : starts.map (·.entry.action) = [action]) :
    scene.Served running frame id tape rest (action.executedFor?.toList ++ sources)
      (starts ++ starts') ctx := by
  refine ⟨?_, h.left⟩
  rw [executed_append, executed_of_actions actions, h.executed]
  cases source : action.executedFor? <;> simp [source]

/-! ## Executions -/

section Executions

variable {chain : Chain E} {command : Command}

theorem native_executions (atEnd : chain.ahead = []) (kind : chain.terminal = .command command)
    (flags : Flags) (sources : List Source) :
    nativeActions (sources.map (Action.execute chain flags) : List (Action E)) = true := by
  rw [nativeActions_eq_true_iff]
  intro action mem
  rcases List.mem_map.mp mem with ⟨source, -, rfl⟩
  simp [Action.isNative, Chain.isTerminal, atEnd, kind, Terminal.isCommand]

/-- A block of executions, at the end of which there may be a fan-out, is worked off from the front
as long as there is quota. -/
theorem Awaits.executes (atEnd : chain.ahead = []) (kind : chain.terminal = .command command)
    (flags : Flags) (now later : List Source) {tape : Tape E.Mark} {ctx : Context E}
    (h : scene.Awaits running frame id tape
      (now.map (.execute chain flags) ++ bundled (later.map (.execute chain flags))) rest ctx) :
    let shows := scene.setting.performance frame.depth chain.input command flags.isForked
    ctx.Goes scene.host (rest.length < scene.limits.maxQueueDepth)
      (scene.Served running frame id (tape.serve shows (now ++ later)) rest
        (tape.affords (now ++ later))) := by
  intro shows
  cases exhausted : tape.quota.isExhausted with
  | true =>
    rw [Tape.serve_of_exhausted exhausted, Tape.affords_of_exhausted exhausted]
    exact .refl (h.idle exhausted)
  | false =>
    match now, later with
    | [], [] =>
      refine .refl ⟨by simp [executed, Tape.affords], [], ?_, fun _ => rfl⟩
      simpa [Tape.serve, Tape.affords, bundled] using h
    | source :: now, later =>
      -- An execution queues nothing, so the others stand in front after it.
      let block : List (Action E) :=
        now.map (.execute chain flags) ++ bundled (later.map (.execute chain flags))
      have performs : scene.Performs running frame id tape (frame.entries id block ++ rest)
          (rest.length < scene.limits.maxQueueDepth) (.executeCommand chain flags source id)
          { tape := tape.spend 1 (shows source) } := by
        refine .of_run ?_ fun _ => .inl rfl
        intro callee
        let site := scene.site frame id callee (frame.entries id block ++ rest)
        have run := site.run?_executeCommand chain command atEnd kind flags source tape
        rwa [Setting.execute_eq_spend] at run
      refine (h.turn exhausted rfl performs rfl rfl).bind ?_
      rintro starts next - ⟨actions, awaits⟩
      rw [List.cons_append, Tape.serve_cons exhausted,
        Tape.affords_cons exhausted source _ (shows source)]
      exact (awaits.executes atEnd kind flags now later).imp fun _ _ served => served.after actions
    | [], next :: later =>
      -- The expansion is free, and leaves one execution in front of a shorter fan-out.
      let execute : Source → Action E := .execute chain flags
      have native : (Action.fanOut (execute next) (later.map execute)).isNative = true :=
        native_executions atEnd kind flags (next :: later)
      have short : (execute next :: bundled (later.map execute)).length ≤ 2 := by
        cases later <;> simp [bundled]
      have performs : scene.Performs running frame id tape rest
          (rest.length < scene.limits.maxQueueDepth)
          (.expand (execute next) (later.map execute) id)
          { tape, staged := execute next :: bundled (later.map execute) } := by
        refine .of_run (fun callee => Site.run?_expand _ _ _ native tape) fun free => .inr ?_
        change (execute next :: bundled (later.map execute)).length + rest.length ≤ _
        omega
      refine (h.turn exhausted rfl performs rfl rfl).bind ?_
      rintro starts next' - ⟨actions, awaits⟩
      rw [List.append_nil] at awaits
      exact (awaits.executes atEnd kind flags [next] later).imp
        fun _ _ served => served.after actions
  termination_by (later.length, now.length)

/-- Scheduled executions are worked off in the same way, however many there are. -/
theorem Awaits.schedules (atEnd : chain.ahead = []) (kind : chain.terminal = .command command)
    (flags : Flags) (sources : List Source)
    (h : scene.Awaits running frame id tape (fan (sources.map (.execute chain flags))) rest ctx) :
    let shows := scene.setting.performance frame.depth chain.input command flags.isForked
    ctx.Goes scene.host (rest.length < scene.limits.maxQueueDepth)
      (scene.Served running frame id (tape.serve shows sources) rest (tape.affords sources)) := by
  match sources with
  | [] => exact Awaits.executes atEnd kind flags [] [] h
  | [first] => exact Awaits.executes atEnd kind flags [first] [] h
  | [first, second] => exact Awaits.executes atEnd kind flags [first, second] [] h
  | first :: second :: third :: rest =>
    exact Awaits.executes atEnd kind flags [] (first :: second :: third :: rest) h

end Executions

end Scene

/-! ## Resolutions -/

/-- What is queued when a chain comes to its command with some sources. -/
def Frame.launched (frame : Frame) (chain : Chain E) (flags : Flags) (sources : List Source) :
    List (Action E) :=
  if sources.isEmpty then
    if flags.isReturn then [.fallthrough] else []
  else
    fan ((frame.body.rebind flags sources).map (.execute chain flags))

theorem length_fan_le {V : Vocabulary} (actions : List (Action V)) : (fan actions).length ≤ 2 := by
  unfold fan
  split <;> simp

theorem Frame.length_launched_le (frame : Frame) (chain : Chain E) (flags : Flags)
    (sources : List Source) : (frame.launched chain flags sources).length ≤ 2 := by
  unfold launched
  split
  · split <;> simp
  · exact length_fan_le _

namespace Sketch.Depicts

variable {site : Site E} {running : List FrameId} {tape : Tape E.Mark} {ctx : Context E}
  {chain : Chain E} {command : Command} {room : Prop}

theorem resolvedBy (h : ({ tape } : Sketch E).Depicts site running ctx)
    (resolved : Resolved E.Mark) :
    ({ tape := tape.spend resolved.charges resolved.events } : Sketch E).Depicts site running
      (ctx.resolvedBy resolved) := by
  have evolves : ctx.Evolves (site.id :: running) (ctx.resolvedBy resolved) :=
    h.accounted.congr rfl rfl rfl rfl rfl
  exact { h with
    accounted := evolves.accounted
    quota := congrArg (Quota.charge^[resolved.charges]) h.quota
    events := by simp [Context.resolvedBy, Tape.spend, h.events] }

theorem launch (h : ({ tape } : Sketch E).Depicts site running ctx) (host : Host E)
    (atEnd : chain.ahead = []) (kind : chain.terminal = .command command) (flags : Flags)
    (sources : List Source) (free : room → site.rest.length < site.limits.maxQueueDepth) :
    ({ tape, staged := site.frame.launched chain flags sources } : Sketch E).Mirrors room site
      running (ctx.launch host chain sources flags site.id) := by
  have native : chain.terminal.isNative = true := by simp [kind, Terminal.isNative]
  have run := site.run?_launch host chain (List.isEmpty_iff.mpr atEnd) native sources flags tape
  have launched : site.launched chain sources flags tape =
      { tape, staged := site.frame.launched chain flags sources } := by
    unfold Site.launched Frame.launched
    split
    · rfl
    · simp only [kind]
      rfl
  rw [launched] at run
  rw [← Procedure.apply_launch]
  refine h.mirrors run fun some => ?_
  have short := site.frame.length_launched_le chain flags sources
  have free := free some
  change (site.frame.launched chain flags sources).length + site.rest.length ≤ _
  omega

/-- Resolving a chain whose stages only replace sources. -/
theorem resolve (h : ({ tape } : Sketch E).Depicts site running ctx) (host : Host E)
    (plain : chain.ahead.all (·.redirect.isPlain) = true)
    (kind : chain.terminal = .command command) (origin : Source) (sources : List Source)
    (flags : Flags) (free : room → site.rest.length < site.limits.maxQueueDepth) :
    let last : Resolved E.Mark := site.setting.resolved origin flags sources chain.ahead.reverse
    let raised := flags.forkedIf (chain.ahead.any (·.forked))
    ({ tape := tape.spend last.charges last.events
       staged := (last.sources?.map (site.frame.launched chain.atTerminal raised)).getD [] } :
        Sketch E).Mirrors room site running
      (ctx.resolve host chain origin sources flags site.id) := by
  intro last raised
  cases atEnd : chain.isTerminal with
  | true =>
    -- No stage is left to pass through.
    have none : chain.ahead = [] := List.isEmpty_iff.mp atEnd
    have same : chain.atTerminal = chain := by
      rcases chain with ⟨input, passed, ahead, terminal⟩
      cases none
      rfl
    have launches := h.launch host none kind flags sources free
    simpa [Context.resolve, atEnd, last, raised, none, same, Setting.resolved, Flags.forkedIf]
      using launches
  | false =>
    let scope := ctx.openScope ("prepare " ++ chain.input)
    have opened : ({ tape } : Sketch E).Depicts site running scope :=
      h.profile _ (ctx.profiler.enter_unseen ("prepare " ++ chain.input))
    have resolved : scope.resolution origin flags sources chain.ahead.reverse = last := by
      rw [Context.resolution, opened.setting]
    have walked : ({ tape := tape.spend last.charges last.events } : Sketch E).Depicts site running
        (scope.resolvedBy last).closeScope :=
      (opened.resolvedBy last).profile _ (scope.resolvedBy last).profiler.leave_unseen
    simp only [Context.resolve, atEnd, Bool.false_eq_true, if_false]
    rw [Context.prepare_eq _ host plain, resolved]
    cases left : last.sources? with
    | none => exact .inr walked
    | some reached =>
      have ended : chain.atTerminal.ahead = [] := rfl
      exact walked.launch host ended kind raised reached free

end Sketch.Depicts

theorem Frame.launched_of_unreturning (frame : Frame) (chain : Chain E) {flags : Flags}
    (unreturning : flags.isReturn = false) (sources : List Source) :
    frame.launched chain flags sources = fan (sources.map (.execute chain flags)) := by
  cases sources <;> simp [launched, unreturning, Body.rebind, fan]

/-- The action starts the chain for the source, as a command or as a line of a function. -/
inductive Action.Starts {V : Vocabulary} (chain : Chain V) (source : Source) : Action V → Prop where
  | topLevel : Starts chain source (.topLevel chain source)
  | line : Starts chain source (.line (.chain chain) source)

namespace Action.Starts

variable {chain : Chain E} {source : Source} {action : Action E}

theorem work (h : action.Starts chain source) (host : Host E) (id : FrameId) :
    action.work host id = .own (.start host chain source id) := by
  cases h <;> rfl

theorem executedFor? (h : action.Starts chain source) : action.executedFor? = none := by
  cases h <;> rfl

end Action.Starts

/-- Starting a chain is telling the sink of it and then resolving it. -/
theorem Sketch.Depicts.start {scene : Scene E} {running : List FrameId} {frame : Frame}
    {id callee : FrameId} {rest : List (Entry E)} {sketch : Sketch E} {ctx : Context E}
    (h : sketch.Depicts (scene.site frame id callee rest) running ctx) (host : Host E)
    (chain : Chain E) (source : Source) :
    (Procedure.start host chain source id).apply ctx =
      (ctx.record (scene.setting.traced (.command frame.depth chain.input))).resolve host chain
        source [source] .initial id := by
  have live : ctx.frame? id = some frame := h.frame
  have depth : ctx.frameDepth id = frame.depth := by simp [Context.frameDepth, live]
  rw [Procedure.apply_start, Context.start, Context.trace_eq, h.setting, depth]
  rfl

namespace Scene.Awaits

variable {scene : Scene E} {running : List FrameId} {frame : Frame} {id : FrameId}
  {tape : Tape E.Mark} {action : Action E} {rest : List (Entry E)} {ctx : Context E}
  {chain : Chain E} {command : Command} {source : Source}

/-- An action that resolves a chain leaves the executions for the sources that survive. -/
theorem resolves (h : scene.Awaits running frame id tape [action] rest ctx)
    (funded : tape.quota.isExhausted = false) {procedure : Procedure E Unit}
    (own : action.work scene.host id = .own procedure) {before : List (Event E.Mark)}
    {origin : Source} {sources : List Source} {flags : Flags}
    (resolve : ∀ callee started,
      ({ tape } : Sketch E).Depicts (scene.site frame id callee rest) running started →
        procedure.apply started =
          (started.record before).resolve scene.host chain origin sources flags id)
    (plain : chain.ahead.all (·.redirect.isPlain) = true)
    (kind : chain.terminal = .command command) :
    let last : Resolved E.Mark := scene.setting.resolved origin flags sources chain.ahead.reverse
    let raised := flags.forkedIf (chain.ahead.any (·.forked))
    ctx.Goes scene.host (rest.length < scene.limits.maxQueueDepth) fun starts next =>
      starts.map (·.entry.action) = [action] ∧
      scene.Awaits running frame id (tape.spend last.charges (before ++ last.events))
        ((last.sources?.map (frame.launched chain.atTerminal raised)).getD []) rest next := by
  intro last raised
  have performs : scene.Performs running frame id tape rest
      (rest.length < scene.limits.maxQueueDepth) procedure
      { tape := tape.spend last.charges (before ++ last.events)
        staged := (last.sources?.map (frame.launched chain.atTerminal raised)).getD [] } := by
    intro callee started site depicts
    have tapes : (tape.write before).spend last.charges last.events =
        tape.spend last.charges (before ++ last.events) := by
      rw [Tape.write_eq_spend, Tape.spend_spend, Nat.zero_add]
    rw [resolve callee started depicts, ← tapes]
    exact (depicts.record before).resolve scene.host plain kind origin sources flags fun free =>
      free
  have turned := h.turn funded own performs rfl rfl
  simpa only [List.append_nil] using turned

/-- A chain whose stages only replace sources is started: its command is executed for as many of the
survivors as there are units left after the resolution. -/
theorem starts (h : scene.Awaits running frame id tape [action] rest ctx)
    (funded : tape.quota.isExhausted = false) (starts : action.Starts chain source)
    (plain : chain.ahead.all (·.redirect.isPlain) = true)
    (kind : chain.terminal = .command command) :
    let last : Resolved E.Mark :=
      scene.setting.resolved source .initial [source] chain.ahead.reverse
    let resolved := tape.spend last.charges
      (scene.setting.traced (.command frame.depth chain.input) ++ last.events)
    let shows := scene.setting.performance frame.depth chain.input command
      (chain.ahead.any (·.forked))
    ctx.Goes scene.host (rest.length < scene.limits.maxQueueDepth)
      (scene.Served running frame id (resolved.serve shows (last.sources?.getD [])) rest
        (resolved.affords (last.sources?.getD []))) := by
  intro last resolved shows
  let raised := Flags.initial.forkedIf (chain.ahead.any (·.forked))
  have isForked : raised.isForked = chain.ahead.any (·.forked) :=
    Flags.isForked_forkedIf _ _
  have unreturning : raised.isReturn = false := Flags.isReturn_forkedIf _ _
  have first : ctx.Goes scene.host (rest.length < scene.limits.maxQueueDepth) fun before next =>
      before.map (·.entry.action) = [action] ∧
      scene.Awaits running frame id resolved
        ((last.sources?.map (frame.launched chain.atTerminal raised)).getD []) rest next :=
    h.resolves funded (starts.work scene.host id)
      (fun callee started depicts => depicts.start scene.host chain source) plain kind
  refine first.bind ?_
  rintro before next - ⟨actions, awaits⟩
  have served (sources : List Source)
      (awaits : scene.Awaits running frame id resolved
        (fan (sources.map (.execute chain.atTerminal raised))) rest next) :
      next.Goes scene.host (rest.length < scene.limits.maxQueueDepth) fun later =>
        scene.Served running frame id (resolved.serve shows sources) rest
          (resolved.affords sources) (before ++ later) := by
    have schedules := awaits.schedules (rfl : chain.atTerminal.ahead = []) kind raised sources
    rw [isForked] at schedules
    refine schedules.imp fun later final served => ?_
    have all := served.after actions
    rwa [starts.executedFor?] at all
  cases left : last.sources? with
  | none =>
    rw [left] at awaits
    exact served [] awaits
  | some survivors =>
    rw [left, Option.map_some, Option.getD_some,
      Frame.launched_of_unreturning frame _ unreturning] at awaits
    exact served survivors awaits

end Scene.Awaits
end CommandScheduler
