import CommandScheduler.Proofs.Reachable

/-!
# History — what happens in the course of a run

The history of a run lists what happens in it, in order: the stages that resolutions come to, the
entries that the run loop takes, the actions that programs perform on the spot, the effects of
routines and programs, and the contexts that the run loop or the embedding program can look at in
between.

Histories are read off the functions that run, with the same fuel.  With too little of it a history
breaks off where the run does, so work that never comes to an end has histories, too: one for each
amount of fuel.
-/

namespace CommandScheduler

/-! ## Happenings -/

/-- Something that happens in the course of a run. -/
inductive Happening (E : Embedding) where
  /-- The run loop or the embedding program can look at the context. -/
  | seen (moment : Context E)
  /-- An effect of a routine or of a program. -/
  | did (effect : Effect E)
  /-- A resolution comes to a redirect stage. -/
  | entered (stage : Stage E)
  /-- The run loop takes an entry from the queue and performs its action. -/
  | started (action : Action E)
  /-- A program performs an action on the spot. -/
  | performed (action : Action E)

variable {E : Embedding}

def Happening.moment? : Happening E → Option (Context E)
  | .seen moment => some moment
  | .did _ | .entered _ | .started _ | .performed _ => none

/-- A history can be split where it shows a context. -/
theorem exists_moment {α : Type} {history : List (Happening E)} {n : Nat} {read : Context E → α}
    {value : α} (h : (history[n]?.bind Happening.moment?).map read = some value) :
    ∃ moment, history = history.take n ++ .seen moment :: history.drop (n + 1) ∧
      read moment = value := by
  rcases Option.map_eq_some_iff.mp h with ⟨moment, found, value⟩
  rcases Option.bind_eq_some_iff.mp found with ⟨happening, place, shown⟩
  cases happening with
  | seen ctx =>
    cases shown
    rcases List.getElem?_eq_some_iff.mp place with ⟨lt, eq⟩
    refine ⟨moment, ?_, value⟩
    rw [← eq, List.getElem_cons_drop, List.take_append_drop]
  | _ => cases shown

/-- What happens while a script runs, given what happens at each of its operations. -/
def Script.history {Op : Type} {Reply : Op → Type} {α σ Item : Type}
    (handle : (op : Op) → σ → Option (Reply op × σ)) (note : Op → σ → List Item) :
    Script Op Reply α → σ → List Item
  | .done _, _ => []
  | .call op next, state =>
    note op state ++
      match handle op state with
      | some (reply, state) => history handle note (next reply) state
      | none => []

/-- The effects of a routine. -/
def Routine.history {α : Type} : Routine E α → Context E → List (Happening E)
  | .done _, _ => []
  | .call effect next, ctx =>
    .seen ctx :: .did effect :: history (next (effect.apply ctx).1) (effect.apply ctx).2

/-! ## Resolutions -/

namespace Context

/-- The stages to which the walk through a chain comes, and what the routine does that takes over
from it. -/
def prepareHistory (host : Host E) (origin : Source) (frame : FrameId) (input : String)
    (terminal : Terminal E) (passed : List (Stage E)) :
    List (Stage E) → List Source → Flags → Context E → List (Happening E)
  | [], _, _, _ => []
  | stage :: rest, sources, flags, ctx =>
    let flags := flags.forkedIf stage.forked
    let walk := prepareHistory host origin frame input terminal (stage :: passed) rest
    let chain : Chain E := { input, passed, ahead := stage :: rest, terminal }
    .entered stage ::
      match stage.redirect with
      | .passthrough => walk sources flags ctx
      | .modifier apply =>
        match ctx.charge.applyModifier apply origin flags.isForked #[] sources with
        | (some sources, ctx) => walk sources flags ctx
        | (none, _) => []
      | .returnRun => (Executor.returnRun origin sources chain flags frame).history ctx
      | .custom code => (host.redirect code origin sources chain flags frame).history ctx

/-- What a terminal that takes over scheduling does for the sources, one after another. -/
def takeOverHistory (host : Host E) (chain : Chain E) (flags : Flags) (frame : FrameId) :
    List Source → Context E → List (Happening E)
  | [], _ => []
  | source :: rest, ctx =>
    let routine := takeOver host chain source flags frame
    routine.history ctx ++ takeOverHistory host chain flags frame rest (routine.apply ctx)

def launchHistory (host : Host E) (chain : Chain E) (sources : List Source) (flags : Flags)
    (frame : FrameId) (ctx : Context E) : List (Happening E) :=
  if chain.terminal.isCommand then [] else takeOverHistory host chain flags frame sources ctx

def resolveHistory (host : Host E) (chain : Chain E) (origin : Source) (sources : List Source)
    (flags : Flags) (frame : FrameId) (ctx : Context E) : List (Happening E) :=
  if chain.isTerminal then
    ctx.launchHistory host chain sources flags frame
  else
    let ctx := ctx.openScope ("prepare " ++ chain.input)
    ctx.prepareHistory host origin frame chain.input chain.terminal chain.passed chain.ahead sources
        flags ++
      match ctx.prepare host origin frame chain.input chain.terminal chain.passed chain.ahead
        sources flags with
      | (some (sources, flags), ctx) =>
        ctx.closeScope.launchHistory host chain.atTerminal sources flags frame
      | (none, _) => []

def startHistory (host : Host E) (chain : Chain E) (source : Source) (frame : FrameId)
    (ctx : Context E) : List (Happening E) :=
  (ctx.trace (.command (ctx.frameDepth frame) chain.input)).resolveHistory host chain source
    [source] .initial frame

end Context

/-- What happens while an action of the scheduler is performed; the others are programs. -/
def Action.history (host : Host E) (frame : FrameId) : Action E → Context E → List (Happening E)
  | .topLevel chain source, ctx | .line (.chain chain) source, ctx =>
    ctx.startHistory host chain source frame
  | .continuation chain origin sources flags, ctx =>
    ctx.resolveHistory host chain origin sources flags frame
  | .fallthrough, _ | .fanOut .., _ | .execute .., _ | .call .., _ | .task _, _
  | .line (.custom _) _, _ => []

/-! ## Runs -/

/-- What happens at one instruction of a program, given the histories of actions and of runs. -/
def Instruction.history (performed : Action E → FrameId → Context E → List (Happening E))
    (drained : Context E → List (Happening E)) : Instruction E → Context E → List (Happening E)
  | .effect operation, ctx => [.seen ctx, .did operation]
  | .perform action frame, ctx => .seen ctx :: .performed action :: performed action frame ctx
  | .run, ctx => .seen ctx :: drained ctx.promote

namespace Context

mutual

/-- What happens while an action is performed. -/
def performHistory (host : Host E) : Nat → Action E → FrameId → Context E → List (Happening E)
  | 0, _, _, _ => []
  | fuel + 1, action, frame, ctx =>
    match action.work host frame with
    | .own _ => action.history host frame ctx
    | .embedded program =>
      program.history (instruct (perform host fuel) (drain host fuel))
        (Instruction.history (performHistory host fuel) (drainHistory host fuel)) ctx

/-- What happens in the run loop, which looks at the context at the head of each turn. -/
def drainHistory (host : Host E) : Nat → Context E → List (Happening E)
  | 0, _ => []
  | fuel + 1, ctx =>
    .seen ctx ::
      if ctx.quota.isExhausted then []
      else
        match ctx.pop? with
        | none => []
        | some (entry, started) =>
          .started entry.action ::
            (performHistory host fuel entry.action entry.frame started ++
              match perform host fuel entry.action entry.frame started with
              | none => []
              | some after =>
                let settled := after.settle entry.frame
                if settled.overflowed then [] else drainHistory host fuel settled.promote)

end

def runHistory (host : Host E) (fuel : Nat) (ctx : Context E) : List (Happening E) :=
  drainHistory host fuel ctx.promote

/-- What happens while a program runs on a context, outside of all entries. -/
def programHistory {α : Type} (host : Host E) (fuel : Nat) (program : Program E α)
    (ctx : Context E) : List (Happening E) :=
  program.history (instruct (perform host fuel) (drain host fuel))
    (Instruction.history (performHistory host fuel) (drainHistory host fuel)) ctx

end Context

/-! ## Charges -/

/-- Whether a stage is charged when a resolution comes to it, with however many sources. -/
def Stage.isCharged {V : Vocabulary} (stage : Stage V) : Bool :=
  match stage.redirect with
  | .modifier _ => true
  | .passthrough | .returnRun | .custom _ => false

/-- Whether an action is charged: executing a command is, and so is calling a function, with however
many lines. -/
def Action.isCharged {V : Vocabulary} : Action V → Bool
  | .execute .. | .call .. => true
  | .topLevel .. | .continuation .. | .fallthrough | .fanOut .. | .task _ | .line .. => false

def Happening.isCharged : Happening E → Bool
  | .entered stage => stage.isCharged
  | .started action | .performed action => action.isCharged
  | .did .charge => true
  | .did _ | .seen _ => false

/-! ## What a history tells -/

variable {running running' running'' : List FrameId} {ctx ctx' ctx'' : Context E}
  {history history' : List (Happening E)}

/-- What a happening makes of a context.  The frames of the entries being executed are kept beside
it, innermost first. -/
inductive Happens :
    List FrameId → Context E → Happening E → List FrameId → Context E → Prop where
  | seen {running : List FrameId} {ctx : Context E} : Happens running ctx (.seen ctx) running ctx
  | did {running : List FrameId} {ctx : Context E} (effect : Effect E) :
      Happens running ctx (.did effect) running (effect.apply ctx).2
  | entered {running : List FrameId} {ctx : Context E} (stage : Stage E) :
      Happens running ctx (.entered stage) running
        (ctx.chargeIf stage.isCharged)
  | started {running : List FrameId} {ctx started : Context E} {entry : Entry E} :
      ctx.quota.isExhausted = false → ctx.pop? = some (entry, started) →
        Happens running ctx (.started entry.action) (entry.frame :: running)
          (started.chargeIf entry.action.isCharged)
  | performed {running : List FrameId} {ctx : Context E} (action : Action E) :
      Happens running ctx (.performed action) running
        (ctx.chargeIf action.isCharged)

/-- What histories pass over: deeds that charge nothing, and moves of the run loop that take no
entry. -/
inductive Quiet : List FrameId → Context E → List FrameId → Context E → Prop where
  | deed {running : List FrameId} {ctx : Context E} (deed : Deed E) :
      deed.isCharge = false → Quiet running ctx running (deed.apply ctx).2
  | promote {running : List FrameId} {ctx : Context E} : Quiet running ctx running ctx.promote
  | settle {running : List FrameId} {ctx : Context E} {frame : FrameId} :
      Quiet (frame :: running) ctx running (ctx.settle frame)
  | finish {running : List FrameId} {ctx : Context E} (outcome : Outcome) :
      Quiet running ctx running (ctx.finish outcome).2

/-- The history tells what happens on the way from one context to another. -/
inductive Told :
    List FrameId → Context E → List (Happening E) → List FrameId → Context E → Prop where
  | refl {running : List FrameId} {ctx : Context E} : Told running ctx [] running ctx
  | happens {running during running' : List FrameId} {ctx mid ctx' : Context E}
      {happening : Happening E} {history : List (Happening E)} :
      Happens running ctx happening during mid → Told during mid history running' ctx' →
        Told running ctx (happening :: history) running' ctx'
  | quiet {running during running' : List FrameId} {ctx mid ctx' : Context E}
      {history : List (Happening E)} :
      Quiet running ctx during mid → Told during mid history running' ctx' →
        Told running ctx history running' ctx'

theorem Leads.chargeIf (ctx : Context E) (charged : Bool) :
    Leads running ctx running (ctx.chargeIf charged) := by
  cases charged with
  | false => exact .refl
  | true => exact Leads.refl.deed (.effect .charge)

theorem Happens.leads {happening : Happening E}
    (happens : Happens running ctx happening running' ctx') : Leads running ctx running' ctx' := by
  cases happens with
  | seen => exact .refl
  | did effect => exact Leads.refl.deed (.effect effect)
  | entered stage => exact .chargeIf ctx _
  | started _ popped => exact (Leads.refl.pop popped).trans (.chargeIf _ _)
  | performed action => exact .chargeIf ctx _

theorem Quiet.leads (quiet : Quiet running ctx running' ctx') : Leads running ctx running' ctx' := by
  cases quiet with
  | deed deed _ => exact Leads.refl.deed deed
  | promote => exact Leads.refl.promote
  | settle => exact Leads.refl.settle
  | finish outcome => exact Leads.refl.finish outcome

namespace Told

theorem trans (first : Told running ctx history running' ctx')
    (second : Told running' ctx' history' running'' ctx'') :
    Told running ctx (history ++ history') running'' ctx'' := by
  induction first with
  | refl => exact second
  | happens happens _ ih => exact .happens happens (ih second)
  | quiet quiet _ ih => exact .quiet quiet (ih second)

theorem leads (told : Told running ctx history running' ctx') :
    Leads running ctx running' ctx' := by
  induction told with
  | refl => exact .refl
  | happens happens _ ih => exact happens.leads.trans ih
  | quiet quiet _ ih => exact quiet.leads.trans ih

/-- What is passed over can also be the last thing. -/
theorem quietly (told : Told running ctx history running' ctx')
    (quiet : Quiet running' ctx' running'' ctx'') : Told running ctx history running'' ctx'' := by
  simpa using told.trans (.quiet quiet .refl)

/-- A history can be taken apart at each moment it shows. -/
theorem split_seen {before after : List (Happening E)} {moment : Context E}
    (told : Told running ctx (before ++ .seen moment :: after) running' ctx') :
    ∃ during, Told running ctx before during moment ∧ Told during moment after running' ctx' := by
  generalize eq : before ++ .seen moment :: after = history at told
  induction told generalizing before with
  | refl => simp at eq
  | quiet quiet _ ih =>
    rcases ih eq with ⟨during, told, later⟩
    exact ⟨during, told.quiet quiet, later⟩
  | happens happens rest ih =>
    cases before with
    | nil =>
      cases eq
      cases happens
      exact ⟨_, .refl, rest⟩
    | cons first before =>
      cases eq
      rcases ih rfl with ⟨during, told, later⟩
      exact ⟨during, told.happens happens, later⟩

/-- Nothing is started if the run loop can never again take an entry. -/
theorem started_notMem (told : Told running ctx history running' ctx')
    (idle : ∀ during mid, Leads running ctx during mid → mid.quota.isExhausted = false →
      mid.pop? = none) (action : Action E) : .started action ∉ history := by
  induction told with
  | refl => exact List.not_mem_nil
  | happens happens _ ih =>
    have later := ih fun during mid leads => idle during mid (happens.leads.trans leads)
    cases happens with
    | started funded popped =>
      have none := idle _ _ .refl funded
      simp [popped] at none
    | _ => simpa using later
  | quiet quiet _ ih => exact ih fun during mid leads => idle during mid (quiet.leads.trans leads)

/-! ### Actions of the scheduler -/

theorem deed (deed : Deed E) (free : deed.isCharge = false)
    (told : Told running ctx history running' ctx') :
    Told running ctx history running' (deed.apply ctx').2 :=
  told.quietly (.deed deed free)

theorem routine {α : Type} (routine : Routine E α) (ctx : Context E) :
    Told running ctx (routine.history ctx) running (routine.apply ctx) := by
  induction routine generalizing ctx with
  | done value => exact .refl
  | call effect next ih => exact .happens .seen (.happens (.did effect) (ih _ _))

/-- Applying a modifier charges nothing: its stage has been charged already. -/
theorem applyModifier (apply : Modifier) (origin : Source) (forked : Bool) (yielded : Array Source)
    (sources : List Source) (ctx : Context E) :
    Told running ctx [] running (ctx.applyModifier apply origin forked yielded sources).2 := by
  induction sources generalizing yielded ctx with
  | nil => exact .refl
  | cons source rest ih =>
    have applied : Told running ctx [] running (ctx.record [.applied source.name]) :=
      deed (.record _) rfl .refl
    unfold Context.applyModifier
    cases apply source with
    | ok sources =>
      simp only
      split
      · exact deed (.effect (.present _ _ _)) rfl (deed (.record [.notice _]) rfl applied)
      · exact applied.trans (ih _ _)
    | error error =>
      have presented := deed (.effect (.present source error forked)) rfl applied
      simp only
      split
      · exact presented.trans (ih _ _)
      · exact presented

theorem prepare (host : Host E) (origin : Source) (frame : FrameId) (input : String)
    (terminal : Terminal E) (passed stages : List (Stage E)) (sources : List Source)
    (flags : Flags) (ctx : Context E) :
    Told running ctx
      (ctx.prepareHistory host origin frame input terminal passed stages sources flags) running
      (ctx.prepare host origin frame input terminal passed stages sources flags).2 := by
  induction stages generalizing passed sources flags ctx with
  | nil => exact .refl
  | cons stage rest ih =>
    refine .happens (.entered stage) ?_
    rcases stage with ⟨forked, redirect⟩
    cases redirect with
    | passthrough => exact ih _ _ _ _
    | modifier apply =>
      -- The walk goes on with what the modifier has yielded, if it was not aborted.
      have applied : Told running ctx.charge [] running (ctx.charge.applyModifier apply origin
          (flags.forkedIf forked).isForked #[] sources).2 := applyModifier _ _ _ _ _ _
      simp only [Context.prepare]
      cases eq : ctx.charge.applyModifier apply origin (flags.forkedIf forked).isForked #[]
        sources with
      | mk yielded after =>
        rw [eq] at applied
        cases yielded with
        | none => exact applied
        | some yielded => exact applied.trans (ih _ _ _ _)
    | returnRun => exact routine _ ctx
    | custom code => exact routine _ ctx

theorem takeOver (host : Host E) (chain : Chain E) (flags : Flags) (frame : FrameId)
    (sources : List Source) (ctx : Context E) :
    Told running ctx (ctx.takeOverHistory host chain flags frame sources) running
      (sources.foldl
        (fun ctx source => (Context.takeOver host chain source flags frame).apply ctx) ctx) := by
  induction sources generalizing ctx with
  | nil => exact .refl
  | cons source rest ih => exact (routine _ ctx).trans (ih _)

theorem launch (host : Host E) (chain : Chain E) (sources : List Source) (flags : Flags)
    (frame : FrameId) (ctx : Context E) :
    Told running ctx (ctx.launchHistory host chain sources flags frame) running
      (ctx.launch host chain sources flags frame) := by
  unfold Context.launch Context.launchHistory
  cases sources with
  | nil =>
    have nothing : (if chain.terminal.isCommand then []
        else ctx.takeOverHistory host chain flags frame []) = [] := by
      split <;> rfl
    rw [nothing]
    simp only
    split
    · exact deed (.effect (.enqueue _ _)) rfl .refl
    · exact .refl
  | cons first rest =>
    simp only
    split
    · exact deed (.effect (.schedule _ _)) rfl .refl
    · exact takeOver host chain flags frame (first :: rest) ctx

theorem resolve (host : Host E) (chain : Chain E) (origin : Source) (sources : List Source)
    (flags : Flags) (frame : FrameId) (ctx : Context E) :
    Told running ctx (ctx.resolveHistory host chain origin sources flags frame) running
      (ctx.resolve host chain origin sources flags frame) := by
  unfold Context.resolve Context.resolveHistory
  split
  · exact launch host chain sources flags frame ctx
  · -- The profiler's scope is around the walk, which may be all that there is.
    refine .quiet (.deed (.openScope ("prepare " ++ chain.input)) rfl) ?_
    refine (prepare host origin frame chain.input chain.terminal chain.passed chain.ahead sources
      flags _).trans ?_
    simp only [Deed.apply]
    cases (ctx.openScope ("prepare " ++ chain.input)).prepare host origin frame chain.input
      chain.terminal chain.passed chain.ahead sources flags with
    | mk prepared ctx =>
      refine .quiet (.deed .closeScope rfl) ?_
      cases prepared with
      | none => exact .refl
      | some prepared => exact launch host chain.atTerminal _ _ frame _

theorem start (host : Host E) (chain : Chain E) (source : Source) (frame : FrameId)
    (ctx : Context E) :
    Told running ctx (ctx.startHistory host chain source frame) running
      (ctx.start host chain source frame) :=
  .quiet (.deed (.effect (.trace _)) rfl) (resolve host chain source [source] .initial frame _)

/-- Executing a command charges nothing but the unit that it was started with. -/
theorem executeCommand (chain : Chain E) (flags : Flags) (source : Source) (frame : FrameId)
    (ctx : Context E) :
    Told running ctx.charge [] running (ctx.executeCommand chain flags source frame) := by
  have opened : Told running ctx.charge [] running
      (ctx.openScope ("execute " ++ chain.input)).charge := deed (.openScope _) rfl .refl
  unfold Context.executeCommand
  cases chain.runExecutable source with
  | mk result events =>
    have executed := deed (.record events) rfl opened
    cases result with
    | ok value => exact deed .closeScope rfl (deed (.effect (.trace _)) rfl executed)
    | error error => exact deed .closeScope rfl (deed (.effect (.present _ _ _)) rfl executed)

theorem callFunction (function : Function E) (callback : Callback) (returnParent : Bool)
    (source : Source) (frame : FrameId) (ctx : Context E) :
    Told running ctx.charge [] running
      (ctx.callFunction function callback returnParent source frame) := by
  unfold Context.callFunction
  simp only
  split
  · exact deed (.record [.notice _]) rfl (deed (.effect (.trace _)) rfl .refl)
  · refine deed (.effect (.schedule _ _)) rfl (deed (.effect (.pushFrame _)) rfl ?_)
    exact deed (.record [.notice _]) rfl (deed (.effect (.trace _)) rfl .refl)

theorem fallThrough (frame : FrameId) (ctx : Context E) :
    Told running ctx [] running (ctx.fallThrough frame) :=
  deed (.effect (.discard _)) rfl (deed (.effect (.fire _ _)) rfl .refl)

theorem expand (first : Action E) (rest : List (Action E)) (frame : FrameId) (ctx : Context E) :
    Told running ctx [] running (ctx.expand first rest frame) := by
  have queued : Told running ctx [] running (ctx.enqueue frame first) :=
    deed (.effect (.enqueue _ _)) rfl .refl
  cases rest with
  | nil => exact queued
  | cons next rest => exact deed (.effect (.enqueue _ _)) rfl queued

/-- What an action of the scheduler does, once its unit has been charged. -/
theorem action {host : Host E} {action : Action E} {frame : FrameId} {procedure : Procedure E Unit}
    (own : action.work host frame = .own procedure) (ctx : Context E) :
    Told running (ctx.chargeIf action.isCharged) (action.history host frame ctx) running
      (procedure.apply ctx) := by
  cases action with
  | topLevel chain source =>
    cases own
    rw [Procedure.apply_start]
    exact start host chain source frame ctx
  | continuation chain origin sources flags =>
    cases own
    rw [Procedure.apply_resolve]
    exact resolve host chain origin sources flags frame ctx
  | fallthrough =>
    cases own
    rw [Procedure.apply_fallThrough]
    exact fallThrough frame ctx
  | fanOut first rest =>
    cases own
    rw [Procedure.apply_expand]
    exact expand first rest frame ctx
  | task code => cases own
  | line line source =>
    cases line with
    | chain chain =>
      cases own
      rw [Procedure.apply_start]
      exact start host chain source frame ctx
    | custom code => cases own
  | execute chain flags source =>
    cases own
    rw [Procedure.apply_executeCommand]
    exact executeCommand chain flags source frame ctx
  | call function callback returnParent source =>
    cases own
    rw [Procedure.apply_callFunction]
    exact callFunction function callback returnParent source frame ctx

end Told

/-! ### Runs -/

/-- The history tells what happens on the way to the result, or to the place where the fuel runs
out. -/
def Tells (running : List FrameId) (ctx : Context E) (history : List (Happening E)) :
    Option (Context E) → Prop
  | some after => Told running ctx history running after
  | none => ∃ running' ctx', Told running ctx history running' ctx'

namespace Tells

theorem exists_told {result : Option (Context E)} (tells : Tells running ctx history result) :
    ∃ running' ctx', Told running ctx history running' ctx' := by
  cases result with
  | none => exact tells
  | some after => exact ⟨running, after, tells⟩

theorem after {result : Option (Context E)} (told : Told running ctx history running ctx')
    (tells : Tells running ctx' history' result) :
    Tells running ctx (history ++ history') result := by
  cases result with
  | some after => exact told.trans tells
  | none =>
    rcases tells with ⟨running'', ctx'', later⟩
    exact ⟨running'', ctx'', told.trans later⟩

/-- A program tells what its instructions tell. -/
theorem program {handle : (op : Instruction E) → Context E → Option (op.Reply × Context E)}
    {note : Instruction E → Context E → List (Happening E)}
    (step : ∀ op ctx, Tells running ctx (note op ctx) ((handle op ctx).map (·.2))) {α : Type}
    (program : Program E α) (ctx : Context E) :
    Tells running ctx (program.history handle note ctx) ((program.run? handle ctx).map (·.2)) := by
  induction program generalizing ctx with
  | done value => exact Told.refl
  | call op next ih =>
    have first := step op ctx
    unfold Script.history Script.run?
    cases handled : handle op ctx with
    | none =>
      rw [handled] at first
      simpa using first
    | some result =>
      rw [handled] at first
      exact after first (ih result.1 result.2)

/-- An instruction tells what the action or the run does that it calls. -/
theorem instruction {perform : Action E → FrameId → Context E → Option (Context E)}
    {drain : Context E → Option (Outcome × Context E)}
    {performed : Action E → FrameId → Context E → List (Happening E)}
    {drained : Context E → List (Happening E)}
    (hperform : ∀ action frame ctx, Tells running (ctx.chargeIf action.isCharged)
      (performed action frame ctx) (perform action frame ctx))
    (hdrain : ∀ ctx, Tells running ctx (drained ctx) ((drain ctx).map (·.2)))
    (op : Instruction E) (ctx : Context E) :
    Tells running ctx (op.history performed drained ctx)
      ((Context.instruct perform drain op ctx).map (·.2)) := by
  have looked : Told running ctx [.seen ctx] running ctx := .happens .seen .refl
  cases op with
  | effect effect => exact looked.trans (.happens (.did effect) .refl)
  | perform action frame =>
    have begun : Told running ctx [.performed action] running (ctx.chargeIf action.isCharged) :=
      .happens (.performed action) .refl
    have result : (Context.instruct perform drain (.perform action frame) ctx).map (·.2) =
        perform action frame ctx := by
      simp [Context.instruct, Option.map_map, Function.comp_def]
    rw [result]
    exact after (looked.trans begun) (hperform action frame ctx)
  | run => exact after (looked.trans (.quiet .promote .refl)) (hdrain ctx.promote)

section Loop

variable {host : Host E} {fuel : Nat}
  (hperform : ∀ running action frame (ctx : Context E),
    Tells running (ctx.chargeIf action.isCharged) (ctx.performHistory host fuel action frame)
      (Context.perform host fuel action frame ctx))
  (hdrain : ∀ running (ctx : Context E),
    Tells running ctx (ctx.drainHistory host fuel) ((Context.drain host fuel ctx).map (·.2)))

include hperform hdrain

theorem perform_succ (action : Action E) (frame : FrameId) (ctx : Context E) :
    Tells running (ctx.chargeIf action.isCharged) (ctx.performHistory host (fuel + 1) action frame)
      (Context.perform host (fuel + 1) action frame ctx) := by
  rw [Context.perform_succ, Context.performHistory]
  cases work : action.work host frame with
  | own procedure => exact Told.action work ctx
  | embedded program =>
    -- Only actions of the scheduler are charged.
    have free : action.isCharged = false := by
      cases action <;> first | rfl | cases work
    rw [free]
    exact Tells.program (instruction (hperform running) (hdrain running)) program ctx

theorem drain_succ (ctx : Context E) :
    Tells running ctx (ctx.drainHistory host (fuel + 1))
      ((Context.drain host (fuel + 1) ctx).map (·.2)) := by
  rw [Context.drain, Context.drainHistory]
  have looked : Told running ctx [.seen ctx] running ctx := .happens .seen .refl
  by_cases exhausted : ctx.quota.isExhausted = true
  · simp only [exhausted, if_true]
    exact (looked.deed (.record [_]) rfl).quietly (.finish .quotaExhausted)
  have funded : ctx.quota.isExhausted = false := by simpa using exhausted
  simp only [funded, Bool.false_eq_true, if_false]
  cases popped : ctx.pop? with
  | none => exact looked.quietly (.finish .completed)
  | some head =>
    rcases head with ⟨entry, started⟩
    have taken : Told running ctx [.seen ctx, .started entry.action] (entry.frame :: running)
        (started.chargeIf entry.action.isCharged) :=
      looked.trans (.happens (.started funded popped) .refl)
    have performs := hperform (entry.frame :: running) entry.action entry.frame started
    simp only
    cases performed : Context.perform host fuel entry.action entry.frame started with
    | none =>
      rw [performed] at performs
      rcases performs with ⟨running', ctx', told⟩
      exact ⟨running', ctx', by simpa using taken.trans told⟩
    | some after =>
      rw [performed] at performs
      have settled := (taken.trans performs).quietly .settle
      simp only
      by_cases overflowed : (after.settle entry.frame).overflowed = true
      · simp only [overflowed, if_true, List.append_nil]
        exact (settled.deed (.record [_]) rfl).quietly (.finish .overflowed)
      · have intact : (after.settle entry.frame).overflowed = false := by simpa using overflowed
        simp only [intact, Bool.false_eq_true, if_false]
        simpa using Tells.after (settled.quietly .promote) (hdrain running _)

end Loop

/-- Performing an action and draining the queue happen as their histories tell. -/
theorem perform_drain (host : Host E) (fuel : Nat) :
    (∀ running action frame (ctx : Context E),
      Tells running (ctx.chargeIf action.isCharged) (ctx.performHistory host fuel action frame)
        (Context.perform host fuel action frame ctx)) ∧
    (∀ running (ctx : Context E),
      Tells running ctx (ctx.drainHistory host fuel) ((Context.drain host fuel ctx).map (·.2))) := by
  induction fuel with
  | zero => exact ⟨fun running _ _ _ => ⟨running, _, .refl⟩, fun running _ => ⟨running, _, .refl⟩⟩
  | succ fuel ih =>
    rcases ih with ⟨hperform, hdrain⟩
    exact ⟨fun _ => perform_succ hperform hdrain, fun _ => drain_succ hperform hdrain⟩

end Tells

/-- The history of a program tells what happens on a context. -/
theorem Context.programHistory_told {α : Type} (host : Host E) (fuel : Nat) (program : Program E α)
    (running : List FrameId) (ctx : Context E) :
    Tells running ctx (ctx.programHistory host fuel program)
      ((ctx.runProgram host fuel program).map (·.2)) := by
  rcases Tells.perform_drain host fuel with ⟨hperform, hdrain⟩
  exact Tells.program (Tells.instruction (hperform running) (hdrain running)) program ctx

end CommandScheduler
