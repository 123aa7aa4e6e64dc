import CommandScheduler.Run

/-!
# Procedure — the scheduler's own actions as scripts

The functions that resolve a chain, execute a command or call a function work on a context directly.
Here each of them is also written as a script of *deeds*, the effects of routines together with the
few operations that only the scheduler performs itself, and both forms are proved equal.

What every deed preserves is therefore preserved by every action, and two contexts that answer every
deed alike take the same way through an action.
-/

namespace CommandScheduler

/-! ## Operations that a script calls -/

namespace Script

variable {Op : Type} {Reply : Op → Type} {α β σ : Type}

/-- Run from the given state, the script calls the operation in the second state. -/
inductive Calls (handle : (op : Op) → σ → Reply op × σ) :
    Script Op Reply α → σ → Op → σ → Prop where
  | here (op : Op) (next : Reply op → Script Op Reply α) (state : σ) :
      Calls handle (.call op next) state op state
  | later {op : Op} {next : Reply op → Script Op Reply α} {state : σ} {other : Op} {moment : σ} :
      Calls handle (next (handle op state).1) (handle op state).2 other moment →
        Calls handle (.call op next) state other moment

/-- All operations that the script can call, whatever the replies, satisfy the predicate. -/
inductive Only (p : Op → Prop) : Script Op Reply α → Prop where
  | done (value : α) : Only p (.done value)
  | call {op : Op} {next : Reply op → Script Op Reply α} :
      p op → (∀ reply, Only p (next reply)) → Only p (.call op next)

@[simp]
theorem run_map (handle : (op : Op) → σ → Reply op × σ) (f : α → β) (script : Script Op Reply α)
    (state : σ) :
    (f <$> script).run handle state =
      (f (script.run handle state).1, (script.run handle state).2) := by
  rw [← bind_pure_comp, run_bind]
  rfl

@[simp]
theorem run?_map (handle : (op : Op) → σ → Option (Reply op × σ)) (f : α → β)
    (script : Script Op Reply α) (state : σ) :
    (f <$> script).run? handle state =
      (script.run? handle state).map fun result => (f result.1, result.2) := by
  rw [← bind_pure_comp, run?_bind]
  cases script.run? handle state <;> rfl

theorem run?_some (handle : (op : Op) → σ → Reply op × σ) (script : Script Op Reply α) (state : σ) :
    script.run? (fun op state => some (handle op state)) state = some (script.run handle state) := by
  induction script generalizing state with
  | done value => rfl
  | call op next ih => exact ih _ _

theorem Only.perform {p : Op → Prop} {op : Op} (h : p op) :
    Only p (Script.perform op : Script Op Reply (Reply op)) :=
  .call h fun reply => .done reply

theorem Only.bind {p : Op → Prop} {script : Script Op Reply α} {f : α → Script Op Reply β}
    (hscript : Only p script) (hf : ∀ value, Only p (f value)) : Only p (script >>= f) := by
  induction hscript with
  | done value => exact hf value
  | call hop _ ih => exact .call hop ih

theorem run_preserves {handle : (op : Op) → σ → Reply op × σ} {P : σ → Prop}
    (step : ∀ op state, P state → P (handle op state).2) (script : Script Op Reply α) (state : σ)
    (h : P state) : P (script.run handle state).2 := by
  induction script generalizing state with
  | done value => exact h
  | call op next ih => exact ih _ _ (step op state h)

theorem run?_preserves {handle : (op : Op) → σ → Option (Reply op × σ)} {P : σ → Prop}
    (step : ∀ op state result, P state → handle op state = some result → P result.2)
    (script : Script Op Reply α) (state : σ) (result : α × σ) (h : P state)
    (run : script.run? handle state = some result) : P result.2 := by
  induction script generalizing state with
  | done value =>
    cases run
    exact h
  | call op next ih =>
    cases reply : handle op state with
    | none => simp [run?, reply] at run
    | some first => exact ih _ _ (step op state first h reply) (by simpa [run?, reply] using run)

theorem run?_reflects {handle : (op : Op) → σ → Option (Reply op × σ)} {P : σ → Prop}
    (step : ∀ op state result, handle op state = some result → P result.2 → P state)
    (script : Script Op Reply α) (state : σ) (result : α × σ)
    (run : script.run? handle state = some result) (h : P result.2) : P state := by
  induction script generalizing state with
  | done value =>
    cases run
    exact h
  | call op next ih =>
    cases reply : handle op state with
    | none => simp [run?, reply] at run
    | some first => exact step op state first reply (ih _ _ (by simpa [run?, reply] using run))

theorem Calls.preserves {handle : (op : Op) → σ → Reply op × σ} {P : σ → Prop}
    (step : ∀ op state, P state → P (handle op state).2) {script : Script Op Reply α}
    {state moment : σ} {op : Op} (calls : Calls handle script state op moment) (h : P state) :
    P moment := by
  induction calls with
  | here => exact h
  | later _ ih => exact ih (step _ _ h)

theorem Calls.property {handle : (op : Op) → σ → Reply op × σ} {p : Op → Prop}
    {script : Script Op Reply α} {state moment : σ} {op : Op}
    (calls : Calls handle script state op moment) (only : Only p script) : p op := by
  induction calls with
  | here =>
    cases only with
    | call first _ => exact first
  | later _ ih =>
    cases only with
    | call _ rest => exact ih (rest _)

end Script

variable {E : Embedding}

/-! ## Deeds -/

/-- One operation of a step of the run loop. -/
inductive Deed (E : Embedding) where
  | effect (effect : Effect E)
  | record (events : List (Event E.Mark))
  | openScope (scope : String)
  | closeScope

namespace Deed

/-- What a deed gives back. -/
@[reducible]
def Reply : Deed E → Type
  | effect e => e.Reply
  | record _ | openScope _ | closeScope => Unit

/-- Performs a deed. -/
def apply : (deed : Deed E) → Context E → deed.Reply × Context E
  | effect e, ctx => e.apply ctx
  | record events, ctx => ((), ctx.record events)
  | openScope scope, ctx => ((), ctx.openScope scope)
  | closeScope, ctx => ((), ctx.closeScope)

end Deed

/-- A script of deeds. -/
abbrev Procedure (E : Embedding) := Script (Deed E) Deed.Reply

namespace Procedure

/-- The context after a procedure. -/
def apply {α : Type} (procedure : Procedure E α) (ctx : Context E) : Context E :=
  (procedure.run Deed.apply ctx).2

/-- Performs an effect whose reply does not matter. -/
def effect (effect : Effect E) : Procedure E Unit :=
  .call (.effect effect) fun _ => .done ()

/-- Asks for the limits. -/
def limits : Procedure E Limits :=
  Script.perform (Deed.effect (.ask .limits))

def frame? (id : FrameId) : Procedure E (Option Frame) :=
  Script.perform (Deed.effect (.ask (.frame id)))

def currentDepth : Procedure E Nat :=
  Script.perform (Deed.effect (.ask .depth))

def pushFrame (frame : Frame) : Procedure E FrameId :=
  Script.perform (Deed.effect (.pushFrame frame))

def openScope (scope : String) : Procedure E Unit :=
  Script.perform (Deed.openScope scope)

def closeScope : Procedure E Unit :=
  Script.perform Deed.closeScope

def record (events : List (Event E.Mark)) : Procedure E Unit :=
  Script.perform (Deed.record events)

/-- A routine is a procedure of effects only. -/
def ofRoutine {α : Type} : Routine E α → Procedure E α
  | .done value => .done value
  | .call op next => .call (.effect op) fun reply => ofRoutine (next reply)

/-- The depth of a frame, or the current depth if the frame was released. -/
def frameDepth (id : FrameId) : Procedure E Nat := do
  match ← frame? id with
  | some frame => return frame.depth
  | none => currentDepth

def frameCallback (id : FrameId) : Procedure E Callback := do
  match ← frame? id with
  | some frame => return frame.callback
  | none => return .empty

/-- The scope of a frame, or the current depth if the frame was released. -/
def scopeOf (id : FrameId) : Procedure E Scope := do
  match ← frame? id with
  | some frame => return frame.scope
  | none => return .discardFrom (← currentDepth)

@[simp]
theorem run_ofRoutine {α : Type} (routine : Routine E α) (ctx : Context E) :
    (ofRoutine routine).run Deed.apply ctx = routine.run Effect.apply ctx := by
  induction routine generalizing ctx with
  | done value => rfl
  | call op next ih => exact ih _ _

@[simp]
theorem run_effect (e : Effect E) (ctx : Context E) :
    (effect e).run Deed.apply ctx = ((), (e.apply ctx).2) := rfl

@[simp]
theorem run_limits (ctx : Context E) : limits.run Deed.apply ctx = (ctx.limits, ctx) := rfl

@[simp]
theorem run_frame? (id : FrameId) (ctx : Context E) :
    (frame? id).run Deed.apply ctx = (ctx.frame? id, ctx) := rfl

@[simp]
theorem run_currentDepth (ctx : Context E) :
    currentDepth.run Deed.apply ctx = (ctx.depth, ctx) := rfl

@[simp]
theorem run_pushFrame (frame : Frame) (ctx : Context E) :
    (pushFrame frame).run Deed.apply ctx = ctx.pushFrame frame := rfl

@[simp]
theorem run_openScope (scope : String) (ctx : Context E) :
    (openScope scope).run Deed.apply ctx = ((), ctx.openScope scope) := rfl

@[simp]
theorem run_closeScope (ctx : Context E) :
    closeScope.run Deed.apply ctx = ((), ctx.closeScope) := rfl

@[simp]
theorem run_record (events : List (Event E.Mark)) (ctx : Context E) :
    (record events).run Deed.apply ctx = ((), ctx.record events) := rfl

@[simp]
theorem run_frameDepth (id : FrameId) (ctx : Context E) :
    (frameDepth id).run Deed.apply ctx = (ctx.frameDepth id, ctx) := by
  cases h : ctx.frame? id <;> simp [frameDepth, Context.frameDepth, h]

@[simp]
theorem run_frameCallback (id : FrameId) (ctx : Context E) :
    (frameCallback id).run Deed.apply ctx = (ctx.frameCallback id, ctx) := by
  cases h : ctx.frame? id <;> simp [frameCallback, Context.frameCallback, h]

@[simp]
theorem run_scopeOf (id : FrameId) (ctx : Context E) :
    (scopeOf id).run Deed.apply ctx = (ctx.scopeOf id, ctx) := by
  cases h : ctx.frame? id <;> simp [scopeOf, Context.scopeOf, h]

/-! ## Resolving a chain -/

def applyModifier (apply : Modifier) (origin : Source) (forked : Bool) :
    Array Source → List Source → Procedure E (Option (List Source))
  | yielded, [] => return some yielded.toList
  | yielded, source :: rest => do
    record [.applied source.name]
    match apply source with
    | .ok sources =>
      let limits ← limits
      if limits.forkLimit ≤ yielded.size + sources.length then
        record [.notice (.forkLimitReached limits.forkLimit)]
        effect (.present origin (.forkLimitReached limits.forkLimit) forked)
        return none
      else
        applyModifier apply origin forked (yielded ++ sources) rest
    | .error error =>
      effect (.present source error forked)
      if forked then applyModifier apply origin forked yielded rest else return none

def prepare (host : Host E) (origin : Source) (frame : FrameId) (input : String)
    (terminal : Terminal E) (passed : List (Stage E)) :
    List (Stage E) → List Source → Flags → Procedure E (Option (List Source × Flags))
  | [], sources, flags => return some (sources, flags)
  | stage :: rest, sources, flags =>
    let flags := flags.forkedIf stage.forked
    let walk := prepare host origin frame input terminal (stage :: passed) rest
    let chain : Chain E := { input, passed, ahead := stage :: rest, terminal }
    match stage.redirect with
    | .passthrough => walk sources flags
    | .modifier apply => do
      effect .charge
      match ← applyModifier apply origin flags.isForked #[] sources with
      | some sources => walk sources flags
      | none => return none
    | .returnRun => do
      ofRoutine (Executor.returnRun origin sources chain flags frame)
      return none
    | .custom code => do
      ofRoutine (host.redirect code origin sources chain flags frame)
      return none

/-- Runs a terminal that takes over scheduling for each source. -/
def takeOver (host : Host E) (chain : Chain E) (flags : Flags) (frame : FrameId) :
    List Source → Procedure E Unit
  | [] => return
  | source :: rest => do
    ofRoutine (Context.takeOver host chain source flags frame)
    takeOver host chain flags frame rest

def launch (host : Host E) (chain : Chain E) (sources : List Source) (flags : Flags)
    (frame : FrameId) : Procedure E Unit :=
  match sources with
  | [] => if flags.isReturn then effect (.enqueue frame .fallthrough) else return
  | first :: rest =>
    if chain.terminal.isCommand then do
      let callback ← frameCallback frame
      let first :=
        if flags.isReturn then first.withCallback (first.callback.chain callback) else first
      effect (.schedule frame ((first :: rest).map (.execute chain flags ·)))
    else
      takeOver host chain flags frame sources

def resolve (host : Host E) (chain : Chain E) (origin : Source) (sources : List Source)
    (flags : Flags) (frame : FrameId) : Procedure E Unit :=
  if chain.isTerminal then
    launch host chain sources flags frame
  else do
    openScope ("prepare " ++ chain.input)
    let prepared ← prepare host origin frame chain.input chain.terminal chain.passed chain.ahead
      sources flags
    closeScope
    match prepared with
    | some (sources, flags) => launch host chain.atTerminal sources flags frame
    | none => return

/-! ## The actions -/

def start (host : Host E) (chain : Chain E) (source : Source) (frame : FrameId) :
    Procedure E Unit := do
  let depth ← frameDepth frame
  effect (.trace (.command depth chain.input))
  resolve host chain source [source] .initial frame

def executeCommand (chain : Chain E) (flags : Flags) (source : Source) (frame : FrameId) :
    Procedure E Unit := do
  openScope ("execute " ++ chain.input)
  effect .charge
  let executed : Except CommandError Int32 × List (Event E.Mark) := chain.runExecutable source
  record executed.2
  match executed.1 with
  | .ok value =>
    let depth ← frameDepth frame
    effect (.trace (.returned depth chain.input value))
  | .error error => effect (.present source error flags.isForked)
  closeScope

def callFunction (function : Function E) (callback : Callback) (returnParent : Bool)
    (source : Source) (frame : FrameId) : Procedure E Unit := do
  effect .charge
  let depth ← frameDepth frame
  effect (.trace (.called depth function.id function.lines.length))
  record [.notice (.called function.id depth function.lines.length)]
  if function.lines.isEmpty then
    return
  else
    let outer ← scopeOf frame
    let scope := if returnParent then outer else .discardFrom (depth + 1)
    let inner ← pushFrame { depth := depth + 1, callback, scope }
    effect (.schedule inner (function.lines.map (.line · source)))

def fallThrough (frame : FrameId) : Procedure E Unit := do
  let callback ← frameCallback frame
  effect (.fire callback .failure)
  effect (.discard frame)

def expand (first : Action E) (rest : List (Action E)) (frame : FrameId) : Procedure E Unit := do
  effect (.enqueue frame first)
  match rest with
  | [] => return
  | next :: rest => effect (.enqueue frame (.fanOut next rest))

/-! ## Both forms agree -/

theorem run_applyModifier (apply : Modifier) (origin : Source) (forked : Bool)
    (yielded : Array Source) (sources : List Source) (ctx : Context E) :
    (applyModifier apply origin forked yielded sources).run Deed.apply ctx =
      ctx.applyModifier apply origin forked yielded sources := by
  induction sources generalizing yielded ctx with
  | nil => rfl
  | cons source rest ih =>
    cases h : apply source with
    | ok sources =>
      by_cases reached : ctx.limits.forkLimit ≤ yielded.size + sources.length
      · simp [applyModifier, Context.applyModifier, h, reached, Effect.apply, Context.record,
          Context.notify]
      · simp [applyModifier, Context.applyModifier, h, reached, Context.record, ih]
    | error error =>
      cases forked <;> simp [applyModifier, Context.applyModifier, h, Effect.apply, ih]

theorem run_prepare (host : Host E) (origin : Source) (frame : FrameId) (input : String)
    (terminal : Terminal E) (passed stages : List (Stage E)) (sources : List Source)
    (flags : Flags) (ctx : Context E) :
    (prepare host origin frame input terminal passed stages sources flags).run Deed.apply ctx =
      ctx.prepare host origin frame input terminal passed stages sources flags := by
  induction stages generalizing passed sources flags ctx with
  | nil => rfl
  | cons stage rest ih =>
    cases h : stage.redirect with
    | passthrough => simp [prepare, Context.prepare, h, ih]
    | modifier apply =>
      -- Only here the walk depends on a reply: the sources that the modifier has yielded.
      simp only [prepare, Context.prepare, h, Script.run_bind, run_effect, run_applyModifier,
        Effect.apply]
      cases ctx.charge.applyModifier apply origin (flags.forkedIf stage.forked).isForked #[]
        sources with
      | mk yielded ctx =>
        cases yielded with
        | none => rfl
        | some yielded => exact ih _ _ _ _
    | returnRun => simp [prepare, Context.prepare, h, Routine.apply]
    | custom code => simp [prepare, Context.prepare, h, Routine.apply]

theorem run_takeOver (host : Host E) (chain : Chain E) (flags : Flags) (frame : FrameId)
    (sources : List Source) (ctx : Context E) :
    (takeOver host chain flags frame sources).apply ctx =
      sources.foldl
        (fun ctx source => (Context.takeOver host chain source flags frame).apply ctx) ctx := by
  induction sources generalizing ctx with
  | nil => rfl
  | cons source rest ih =>
    rw [List.foldl_cons, ← ih]
    simp [takeOver, apply, Routine.apply]

theorem apply_launch (host : Host E) (chain : Chain E) (sources : List Source) (flags : Flags)
    (frame : FrameId) (ctx : Context E) :
    (launch host chain sources flags frame).apply ctx =
      ctx.launch host chain sources flags frame := by
  cases sources with
  | nil =>
    by_cases returning : flags.isReturn = true <;>
      simp [launch, Context.launch, returning, apply, Effect.apply]
  | cons first rest =>
    by_cases command : chain.terminal.isCommand = true
    · simp [launch, Context.launch, command, apply, Effect.apply]
    · simpa [launch, Context.launch, command] using
        run_takeOver host chain flags frame (first :: rest) ctx

theorem apply_resolve (host : Host E) (chain : Chain E) (origin : Source) (sources : List Source)
    (flags : Flags) (frame : FrameId) (ctx : Context E) :
    (resolve host chain origin sources flags frame).apply ctx =
      ctx.resolve host chain origin sources flags frame := by
  by_cases terminal : chain.isTerminal = true
  · simp [resolve, Context.resolve, terminal, apply_launch]
  · simp only [resolve, Context.resolve, terminal, apply, Script.run_bind, run_prepare,
      run_openScope, run_closeScope, Bool.false_eq_true, if_false]
    cases (ctx.openScope ("prepare " ++ chain.input)).prepare host origin frame chain.input
      chain.terminal chain.passed chain.ahead sources flags with
    | mk prepared ctx =>
      cases prepared with
      | none => rfl
      | some prepared => exact apply_launch host chain.atTerminal _ _ frame _

theorem apply_start (host : Host E) (chain : Chain E) (source : Source) (frame : FrameId)
    (ctx : Context E) :
    (start host chain source frame).apply ctx = ctx.start host chain source frame := by
  rw [Context.start, ← apply_resolve]
  simp [start, apply, Effect.apply]

theorem apply_executeCommand (chain : Chain E) (flags : Flags) (source : Source) (frame : FrameId)
    (ctx : Context E) :
    (executeCommand chain flags source frame).apply ctx =
      ctx.executeCommand chain flags source frame := by
  -- The outcome of the command decides how the script goes on, so it is generalised first.
  have agree (executed : Except CommandError Int32 × List (Event E.Mark))
      (h : chain.runExecutable source = executed) :
      (executeCommand chain flags source frame).apply ctx =
        ctx.executeCommand chain flags source frame := by
    rcases executed with ⟨result, events⟩
    cases result <;> simp [executeCommand, Context.executeCommand, apply, h, Effect.apply]
  exact agree _ rfl

theorem apply_callFunction (function : Function E) (callback : Callback) (returnParent : Bool)
    (source : Source) (frame : FrameId) (ctx : Context E) :
    (callFunction function callback returnParent source frame).apply ctx =
      ctx.callFunction function callback returnParent source frame := by
  by_cases empty : function.lines.isEmpty = true
  · simp [callFunction, Context.callFunction, apply, empty, Effect.apply, Context.notify]
  · cases returnParent <;>
      simp [callFunction, Context.callFunction, apply, empty, Effect.apply, Context.notify]

theorem apply_fallThrough (frame : FrameId) (ctx : Context E) :
    (fallThrough frame).apply ctx = ctx.fallThrough frame := by
  simp [fallThrough, Context.fallThrough, apply, Effect.apply]

theorem apply_expand (first : Action E) (rest : List (Action E)) (frame : FrameId)
    (ctx : Context E) : (expand first rest frame).apply ctx = ctx.expand first rest frame := by
  cases rest <;> simp [expand, Context.expand, apply, Effect.apply]

/-! ## Routines as procedures -/

theorem ofRoutine_bind {α β : Type} (routine : Routine E α) (f : α → Routine E β) :
    ofRoutine (routine >>= f) = ofRoutine routine >>= fun value => ofRoutine (f value) := by
  induction routine with
  | done value => rfl
  | call op next ih => exact congrArg (Script.call _) (funext ih)

theorem ofRoutine_frameCallback (id : FrameId) :
    ofRoutine (Routine.frameCallback id : Routine E Callback) = frameCallback id := by
  refine congrArg (Script.call _) ?_
  funext reply
  cases reply <;> rfl

theorem ofRoutine_returnResult (result : Result) (source : Source) (frame : FrameId) :
    ofRoutine (Executor.returnResult result source frame : Routine E Unit) = (do
      effect (.fire source.callback result)
      let callback ← frameCallback frame
      effect (.fire callback result)
      effect (.discard frame)) := by
  rw [Executor.returnResult, ofRoutine_bind]
  refine congrArg (Script.call _) ?_
  funext _
  change ofRoutine (Routine.frameCallback frame >>= _) = _
  rw [ofRoutine_bind, ofRoutine_frameCallback]
  rfl

theorem ofRoutine_returnRun (origin : Source) (sources : List Source) (chain next : Chain E)
    (h : chain.next? = some next) (flags : Flags) (frame : FrameId) :
    ofRoutine (Executor.returnRun origin sources chain flags frame) =
      if sources.isEmpty then
        if flags.isReturn then effect (.enqueue frame .fallthrough) else pure ()
      else (do
        effect (.discard frame)
        effect (.enqueue frame (.continuation next origin sources flags.setReturn))) := by
  rw [Executor.returnRun, h]
  split
  · split <;> rfl
  · rfl

theorem ofRoutine_callFunction (function : Function E) (source : Source) (flags : Flags)
    (frame : FrameId) :
    ofRoutine (Executor.callFunction function source flags frame) =
      if flags.isReturn then do
        let callback ← frameCallback frame
        effect (.enqueue frame (.call function (source.callback.chain callback) true source))
      else
        effect (.enqueue frame (.call function source.callback false source)) := by
  rw [Executor.callFunction]
  split
  · rw [ofRoutine_bind, ofRoutine_frameCallback]
    rfl
  · rfl

end Procedure
end CommandScheduler
