import CommandScheduler.Proofs.Sketch

/-!
# Steps — what each native action does

For each native action its step is computed on sketches, and compared with what the interpreter does
at the same place.  The result says what has become of the tape, which actions wait in the frame,
and whether the frame was rolled back.
-/

namespace CommandScheduler

variable {E : Embedding}

/-! ## Helper procedures on sketches -/

@[simp]
theorem Tape.write_notice {Mark : Type} (tape : Tape Mark) (notice : Notice) :
    tape.write [.notice notice] = tape := by
  simp [write, Event.isObservable]

namespace Site

variable (site : Site E) (s : Sketch E)

@[simp]
theorem run?_record (events : List (Event E.Mark)) :
    (Procedure.record events).run? site.draw s =
      some ((), { s with tape := s.tape.write events }) := rfl

@[simp]
theorem run?_openScope (scope : String) :
    (Procedure.openScope scope).run? site.draw s = some ((), s) := rfl

@[simp]
theorem run?_closeScope : Procedure.closeScope.run? site.draw s = some ((), s) := rfl

@[simp]
theorem run?_limits : Procedure.limits.run? site.draw s = some (site.limits, s) := rfl

@[simp]
theorem run?_charge :
    (Procedure.effect .charge).run? site.draw s = some ((), { s with tape := s.tape.charge }) := rfl

@[simp]
theorem run?_trace (event : TraceEvent) :
    (Procedure.effect (.trace event)).run? site.draw s =
      some ((), { s with tape := s.tape.write (site.setting.traced event) }) := rfl

@[simp]
theorem run?_fire (callback : Callback) (result : Result) :
    (Procedure.effect (.fire callback result)).run? site.draw s =
      some ((), { s with tape := s.tape.write (callback.fire result) }) := rfl

@[simp]
theorem run?_present (source : Source) (error : CommandError) (forked : Bool) :
    (Procedure.effect (.present source error forked)).run? site.draw s =
      some ((), { s with tape := s.tape.write (site.setting.presented source error forked) }) := rfl

@[simp]
theorem run?_frame? :
    (Procedure.frame? site.id).run? site.draw s = some (some site.frame, s) := by
  simp [Procedure.frame?, Script.perform, Script.run?, draw]

@[simp]
theorem run?_frameDepth :
    (Procedure.frameDepth site.id).run? site.draw s = some (site.frame.depth, s) := by
  simp [Procedure.frameDepth]

@[simp]
theorem run?_frameCallback :
    (Procedure.frameCallback site.id).run? site.draw s = some (site.frame.callback, s) := by
  simp [Procedure.frameCallback]

@[simp]
theorem run?_scopeOf :
    (Procedure.scopeOf site.id).run? site.draw s = some (site.frame.scope, s) := by
  simp [Procedure.scopeOf]

theorem run?_discard (own : s.callee? = none) :
    (Procedure.effect (.discard site.id)).run? site.draw s =
      some ((), { s with flow := .returned }) := by
  simp [Procedure.effect, Script.run?, draw, own]

theorem run?_enqueue (own : s.callee? = none) {action : Action E} (native : action.isNative = true) :
    (Procedure.effect (.enqueue site.id action)).run? site.draw s =
      some ((), { s with staged := s.staged ++ [action] }) := by
  simp [Procedure.effect, Script.run?, draw, own, native]

theorem run?_schedule {actions : List (Action E)} (native : nativeActions actions = true) :
    (Procedure.effect (.schedule (site.target s).1 actions)).run? site.draw s =
      some ((), { s with staged := s.staged ++ fan actions }) := by
  simp [Procedure.effect, Script.run?, draw, native]

/-! ## Resolving a chain -/

/-- The body that the interpreter is in. -/
def body : Body :=
  { depth := site.frame.depth, callback := site.frame.callback }

theorem run?_applyModifier (apply : Modifier) (origin : Source) (forked : Bool)
    (yielded : Array Source) (sources : List Source) :
    (Procedure.applyModifier apply origin forked yielded sources).run? site.draw s =
      some ((site.setting.modify apply origin forked yielded.toList sources s.tape).1,
        { s with
          tape := (site.setting.modify apply origin forked yielded.toList sources s.tape).2 }) := by
  induction sources generalizing yielded s with
  | nil => rfl
  | cons source rest ih =>
    cases applied : apply source with
    | ok sources =>
      by_cases reached : site.limits.forkLimit ≤ yielded.size + sources.length
      · simp [Procedure.applyModifier, Setting.modify, applied, setting, reached]
      · simp [Procedure.applyModifier, Setting.modify, applied, setting, reached, ih]
    | error error =>
      cases forked <;> simp [Procedure.applyModifier, Setting.modify, applied, setting, ih]

/-- How a walk of the stages of a chain ends: its result, what has been done, and what the
interpreter makes of the rest. -/
inductive Walked (site : Site E) (origin : Source) (input : String) (terminal : Terminal E)
    (eval : List Source → Flags → Evaluation E.Mark) (bound : Nat) :
    Option (List Source × Flags) → Sketch E → Tape E.Mark × Flow → Prop where
  | reached (sources : List Source) (flags : Flags) (tape : Tape E.Mark) :
      Walked site origin input terminal eval bound (some (sources, flags)) { tape }
        (site.body.arrive eval sources flags tape)
  | aborted (tape : Tape E.Mark) :
      Walked site origin input terminal eval bound none { tape } (tape, .goesOn)
  | failing (tape : Tape E.Mark) :
      Walked site origin input terminal eval bound none { tape, staged := [.fallthrough] }
        (Evaluation.funded site.body.fail tape)
  | returning (passed rest : List (Stage E)) (sources : List Source) (flags : Flags)
      (tape : Tape E.Mark) : rest.length < bound →
      (rest.all (·.redirect.isNative) && terminal.isNative) = true →
      Walked site origin input terminal eval bound none
        { tape
          flow := .returned
          staged := [.continuation { input, passed, ahead := rest, terminal } origin sources flags] }
        (Evaluation.returning
          (.funded (site.body.walk site.setting origin eval rest sources flags)) tape)

theorem Walked.mono {site : Site E} {origin : Source} {input : String} {terminal : Terminal E}
    {eval : List Source → Flags → Evaluation E.Mark} {bound bound' : Nat}
    {result : Option (List Source × Flags)} {s : Sketch E} {value : Tape E.Mark × Flow}
    (h : Walked site origin input terminal eval bound result s value) (le : bound ≤ bound') :
    Walked site origin input terminal eval bound' result s value := by
  cases h with
  | reached => exact .reached ..
  | aborted => exact .aborted _
  | failing => exact .failing _
  | returning passed rest sources flags tape less native =>
    exact .returning _ _ _ _ _ (Nat.lt_of_lt_of_le less le) native

theorem run?_prepare (host : Host E) (origin : Source) (input : String) (terminal : Terminal E)
    (eval : List Source → Flags → Evaluation E.Mark) (passed stages : List (Stage E))
    (sources : List Source) (flags : Flags) (tape : Tape E.Mark)
    (native : (stages.all (·.redirect.isNative) && terminal.isNative) = true) :
    ∃ result s, (Procedure.prepare host origin site.id input terminal passed stages sources
        flags).run? site.draw { tape } = some (result, s) ∧
      Walked site origin input terminal eval stages.length result s
        (site.body.walk site.setting origin eval stages sources flags tape) := by
  -- The walk and the interpreter go along the same stages, so the induction is on these.
  induction stages generalizing passed sources flags tape with
  | nil => exact ⟨_, _, rfl, .reached sources flags tape⟩
  | cons stage rest ih =>
    rcases stage with ⟨forked, redirect⟩
    have native' : (rest.all (·.redirect.isNative) && terminal.isNative) = true := by
      simp only [List.all_cons, Bool.and_eq_true] at native ⊢
      exact ⟨native.1.2, native.2⟩
    cases redirect with
    | passthrough =>
      rcases ih (⟨forked, .passthrough⟩ :: passed) sources (flags.forkedIf forked) tape native' with
        ⟨result, s, run, walked⟩
      refine ⟨result, s, run, ?_⟩
      exact walked.mono (Nat.le_succ _)
    | modifier apply =>
      have step := run?_applyModifier site { tape := tape.charge } apply origin
        (flags.forkedIf forked).isForked #[] sources
      simp only [Procedure.prepare, Body.walk, Script.run?_bind, run?_charge, Option.bind_some, step]
      generalize site.setting.modify apply origin (flags.forkedIf forked).isForked [] sources
        tape.charge = modified
      -- Both ask the modifier for the same sources, and both stop if it aborts.
      rcases modified with ⟨yielded, tape'⟩
      cases yielded with
      | none => exact ⟨_, _, rfl, .aborted tape'⟩
      | some yielded =>
        obtain ⟨result, s, run, walked⟩ :=
          ih (⟨forked, .modifier apply⟩ :: passed) yielded (flags.forkedIf forked) tape' native'
        exact ⟨result, s, run, walked.mono (Nat.le_succ _)⟩
    | returnRun =>
      have routine := Procedure.ofRoutine_returnRun origin sources
        { input, passed, ahead := ⟨forked, .returnRun⟩ :: rest, terminal }
        { input, passed := ⟨forked, .returnRun⟩ :: passed, ahead := rest, terminal }
        rfl (flags.forkedIf forked) site.id
      simp only [Procedure.prepare, Body.walk, routine, Script.run?_bind]
      by_cases empty : sources.isEmpty = true
      · -- Nothing is left to return from, unless the chain is returning already.
        by_cases isReturn : (flags.forkedIf forked).isReturn = true
        · simp only [empty, isReturn, if_true]
          rw [run?_enqueue site _ rfl rfl]
          exact ⟨_, _, rfl, .failing tape⟩
        · simp only [empty, isReturn, if_true, Bool.false_eq_true, if_false]
          exact ⟨_, _, rfl, .aborted tape⟩
      · -- The frame is rolled back first, and the rest of the chain is queued behind that.
        simp only [empty, Bool.false_eq_true, if_false, Script.run?_bind]
        rw [run?_discard site _ rfl]
        simp only [Option.bind_some]
        have continuation : (Action.continuation
            { input, passed := ⟨forked, .returnRun⟩ :: passed, ahead := rest, terminal } origin
            sources (flags.forkedIf forked).setReturn : Action E).isNative = true := native'
        rw [run?_enqueue site { tape, flow := .returned } rfl continuation]
        exact ⟨_, _, rfl, .returning _ _ _ _ _ (Nat.lt_succ_self _) native'⟩
    | custom code => simp [Redirect.isNative] at native

/-! ## The terminal -/

/-- What reaching the terminal of a chain amounts to: some actions are queued, or the frame is
returned from on the spot. -/
def launched (chain : Chain E) (sources : List Source) (flags : Flags) (tape : Tape E.Mark) :
    Sketch E :=
  if sources.isEmpty then
    { tape, staged := if flags.isReturn then [.fallthrough] else [] }
  else
    match chain.terminal with
    | .command _ => { tape, staged := fan ((site.body.rebind flags sources).map (.execute chain flags)) }
    | .returnValue value =>
      { tape := (site.body.giveBack (.success value) sources tape).1, flow := .returned }
    | .returnFailure => { tape := (site.body.giveBack .failure sources tape).1, flow := .returned }
    | .call function =>
      { tape
        staged := sources.map fun source =>
          .call function (site.body.calleeCallback flags source) flags.isReturn source }
    | .custom _ => { tape }

theorem callee?_launched (chain : Chain E) (sources : List Source) (flags : Flags)
    (tape : Tape E.Mark) : (site.launched chain sources flags tape).callee? = none := by
  unfold launched
  split
  · rfl
  · split <;> rfl

theorem run?_returnResult (result : Result) (source : Source) (own : s.callee? = none) :
    (Procedure.ofRoutine (Executor.returnResult result source site.id)).run? site.draw s =
      some ((), { s with
        tape := (s.tape.write (source.callback.fire result)).write
          (site.frame.callback.fire result)
        flow := .returned }) := by
  rw [Procedure.ofRoutine_returnResult]
  simp only [Script.run?_bind, run?_fire, run?_frameCallback, Option.bind_some]
  exact run?_discard site _ own

/-- A terminal that returns from the frame does so for each source. -/
theorem run?_takeOver_giveBack (host : Host E) (chain : Chain E) (result : Result)
    (giveBack : ∀ source flags, Context.takeOver host chain source flags site.id =
      Executor.returnResult result source site.id)
    (sources : List Source) (flags : Flags) (own : s.callee? = none) (some : sources ≠ []) :
    (Procedure.takeOver host chain flags site.id sources).run? site.draw s =
      Option.some ((), { s with
        tape := (site.body.giveBack result sources s.tape).1
        flow := .returned }) := by
  induction sources generalizing s with
  | nil => exact absurd rfl some
  | cons source rest ih =>
    -- Already the first source rolls the frame back; the later ones only report.
    simp only [Procedure.takeOver, Script.run?_bind, giveBack, run?_returnResult site s _ _ own,
      Option.bind_some]
    cases rest with
    | nil => rfl
    | cons next rest => exact ih _ own (List.cons_ne_nil _ _)

/-- A terminal that calls a function queues one call for each source. -/
theorem run?_takeOver_call (host : Host E) (chain : Chain E) (function : Function E)
    (call : chain.terminal = .call function) (native : function.isNative = true)
    (sources : List Source) (flags : Flags) (own : s.callee? = none) :
    (Procedure.takeOver host chain flags site.id sources).run? site.draw s =
      some ((), { s with
        staged := s.staged ++ sources.map fun source =>
          .call function (site.body.calleeCallback flags source) flags.isReturn source }) := by
  induction sources generalizing s with
  | nil => simp [Procedure.takeOver]
  | cons source rest ih =>
    have first : (Procedure.ofRoutine
        (Executor.callFunction function source flags site.id)).run? site.draw s =
          some ((), { s with staged := s.staged ++
            [.call function (site.body.calleeCallback flags source) flags.isReturn source] }) := by
      rw [Procedure.ofRoutine_callFunction]
      -- In a returning chain the frame hears the result of the function, too.
      have calls (callback : Callback) (returnParent : Bool) :
          (Action.call function callback returnParent source : Action E).isNative = true := native
      cases isReturn : flags.isReturn with
      | true =>
        simp only [if_true, Script.run?_bind, run?_frameCallback, Option.bind_some]
        rw [run?_enqueue site s own (calls _ _)]
        simp [Body.calleeCallback, isReturn, body]
      | false =>
        simp only [Bool.false_eq_true, if_false]
        rw [run?_enqueue site s own (calls _ _)]
        simp [Body.calleeCallback, isReturn]
    have takeOver : Context.takeOver host chain source flags site.id =
        Executor.callFunction function source flags site.id := by
      simp [Context.takeOver, call]
    simp only [Procedure.takeOver, Script.run?_bind, takeOver, first, Option.bind_some]
    have later := ih { s with staged := s.staged ++
      [.call function (site.body.calleeCallback flags source) flags.isReturn source] } own
    simpa using later

theorem run?_launch (host : Host E) (chain : Chain E) (atEnd : chain.isTerminal = true)
    (native : chain.terminal.isNative = true) (sources : List Source) (flags : Flags)
    (tape : Tape E.Mark) :
    (Procedure.launch host chain sources flags site.id).run? site.draw { tape } =
      some ((), site.launched chain sources flags tape) := by
  cases sources with
  | nil =>
    cases isReturn : flags.isReturn with
    | true =>
      simp only [Procedure.launch, isReturn, if_true, launched, List.isEmpty_nil]
      exact run?_enqueue site _ rfl rfl
    | false => simp [Procedure.launch, isReturn, launched]
  | cons first rest =>
    unfold launched
    cases kind : chain.terminal with
    | command command =>
      -- One execution is scheduled for each source, and all of them are native.
      have executable (sources : List Source) :
          nativeActions (sources.map (Action.execute chain flags)) = true := by
        rw [nativeActions_eq_true_iff]
        intro action mem
        rcases List.mem_map.mp mem with ⟨source, -, rfl⟩
        simp [Action.isNative, atEnd, kind, Terminal.isCommand]
      have schedule := run?_schedule site { tape } (executable (site.body.rebind flags (first :: rest)))
      cases isReturn : flags.isReturn <;>
        simpa [Procedure.launch, kind, Terminal.isCommand, isReturn, Body.rebind, body, target]
          using schedule
    | returnValue value =>
      simp only [Procedure.launch, kind, Terminal.isCommand, Bool.false_eq_true, if_false]
      exact run?_takeOver_giveBack site { tape } host chain (.success value)
        (fun _ _ => by simp [Context.takeOver, kind]) _ flags rfl (List.cons_ne_nil _ _)
    | returnFailure =>
      simp only [Procedure.launch, kind, Terminal.isCommand, Bool.false_eq_true, if_false]
      exact run?_takeOver_giveBack site { tape } host chain .failure
        (fun _ _ => by simp [Context.takeOver, kind]) _ flags rfl (List.cons_ne_nil _ _)
    | call function =>
      simp only [Procedure.launch, kind, Terminal.isCommand, Bool.false_eq_true, if_false]
      exact run?_takeOver_call site { tape } host chain function kind
        (by simpa [kind, Terminal.isNative] using native) _ flags rfl
    | custom code => simp [kind, Terminal.isNative] at native

/-! ## The actions -/

/-- The sketch after a resolution whose walk of the stages has ended. -/
def landed (chain : Chain E) : Option (List Source × Flags) → Sketch E → Sketch E
  | some (sources, flags), s => site.launched chain.atTerminal sources flags s.tape
  | none, s => s

/-- Resolving a chain adds no frame. -/
theorem Walked.callee?_landed {site : Site E} {origin : Source} {input : String}
    {terminal : Terminal E} {eval : List Source → Flags → Evaluation E.Mark} {bound : Nat}
    {result : Option (List Source × Flags)} {s : Sketch E} {value : Tape E.Mark × Flow}
    (h : Walked site origin input terminal eval bound result s value) (chain : Chain E) :
    (site.landed chain result s).callee? = none := by
  cases h with
  | reached sources flags tape => exact callee?_launched site chain.atTerminal sources flags tape
  | aborted | failing | returning => rfl

theorem run?_resolve (host : Host E) (chain : Chain E) (native : chain.isNative = true)
    (origin : Source) (eval : List Source → Flags → Evaluation E.Mark) (sources : List Source)
    (flags : Flags) (tape : Tape E.Mark) :
    ∃ result s, (Procedure.resolve host chain origin sources flags site.id).run? site.draw { tape } =
        some ((), site.landed chain result s) ∧
      Walked site origin chain.input chain.terminal eval chain.ahead.length result s
        (site.body.walk site.setting origin eval chain.ahead sources flags tape) := by
  rcases chain with ⟨input, passed, ahead, terminal⟩
  have native' : (ahead.all (·.redirect.isNative) && terminal.isNative) = true := native
  have nativeTerminal : terminal.isNative = true := ((Bool.and_eq_true _ _).mp native').2
  -- At the terminal no stage is walked and no scope is profiled.
  cases ahead with
  | nil =>
    refine ⟨some (sources, flags), { tape }, ?_, .reached sources flags tape⟩
    exact run?_launch site host ⟨input, passed, [], terminal⟩ rfl nativeTerminal sources flags tape
  | cons stage rest =>
    obtain ⟨result, s, run, walked⟩ := run?_prepare site host origin input terminal eval passed
      (stage :: rest) sources flags tape native'
    refine ⟨result, s, ?_, walked⟩
    simp only [Procedure.resolve, Chain.isTerminal, List.isEmpty_cons, Bool.false_eq_true, if_false,
      Script.run?_bind, run?_openScope, Option.bind_some, run, run?_closeScope]
    generalize site.body.walk site.setting origin eval (stage :: rest) sources flags tape = value
      at walked
    cases walked with
    | reached sources flags tape =>
      let chain : Chain E := { input, passed, ahead := stage :: rest, terminal }
      exact run?_launch site host chain.atTerminal rfl nativeTerminal sources flags tape
    | aborted | failing | returning => rfl

theorem run?_start (host : Host E) (chain : Chain E) (native : chain.isNative = true)
    (source : Source) (tape : Tape E.Mark) :
    ∃ result s, (Procedure.start host chain source site.id).run? site.draw { tape } =
        some ((), site.landed chain result s) ∧
      Walked site source chain.input chain.terminal
        (chain.terminal.eval site.setting site.body chain.input) chain.ahead.length result s
        (chain.eval site.setting site.body source tape) := by
  let started := tape.write (site.setting.traced (.command site.frame.depth chain.input))
  obtain ⟨result, s, run, walked⟩ := run?_resolve site host chain native source
    (chain.terminal.eval site.setting site.body chain.input) [source] .initial started
  have eval : chain.eval site.setting site.body source tape =
      site.body.walk site.setting source (chain.terminal.eval site.setting site.body chain.input)
        chain.ahead [source] .initial started := by
    cases chain
    rw [Chain.eval]
    rfl
  refine ⟨result, s, ?_, eval ▸ walked⟩
  simp only [Procedure.start, Script.run?_bind, run?_frameDepth, run?_trace, Option.bind_some]
  exact run

theorem run?_executeCommand (chain : Chain E) (command : Command) (atEnd : chain.ahead = [])
    (kind : chain.terminal = .command command) (flags : Flags) (source : Source)
    (tape : Tape E.Mark) :
    (Procedure.executeCommand chain flags source site.id).run? site.draw { tape } =
      some ((), {
        tape := (site.setting.execute site.body chain.input command flags source tape).1 }) := by
  have executable : (chain.runExecutable source : Except CommandError Int32 × List (Event E.Mark)) =
      command.execute source := by
    simp [Chain.runExecutable, atEnd, kind]
  simp only [Procedure.executeCommand, Setting.execute, executable, Script.run?_bind,
    run?_openScope, run?_charge, run?_record, Option.bind_some]
  cases (command.execute source : Except CommandError Int32 × List (Event E.Mark)).1 with
  | ok value => simp [body]
  | error error => simp

theorem run?_fallThrough (tape : Tape E.Mark) :
    (Procedure.fallThrough site.id).run? site.draw { tape } =
      some ((), { tape := (site.body.fail tape).1, flow := .returned }) := by
  simp only [Procedure.fallThrough, Script.run?_bind, run?_frameCallback, run?_fire,
    Option.bind_some]
  exact run?_discard site _ rfl

theorem run?_expand (first : Action E) (rest : List (Action E))
    (native : (Action.fanOut first rest).isNative = true) (tape : Tape E.Mark) :
    (Procedure.expand first rest site.id).run? site.draw { tape } =
      some ((), { tape, staged := first :: bundled rest }) := by
  rcases (Bool.and_eq_true _ _).mp native with ⟨nativeFirst, nativeRest⟩
  simp only [Procedure.expand, Script.run?_bind]
  rw [run?_enqueue site _ rfl nativeFirst]
  cases rest with
  | nil => rfl
  | cons next rest =>
    have fanOut : (Action.fanOut next rest).isNative = true := nativeRest
    exact run?_enqueue site { tape, staged := [first] } rfl fanOut

/-- The frame of a function that is called from the site. -/
def calleeFrame (callback : Callback) (returnParent : Bool) : Frame :=
  { depth := site.frame.depth + 1
    callback
    scope := if returnParent then site.frame.scope else .discardFrom (site.frame.depth + 1) }

/-- The sketch after a call of a function. -/
def called (function : Function E) (callback : Callback) (returnParent : Bool) (source : Source)
    (tape : Tape E.Mark) : Sketch E :=
  let tape := tape.charge.write
    (site.setting.traced (.called site.frame.depth function.id function.lines.length))
  if function.lines.isEmpty then
    { tape }
  else
    { tape
      staged := fan (function.lines.map (.line · source))
      callee? := some (site.calleeFrame callback returnParent) }

theorem nativeActions_lines {function : Function E} (native : function.isNative = true)
    (source : Source) : nativeActions (function.lines.map (Action.line · source)) = true := by
  rcases function with ⟨id, lines⟩
  change nativeLines lines = true at native
  induction lines with
  | nil => rfl
  | cons line rest ih =>
    rcases (Bool.and_eq_true _ _).mp native with ⟨first, rest⟩
    exact (Bool.and_eq_true _ _).mpr ⟨first, ih rest⟩

theorem run?_callFunction (function : Function E) (native : function.isNative = true)
    (callback : Callback) (returnParent : Bool) (source : Source) (tape : Tape E.Mark) :
    (Procedure.callFunction function callback returnParent source site.id).run? site.draw { tape } =
      some ((), site.called function callback returnParent source tape) := by
  have lines := nativeActions_lines native source
  simp only [Procedure.callFunction, called, Script.run?_bind, run?_charge, run?_frameDepth,
    run?_trace, run?_record, Option.bind_some, Tape.write_notice]
  by_cases empty : function.lines.isEmpty = true
  · simp [empty]
  · simp only [empty, Bool.false_eq_true, if_false, Script.run?_bind, run?_scopeOf,
      Option.bind_some]
    -- The lines are scheduled in the new frame, which is the target from now on.
    let tape := tape.charge.write
      (site.setting.traced (.called site.frame.depth function.id function.lines.length))
    have push : (Procedure.pushFrame (site.calleeFrame callback returnParent)).run? site.draw
        { tape } = some (site.callee, {
          tape, callee? := some (site.calleeFrame callback returnParent) }) := by
      simp [Procedure.pushFrame, Script.perform, Script.run?, draw, calleeFrame]
    have schedule := run?_schedule site
      { tape, callee? := some (site.calleeFrame callback returnParent) } lines
    rw [calleeFrame] at push
    rw [push]
    exact schedule

theorem entries_called (function : Function E) (callback : Callback) (returnParent : Bool)
    (source : Source) (tape : Tape E.Mark) :
    site.entries (site.called function callback returnParent source tape) =
      (fan (function.lines.map (Action.line · source))).map fun action =>
        { depth := site.frame.depth + 1, frame := site.callee, action } := by
  by_cases empty : function.lines.isEmpty = true
  · simp [called, entries, List.isEmpty_iff.mp empty, fan]
  · simp [called, entries, empty, target, calleeFrame]

/-- The frame that an action has added, if any, has the scope of the action's own frame or is confined
to its own level. -/
def Scoped (sketch : Sketch E) : Prop :=
  ∀ callee, sketch.callee? = some callee →
    callee.scope = site.frame.scope ∨ callee.scope = .discardFrom callee.depth

theorem Scoped.of_none {site : Site E} {sketch : Sketch E} (h : sketch.callee? = none) :
    site.Scoped sketch := by
  intro callee added
  simp [h] at added

theorem scoped_called (function : Function E) (callback : Callback) (returnParent : Bool)
    (source : Source) (tape : Tape E.Mark) :
    site.Scoped (site.called function callback returnParent source tape) := by
  intro callee added
  by_cases empty : function.lines.isEmpty = true
  · simp [called, empty] at added
  · simp only [called, empty, Bool.false_eq_true, if_false, Option.some.injEq] at added
    subst added
    cases returnParent with
    | true => exact .inl rfl
    | false => exact .inr rfl

/-- Every native action is a procedure of the scheduler that stays within what sketches allow. -/
theorem exists_run? (host : Host E) (action : Action E) (native : action.isNative = true)
    (tape : Tape E.Mark) :
    ∃ procedure s, action.work host site.id = .own procedure ∧
      procedure.run? site.draw { tape } = some ((), s) ∧ site.Scoped s := by
  cases action with
  | topLevel chain source =>
    obtain ⟨_, _, run, walked⟩ := run?_start site host chain native source tape
    exact ⟨_, _, rfl, run, .of_none (walked.callee?_landed chain)⟩
  | continuation chain origin sources flags =>
    -- What the interpreter makes of the terminal does not matter here.
    obtain ⟨_, _, run, walked⟩ := run?_resolve site host chain native origin
      (fun _ _ => Evaluation.skip) sources flags tape
    exact ⟨_, _, rfl, run, .of_none (walked.callee?_landed chain)⟩
  | fallthrough => exact ⟨_, _, rfl, run?_fallThrough site tape, .of_none rfl⟩
  | fanOut first rest =>
    exact ⟨_, _, rfl, run?_expand site first rest native tape, .of_none rfl⟩
  | task code => cases native
  | line line source =>
    cases line with
    | chain chain =>
      obtain ⟨_, _, run, walked⟩ := run?_start site host chain native source tape
      exact ⟨_, _, rfl, run, .of_none (walked.callee?_landed chain)⟩
    | custom code => cases native
  | execute chain flags source =>
    rcases (Bool.and_eq_true _ _).mp native with ⟨atEnd, isCommand⟩
    cases kind : chain.terminal with
    | command command =>
      exact ⟨_, _, rfl, run?_executeCommand site chain command (List.isEmpty_iff.mp atEnd) kind
        flags source tape, .of_none rfl⟩
    | returnValue | returnFailure | call | custom => simp [kind, Terminal.isCommand] at isCommand
  | call function callback returnParent source =>
    exact ⟨_, _, rfl, run?_callFunction site function native callback returnParent source tape,
      scoped_called site function callback returnParent source tape⟩

end Site

/-! ## Turns -/

/-- The site at which the entry of a turn is performed. -/
def Start.site (start : Start E) (ctx : Context E) (frame : Frame) : Site E :=
  ctx.site frame start.entry start.context.pending.entries

/-- A turn of a native action, seen through its sketch. -/
structure Sketched (host : Host E) (running : List FrameId) (tape : Tape E.Mark) (ctx : Context E)
    (start : Start E) (next : Context E) (frame : Frame) (procedure : Procedure E Unit)
    (sketch : Sketch E) : Prop where
  live : ctx.frame? start.entry.frame = some frame
  depth : frame.depth = start.entry.depth
  own : start.entry.action.work host start.entry.frame = .own procedure
  run : procedure.run? (start.site ctx frame).draw { tape } = some ((), sketch)
  within : (start.site ctx frame).Scoped sketch
  begins : ({ tape } : Sketch E).Depicts (start.site ctx frame) running start.context
  depicts : sketch.Depicts (start.site ctx frame) running (procedure.apply start.context)
  settled : Poised running ctx.limits ctx.sink? sketch.tape
    ((start.site ctx frame).entries sketch ++
      sketch.flow.prune frame.scope start.context.pending.entries) next
  target : sketch.staged ≠ [] → next.frame? ((start.site ctx frame).target sketch).1 =
    some ((start.site ctx frame).target sketch).2

/-- Every turn of a native action has a sketch. -/
theorem Poised.exists_sketch {host : Host E} {running : List FrameId} {limits : Limits}
    {sink? : Option Sink} {tape : Tape E.Mark} {pending : List (Entry E)} {ctx next : Context E}
    {start : Start E} (h : Poised running limits sink? tape pending ctx)
    (turn : Turn host ctx start next) (native : start.entry.action.isNative = true) :
    pending = start.entry :: start.context.pending.entries ∧
      ∃ frame procedure sketch,
        Sketched host running tape ctx start next frame procedure sketch := by
  obtain rfl : pending = start.entry :: start.context.pending.entries :=
    h.pending.symm.trans turn.pending_eq
  refine ⟨rfl, ?_⟩
  rcases h.exists_frame? List.mem_cons_self with ⟨frame, live, depth⟩
  obtain ⟨procedure, sketch, own, run, within⟩ :=
    (start.site ctx frame).exists_run? host start.entry.action native tape
  rcases turn.own own with ⟨intact, rfl⟩
  have begins := h.start live turn.popped
  have depicts : sketch.Depicts (start.site ctx frame) running (procedure.apply start.context) := by
    rcases begins.run run with overflowed | ⟨-, depicts⟩
    · simp [intact] at overflowed
    · exact depicts
  rcases depicts.settle with ⟨settled, target⟩
  exact ⟨frame, procedure, sketch, live, depth, own, run, within, begins, depicts, settled, target⟩

end CommandScheduler
