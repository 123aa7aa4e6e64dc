import CommandScheduler.Proofs.Steps

/-!
# Refinement — the run loop does what the interpreter does

A block of queued actions simulates a piece of the interpreter's work if the run loop, whatever else
is pending, writes the same tape and then goes on with the rest, or with what the scope of the frame
leaves of it if the work has returned.

Blocks are put together like the work: one action after another, a fan-out like the list it stands
for, a call like the lines of its function one level below.  The simulation of a whole program then
follows by recursion over the program.
-/

namespace CommandScheduler

variable {E : Embedding}

/-! ## Parts of a run -/

theorem Course.overflowed_of_outcome {host : Host E} {ctx final : Context E}
    {starts : List (Start E)} {outcome : Outcome} (course : Course host ctx starts outcome final)
    (h : outcome = .overflowed) : final.overflowed = true := by
  induction course with
  | exhausted | completed => cases h
  | overflowed _ _ _ overflowed => exact overflowed
  | turn _ _ ih => exact ih h

/-- The run either overflows, or gets to a context of the given kind. -/
def Context.Gets (host : Host E) (ctx : Context E) (P : Context E → Prop) : Prop :=
  (∃ starts final, Course host ctx starts .overflowed final) ∨
    ∃ starts ctx', Turns host ctx starts ctx' ∧ P ctx'

namespace Context.Gets

variable {host : Host E} {ctx : Context E} {P Q : Context E → Prop}

theorem refl (h : P ctx) : ctx.Gets host P :=
  .inr ⟨[], ctx, .refl ctx, h⟩

theorem of_turns {ctx' : Context E} {starts : List (Start E)} (turns : Turns host ctx starts ctx')
    (h : ctx'.Gets host P) : ctx.Gets host P := by
  -- Turns can be put in front of both ends.
  rcases h with ⟨starts', final, course⟩ | ⟨starts', ctx'', turns', h⟩
  · exact .inl ⟨_, final, turns.course course⟩
  · exact .inr ⟨_, ctx'', turns.trans turns', h⟩

theorem bind (h : ctx.Gets host P)
    (next : ∀ starts ctx', Turns host ctx starts ctx' → P ctx' → ctx'.Gets host Q) :
    ctx.Gets host Q := by
  rcases h with overflows | ⟨starts, ctx', turns, h⟩
  · exact .inl overflows
  · exact of_turns turns (next starts ctx' turns h)

end Context.Gets

/-! ## Rolling back covers the own level -/

/-- A rollback of the frame reaches at least its own level. -/
def Frame.Covered (frame : Frame) : Prop :=
  ∀ depth, frame.scope = .discardFrom depth → depth ≤ frame.depth

/-- The body that the work of a frame belongs to. -/
def Frame.body (frame : Frame) : Body :=
  { depth := frame.depth, callback := frame.callback }

/-- The entries of a frame's actions. -/
def Frame.entries (frame : Frame) (id : FrameId) (actions : List (Action E)) : List (Entry E) :=
  actions.map fun action => { depth := frame.depth, frame := id, action }

theorem Frame.Covered.survivors_append {frame : Frame} (covered : frame.Covered) (id : FrameId)
    (actions : List (Action E)) (rest : List (Entry E)) :
    frame.scope.survivors (frame.entries id actions ++ rest) = frame.scope.survivors rest := by
  cases scope : frame.scope with
  | clearAll => rfl
  | discardFrom depth =>
    have le := covered depth scope
    induction actions with
    | nil => rfl
    | cons action actions _ => simp [Frame.entries, Scope.survivors, le]

/-- A rollback of a deeper level leaves everything. -/
theorem Scope.survivors_of_shallow {depth : Nat} {rest : List (Entry E)}
    (shallow : ∀ entry ∈ rest, entry.depth < depth) :
    (Scope.discardFrom depth).survivors rest = rest := by
  cases rest with
  | nil => rfl
  | cons entry rest =>
    have above := shallow entry List.mem_cons_self
    simp [survivors, Nat.not_le.mpr above]

/-! ## One turn -/

/-- A native action is performed in one turn, after which its entries stand in front. -/
theorem Poised.gets {host : Host E} {running : List FrameId} {limits : Limits}
    {sink? : Option Sink} {tape : Tape E.Mark} {entry : Entry E} {rest : List (Entry E)}
    {ctx : Context E} {frame : Frame} {sketch : Sketch E} {procedure : Procedure E Unit}
    (h : Poised running limits sink? tape (entry :: rest) ctx)
    (live : ctx.frame? entry.frame = some frame) (funded : tape.quota.isExhausted = false)
    (own : entry.action.work host entry.frame = .own procedure)
    (run : procedure.run? (ctx.site frame entry rest).draw { tape } = some ((), sketch)) :
    ctx.Gets host fun next =>
      Poised running limits sink? sketch.tape
        ((ctx.site frame entry rest).entries sketch ++ sketch.flow.prune frame.scope rest) next ∧
      (sketch.staged ≠ [] → next.frame? ((ctx.site frame entry rest).target sketch).1 =
        some ((ctx.site frame entry rest).target sketch).2) := by
  rcases Context.exists_pop? h.pending with ⟨pending, -, popped⟩
  let started : Context E := { ctx with pending, depth := entry.depth }
  have unexhausted : ctx.quota.isExhausted = false := by rw [h.quota, funded]
  have performed := Context.perform_own host own started
  rcases h.turn live popped run with overflowed | ⟨poised, target⟩
  · exact .inl ⟨[⟨entry, started⟩], _, .overflowed unexhausted popped performed overflowed⟩
  · have turn : Turn host ctx ⟨entry, started⟩ _ :=
      ⟨unexhausted, popped, 1, _, performed, poised.intact, rfl⟩
    exact .inr ⟨_, _, .single turn, poised, target⟩

/-! ## Simulation -/

/-- What stays the same during a run. -/
structure Scene (E : Embedding) where
  host : Host E
  limits : Limits
  sink? : Option Sink

namespace Scene

variable (scene : Scene E)

/-- What the interpreter knows of it. -/
def setting : Setting :=
  { forkLimit := scene.limits.forkLimit, sink? := scene.sink? }

/-- A site in a frame. -/
def site (frame : Frame) (id callee : FrameId) (rest : List (Entry E)) : Site E :=
  { limits := scene.limits, sink? := scene.sink?, id, frame, callee, rest }

/-- A block of queued actions of a frame does the given work. -/
structure Simulates (frame : Frame) (block : List (Action E)) (eval : Evaluation E.Mark) : Prop where
  /-- Nothing happens without quota. -/
  idle : ∀ tape : Tape E.Mark, tape.quota.isExhausted = true → eval tape = (tape, .goesOn)
  gets : ∀ {running : List FrameId} (id : FrameId) (ctx : Context E) (tape : Tape E.Mark)
    (rest : List (Entry E)),
    Poised running scene.limits scene.sink? tape (frame.entries id block ++ rest) ctx →
    (block ≠ [] → ctx.frame? id = some frame) →
    (∀ entry ∈ rest, entry.depth ≤ frame.depth) →
    ctx.Gets scene.host fun ctx' =>
      ∃ pending, Poised running scene.limits scene.sink? (eval tape).1 pending ctx' ∧
        ((eval tape).1.quota.isExhausted = false →
          pending = (eval tape).2.prune frame.scope rest)

end Scene

/-- What the work after a rollback returns. -/
def Flow.after (flow : Flow) {Mark : Type} (value : Tape Mark × Flow) : Tape Mark × Flow :=
  match flow with
  | goesOn => value
  | returned => (value.1, returned)

namespace Scene.Simulates

variable {scene : Scene E} {frame : Frame} {block block' : List (Action E)}
  {eval eval' : Evaluation E.Mark}

theorem nil (scene : Scene E) (frame : Frame) : scene.Simulates frame [] .skip where
  idle := fun _ _ => rfl
  gets := fun _ _ _ rest poised _ _ => .refl ⟨rest, poised, fun _ => rfl⟩

theorem funded_eq (h : scene.Simulates frame block eval) : eval.funded = eval := by
  funext tape
  unfold Evaluation.funded
  split
  · rename_i exhausted
    exact (h.idle tape exhausted).symm
  · rfl

/-- One block after another. -/
theorem append (covered : frame.Covered) (first : scene.Simulates frame block eval)
    (second : scene.Simulates frame block' eval') :
    scene.Simulates frame (block ++ block') (eval.andThen eval') where
  idle := by
    intro tape exhausted
    simp [Evaluation.andThen, first.idle tape exhausted, second.idle tape exhausted]
  gets := by
    intro running id ctx tape rest poised live shallow
    have entries : frame.entries id (block ++ block') ++ rest =
        frame.entries id block ++ (frame.entries id block' ++ rest) := by
      simp [Frame.entries]
    rw [entries] at poised
    have shallow' : ∀ entry ∈ frame.entries id block' ++ rest, entry.depth ≤ frame.depth := by
      intro entry mem
      rcases List.mem_append.mp mem with mem | mem
      · rcases List.mem_map.mp mem with ⟨action, -, rfl⟩
        exact Nat.le_refl _
      · exact shallow entry mem
    -- For the first block, the second one is a part of what else is pending.
    have reached := first.gets id ctx tape _ poised
      (fun some => live (List.append_ne_nil_of_left_ne_nil some _)) shallow'
    refine reached.bind ?_
    rintro starts ctx' turns ⟨pending, poised', left⟩
    cases result : eval tape with
    | mk tape' flow =>
    simp only [result] at poised' left
    by_cases exhausted : tape'.quota.isExhausted = true
    · -- Without quota the second block does nothing.
      refine .refl ⟨pending, ?_, ?_⟩
      · cases flow <;> simpa [Evaluation.andThen, result, second.idle tape' exhausted] using poised'
      · cases flow <;> simp [Evaluation.andThen, result, second.idle tape' exhausted, exhausted]
    · replace left := left (by simpa using exhausted)
      cases flow with
      | returned =>
        -- The rollback has taken the second block with it.
        refine .refl ⟨pending, ?_, ?_⟩
        · simpa [Evaluation.andThen, result] using poised'
        · intro _
          rw [left]
          simpa [Evaluation.andThen, result, Flow.prune] using
            covered.survivors_append id block' rest
      | goesOn =>
        simp only [Flow.prune] at left
        subst left
        have later := second.gets id ctx' tape' rest poised' (fun some => ?_) shallow
        · simpa [Evaluation.andThen, result] using later
        · -- The second block has waited all the time.
          rcases List.exists_cons_of_ne_nil some with ⟨action, actions, cons⟩
          let entry : Entry E := { depth := frame.depth, frame := id, action }
          have before : entry ∈ ctx.waiting := by
            simp [Context.waiting, poised.pending, Frame.entries, cons, entry]
          have after : entry ∈ ctx'.waiting := by
            simp [Context.waiting, poised'.pending, Frame.entries, cons, entry]
          have evolves := poised.accounted.leads (.turns turns)
          have same := poised.accounted.frame?_of_waiting evolves before after
          exact same.trans (live (List.append_ne_nil_of_right_ne_nil _ some))

/-! ### A single entry -/

theorem of_step {action : Action E}
    (step : ∀ id callee rest tape, ∃ procedure sketch eval',
      action.work scene.host id = .own procedure ∧
      procedure.run? (scene.site frame id callee rest).draw { tape } = some ((), sketch) ∧
      sketch.callee? = none ∧ scene.Simulates frame sketch.staged eval' ∧
      eval tape = sketch.flow.after (eval' sketch.tape)) :
    scene.Simulates frame [action] eval.funded where
  idle := fun tape exhausted => by simp [Evaluation.funded, exhausted]
  gets := by
    intro running id ctx tape rest poised live shallow
    by_cases exhausted : tape.quota.isExhausted = true
    · refine .refl ⟨_, by simpa [Evaluation.funded, exhausted] using poised, ?_⟩
      simp [Evaluation.funded, exhausted]
    · have funded : tape.quota.isExhausted = false := by simpa using exhausted
      rcases step id ⟨ctx.frames.next⟩ rest tape with
        ⟨procedure, sketch, eval', own, run, callee, simulates, eq⟩
      let entry : Entry E := { depth := frame.depth, frame := id, action }
      have site : ctx.site frame entry rest = scene.site frame id ⟨ctx.frames.next⟩ rest := by
        simp [Context.site, Scene.site, poised.limits, poised.sink, entry]
      have target : (ctx.site frame entry rest).target sketch = (id, frame) := by
        simp [Site.target, callee, Context.site, entry]
      have value : eval.funded tape = sketch.flow.after (eval' sketch.tape) := by
        simp [Evaluation.funded, funded, eq]
      have start : Poised running scene.limits scene.sink? tape (entry :: rest) ctx := poised
      -- After the turn, the queued actions are a block of their own.
      have first := start.gets (live (List.cons_ne_nil _ _)) funded own
        (site ▸ run)
      refine first.bind ?_
      rintro starts next turns ⟨poised', live'⟩
      simp only [Site.entries, target] at poised' live'
      have suffix := sketch.flow.prune_suffix frame.scope rest
      refine (simulates.gets id next sketch.tape _ poised' live'
        fun entry mem => shallow entry (suffix.subset mem)).bind ?_
      rintro starts' ctx' - ⟨pending, poised'', left⟩
      rw [value]
      refine .refl ⟨pending, ?_, ?_⟩
      · cases sketch.flow with
        | goesOn => exact poised''
        | returned => exact poised''
      · cases flow : sketch.flow with
        | goesOn => simpa [Flow.after, flow, Flow.prune] using left
        | returned =>
          -- If the queued actions return, too, their rollback finds nothing more to discard.
          intro left'
          rw [left left', flow]
          cases (eval' sketch.tape).2 with
          | goesOn => rfl
          | returned => exact frame.scope.survivors_survivors rest

/-! ### Many entries -/

section Many

variable {α : Type} {action : α → Action E} {work : α → Evaluation E.Mark} {items : List α}

/-- Entries queued one by one. -/
theorem inOrder (covered : frame.Covered)
    (each : ∀ item ∈ items, scene.Simulates frame [action item] (work item)) :
    scene.Simulates frame (items.map action) (.inOrder (items.map work)) := by
  induction items with
  | nil => exact nil scene frame
  | cons item rest ih =>
    have first := each item List.mem_cons_self
    exact first.append covered (ih fun item mem => each item (List.mem_cons_of_mem _ mem))

/-- A fan-out does what the actions it stands for do. -/
theorem fanOut (covered : frame.Covered) {first : α} {rest : List α}
    (native : (Action.fanOut (action first) (rest.map action)).isNative = true)
    (each : ∀ item ∈ first :: rest, scene.Simulates frame [action item] (work item)) :
    scene.Simulates frame [.fanOut (action first) (rest.map action)]
      (.inOrder ((first :: rest).map work)) := by
  induction rest generalizing first with
  | nil =>
    -- The block already waits for quota, so `funded` around it changes nothing.
    have alone := inOrder covered each
    rw [← alone.funded_eq]
    refine of_step ?_
    intro id callee rest tape
    exact ⟨_, _, _, rfl, Site.run?_expand _ _ _ native tape, rfl, alone, rfl⟩
  | cons next rest ih =>
    have nativeRest : (Action.fanOut (action next) (rest.map action)).isNative = true :=
      ((Bool.and_eq_true _ _).mp native).2
    have later := ih nativeRest fun item mem => each item (List.mem_cons_of_mem _ mem)
    -- An expansion leaves the first action and the fan-out of the others.
    have both := (each first List.mem_cons_self).append covered later
    change scene.Simulates frame _ ((work first).andThen (.inOrder ((next :: rest).map work)))
    rw [← both.funded_eq]
    refine of_step ?_
    intro id callee rest tape
    exact ⟨_, _, _, rfl, Site.run?_expand _ _ _ native tape, rfl, both, rfl⟩

/-- Scheduled actions do what they would do one by one. -/
theorem fan (covered : frame.Covered) (native : nativeActions (items.map action) = true)
    (each : ∀ item ∈ items, scene.Simulates frame [action item] (work item)) :
    scene.Simulates frame (CommandScheduler.fan (items.map action))
      (.inOrder (items.map work)) := by
  match items with
  | [] => exact inOrder covered each
  | [_] => exact inOrder covered each
  | [_, _] => exact inOrder covered each
  | _ :: _ :: _ :: _ => exact fanOut covered native each

end Many

/-! ### The scheduler's actions -/

theorem fallThrough (scene : Scene E) (frame : Frame) :
    scene.Simulates frame [.fallthrough]
      (.funded frame.body.fail) := by
  refine of_step ?_
  intro id callee rest tape
  exact ⟨_, _, _, rfl, Site.run?_fallThrough _ tape, rfl, nil scene frame, rfl⟩

theorem execute (scene : Scene E) (frame : Frame) {chain : Chain E} {command : Command}
    (atEnd : chain.ahead = []) (kind : chain.terminal = .command command) (flags : Flags)
    (source : Source) :
    scene.Simulates frame [.execute chain flags source]
      (.funded (scene.setting.execute frame.body chain.input command flags source)) := by
  refine of_step ?_
  intro id callee rest tape
  refine ⟨_, _, _, rfl, Site.run?_executeCommand _ chain command atEnd kind flags source tape, rfl,
    nil scene frame, Prod.ext rfl ?_⟩
  simp only [Setting.execute]
  cases (command.execute source : Except CommandError Int32 × List (Event E.Mark)).1 with
  | ok value => rfl
  | error error => rfl

end Scene.Simulates

/-! ## Chains -/

namespace Scene

variable (scene : Scene E) (frame : Frame)

/-- Whatever reaches the terminal of a chain, the queued actions do its work. -/
def Arrives (input : String) (terminal : Terminal E)
    (eval : List Source → Flags → Evaluation E.Mark) : Prop :=
  ∀ (passed : List (Stage E)) (sources : List Source) (flags : Flags) (tape : Tape E.Mark)
    (site : Site E), site.frame = frame →
    ∃ sketch eval',
      site.launched { input, passed, ahead := [], terminal } sources flags tape = sketch ∧
      sketch.callee? = none ∧ scene.Simulates frame sketch.staged eval' ∧
      frame.body.arrive eval sources flags tape = sketch.flow.after (eval' sketch.tape)

variable {scene frame} {input : String} {terminal : Terminal E}
  {eval : List Source → Flags → Evaluation E.Mark}

/-- What a walk of the stages has queued does the rest of the chain's work, if the same is known for
shorter chains. -/
theorem Arrives.landed (arrives : scene.Arrives frame input terminal eval) {origin : Source}
    {bound : Nat}
    (shorter : ∀ passed rest sources flags, rest.length < bound →
      (rest.all (·.redirect.isNative) && terminal.isNative) = true →
      scene.Simulates frame
        [.continuation { input, passed, ahead := rest, terminal } origin sources flags]
        (.funded (frame.body.walk scene.setting origin eval rest sources flags)))
    {id callee : FrameId} {rest : List (Entry E)} {result : Option (List Source × Flags)}
    {sketch : Sketch E} {value : Tape E.Mark × Flow}
    (walked : (scene.site frame id callee rest).Walked origin input terminal eval bound result sketch
      value) (chain : Chain E) (hinput : chain.input = input) (hterminal : chain.terminal = terminal) :
    ∃ sketch' eval', (scene.site frame id callee rest).landed chain result sketch = sketch' ∧
      sketch'.callee? = none ∧ scene.Simulates frame sketch'.staged eval' ∧
      value = sketch'.flow.after (eval' sketch'.tape) := by
  cases walked with
  | reached sources flags tape =>
    subst hinput hterminal
    exact arrives _ sources flags tape (scene.site frame id callee rest) rfl
  | aborted tape => exact ⟨_, _, rfl, rfl, .nil scene frame, rfl⟩
  | failing tape => exact ⟨_, _, rfl, rfl, .fallThrough scene frame, rfl⟩
  | returning passed later sources flags tape less native =>
    exact ⟨_, _, rfl, rfl, shorter passed later sources flags less native, rfl⟩

/-- A continuation does the rest of a chain's work. -/
theorem Arrives.continuation (arrives : scene.Arrives frame input terminal eval) (origin : Source)
    (passed stages : List (Stage E)) (sources : List Source) (flags : Flags)
    (native : (stages.all (·.redirect.isNative) && terminal.isNative) = true) :
    scene.Simulates frame
      [.continuation { input, passed, ahead := stages, terminal } origin sources flags]
      (.funded (frame.body.walk scene.setting origin eval stages sources flags)) := by
  -- A continuation may queue one of a shorter chain.
  induction length : stages.length using Nat.strongRecOn generalizing passed stages sources flags with
  | ind bound ih =>
    subst length
    refine Simulates.of_step ?_
    intro id callee rest tape
    let chain : Chain E := { input, passed, ahead := stages, terminal }
    obtain ⟨result, sketch, run, walked⟩ := (scene.site frame id callee rest).run?_resolve scene.host
      chain native origin eval sources flags tape
    obtain ⟨sketch', eval', rfl, callee?, simulates, value⟩ := arrives.landed
      (fun passed rest sources flags less native =>
        ih rest.length less passed rest sources flags native rfl)
      walked chain rfl rfl
    exact ⟨_, _, eval', rfl, run, callee?, simulates, value⟩

/-- An action that starts a chain does the chain's work. -/
theorem Arrives.start {chain : Chain E} (native : chain.isNative = true)
    (arrives : scene.Arrives frame chain.input chain.terminal
      (chain.terminal.eval scene.setting frame.body chain.input))
    (source : Source) {action : Action E}
    (starts : ∀ id, action.work scene.host id = .own (.start scene.host chain source id)) :
    scene.Simulates frame [action] (.funded (chain.eval scene.setting frame.body source)) := by
  refine Simulates.of_step ?_
  intro id callee rest tape
  obtain ⟨result, sketch, run, walked⟩ :=
    (scene.site frame id callee rest).run?_start scene.host chain native source tape
  obtain ⟨sketch', eval', rfl, callee?, simulates, value⟩ := arrives.landed
    (fun passed rest sources flags _ native =>
      arrives.continuation source passed rest sources flags native)
    walked chain rfl rfl
  exact ⟨_, _, eval', starts id, run, callee?, simulates, value⟩

/-! ## Calls -/

theorem evalLines_eq_map (setting : Setting) (lines : List (Line E)) (body : Body)
    (source : Source) :
    (evalLines setting lines body source : List (Evaluation E.Mark)) =
      lines.map fun line => .funded (line.eval setting body source) := by
  induction lines with
  | nil => rw [evalLines, List.map_nil]
  | cons line rest ih => rw [evalLines, ih, List.map_cons]

theorem Function.eval_eq (setting : Setting) (function : Function E) (depth : Nat)
    (callback : Callback) (returnParent : Bool) (source : Source) (tape : Tape E.Mark) :
    function.eval setting depth callback returnParent source tape =
      let called := tape.charge.write
        (setting.traced (.called depth function.id function.lines.length))
      let work : Evaluation E.Mark := .inOrder (function.lines.map fun line =>
        .funded (line.eval setting ⟨depth + 1, callback⟩ source))
      ((work called).1, if returnParent then (work called).2 else .goesOn) := by
  rcases function with ⟨id, lines⟩
  rw [Function.eval, evalLines_eq_map]

/-- A call does the work of the function's lines, if those do in frames one level below. -/
theorem Simulates.call {function : Function E} (native : function.isNative = true)
    (callback : Callback) (returnParent : Bool) (covered : returnParent = true → frame.Covered)
    (source : Source)
    (lines : ∀ inner : Frame, inner.Covered →
      ∀ line ∈ function.lines, scene.Simulates inner [.line line source]
        (.funded (line.eval scene.setting inner.body source))) :
    scene.Simulates frame [.call function callback returnParent source]
      (.funded (function.eval scene.setting frame.depth callback returnParent source)) where
  idle := fun tape exhausted => by simp [Evaluation.funded, exhausted]
  gets := by
    intro running id ctx tape rest poised live shallow
    by_cases exhausted : tape.quota.isExhausted = true
    · refine .refl ⟨_, by simpa [Evaluation.funded, exhausted] using poised, ?_⟩
      simp [Evaluation.funded, exhausted]
    · have funded : tape.quota.isExhausted = false := by simpa using exhausted
      let entry : Entry E :=
        { depth := frame.depth, frame := id, action := .call function callback returnParent source }
      let inner : Frame := (ctx.site frame entry rest).calleeFrame callback returnParent
      let block : List (Action E) := CommandScheduler.fan (function.lines.map (Action.line · source))
      let called : Tape E.Mark := tape.charge.write
        (scene.setting.traced (.called frame.depth function.id function.lines.length))
      have start : Poised running scene.limits scene.sink? tape (entry :: rest) ctx := poised
      have setting : (ctx.site frame entry rest).setting = scene.setting := by
        simp [Site.setting, setting, Context.site, poised.limits, poised.sink]
      -- After one turn the lines wait in a frame of their own.
      have arrives : ctx.Gets scene.host fun next =>
          Poised running scene.limits scene.sink? called
            (inner.entries ⟨ctx.frames.next⟩ block ++ rest) next ∧
          (block ≠ [] → next.frame? ⟨ctx.frames.next⟩ = some inner) := by
        have own : entry.action.work scene.host entry.frame =
          .own (.callFunction function callback returnParent source entry.frame) := rfl
        have first := start.gets (live (List.cons_ne_nil _ _)) funded own
          (Site.run?_callFunction _ function native callback returnParent source tape)
        simp only [Site.called, setting] at first
        by_cases empty : function.lines.isEmpty = true
        · have none : function.lines = [] := List.isEmpty_iff.mp empty
          simpa [empty, none, block, called, Frame.entries, Site.entries, Flow.prune,
            CommandScheduler.fan, Context.site] using first
        · simpa [empty, block, called, Frame.entries, Site.entries, Site.target, Flow.prune,
            Context.site, inner] using first
      -- The new frame's scope is its own level or the scope of the caller's frame, one level above.
      have innerCovered : inner.Covered := by
        intro depth scope
        cases returnParent with
        | true => exact Nat.le_succ_of_le (covered rfl depth scope)
        | false =>
          cases scope
          exact Nat.le_refl _
      have simulates := Simulates.fan innerCovered (Site.nativeActions_lines native source)
        (lines inner innerCovered)
      refine arrives.bind ?_
      rintro starts next - ⟨poised', live'⟩
      refine (simulates.gets _ next called rest poised' live' fun entry mem =>
        Nat.le_succ_of_le (shallow entry mem)).bind ?_
      rintro starts' ctx' - ⟨pending, poised'', left⟩
      let work : Evaluation E.Mark :=
        .inOrder (function.lines.map fun line => .funded (line.eval scene.setting inner.body source))
      have value : Evaluation.funded (function.eval scene.setting frame.depth callback returnParent
          source) tape = ((work called).1, if returnParent then (work called).2 else .goesOn) := by
        simp only [Evaluation.funded, funded, Bool.false_eq_true, if_false]
        exact Function.eval_eq _ _ _ _ _ _ _
      rw [value]
      refine .refl ⟨pending, poised'', ?_⟩
      intro left'
      rw [left left']
      cases returnParent with
      | true => rfl
      | false =>
        cases flow : (work called).2 with
        | goesOn => rfl
        | returned =>
          -- A return from the function leaves the caller's entries.
          exact Scope.survivors_of_shallow fun entry mem => Nat.lt_succ_of_le (shallow entry mem)

/-! ## Programs -/

/-- Reaching a terminal of one of the kinds that queue no call. -/
theorem Arrives.of_nonempty
    (some : ∀ passed first rest flags tape (site : Site E), site.frame = frame →
      ∃ sketch eval',
        site.launched { input, passed, ahead := [], terminal } (first :: rest) flags tape = sketch ∧
        sketch.callee? = none ∧ scene.Simulates frame sketch.staged eval' ∧
        eval (first :: rest) flags tape = sketch.flow.after (eval' sketch.tape)) :
    scene.Arrives frame input terminal eval := by
  intro passed sources flags tape site same
  cases sources with
  | nil =>
    cases isReturn : flags.isReturn with
    | true =>
      refine ⟨{ tape, staged := [.fallthrough] }, _, ?_, rfl, .fallThrough scene frame, ?_⟩
      · simp [Site.launched, isReturn]
      · simp [Body.arrive, isReturn, Flow.after]
    | false =>
      refine ⟨{ tape }, _, ?_, rfl, .nil scene frame, ?_⟩
      · simp [Site.launched, isReturn]
      · simp [Body.arrive, isReturn, Flow.after]
  | cons first rest => exact some passed first rest flags tape site same

section Programs

variable (scene)

mutual

theorem terminal_arrives (terminal : Terminal E) (native : terminal.isNative = true)
    (frame : Frame) (covered : frame.Covered) (input : String) :
    scene.Arrives frame input terminal (terminal.eval scene.setting frame.body input) := by
  refine .of_nonempty ?_
  intro passed first rest flags tape site same
  subst same
  -- Only a call goes deeper into the program.
  match terminal with
  | .command command =>
    let chain : Chain E := { input, passed, ahead := [], terminal := .command command }
    have executable : nativeActions
        ((site.body.rebind flags (first :: rest)).map (Action.execute chain flags)) = true := by
      rw [nativeActions_eq_true_iff]
      intro action mem
      rcases List.mem_map.mp mem with ⟨source, -, rfl⟩
      rfl
    have each (source : Source) : scene.Simulates site.frame [.execute chain flags source] _ :=
      .execute scene site.frame rfl rfl flags source
    have executes := Simulates.fan covered executable fun source _ => each source
    refine ⟨_, _, rfl, rfl, executes, ?_⟩
    rw [Terminal.eval]
    rfl
  | .returnValue value =>
    refine ⟨_, _, rfl, rfl, .nil scene site.frame, ?_⟩
    rw [Terminal.eval]
    rfl
  | .returnFailure =>
    refine ⟨_, _, rfl, rfl, .nil scene site.frame, ?_⟩
    rw [Terminal.eval]
    rfl
  | .call function =>
    let body := site.body
    have each (source : Source) := Simulates.call native
      (body.calleeCallback flags source) flags.isReturn (fun _ => covered) source
      fun inner covered =>
        function_simulated function native source inner covered
    have calls := Simulates.inOrder covered fun source (_ : source ∈ first :: rest) => each source
    refine ⟨_, _, rfl, rfl, calls, ?_⟩
    rw [Terminal.eval]
    rfl
  | .custom _ => cases native

theorem function_simulated (function : Function E) (native : function.isNative = true)
    (source : Source) (frame : Frame) (covered : frame.Covered) :
    ∀ line ∈ function.lines, scene.Simulates frame [.line line source]
      (.funded (line.eval scene.setting frame.body source)) := by
  match function with
  | ⟨_, lines⟩ => exact lines_simulated lines native source frame covered

theorem lines_simulated (lines : List (Line E)) (native : nativeLines lines = true)
    (source : Source) (frame : Frame) (covered : frame.Covered) :
    ∀ line ∈ lines, scene.Simulates frame [.line line source]
      (.funded (line.eval scene.setting frame.body source)) := by
  match lines with
  | [] =>
    intro line mem
    cases mem
  | first :: rest =>
    rcases (Bool.and_eq_true _ _).mp native with ⟨nativeFirst, nativeRest⟩
    intro line mem
    rcases List.mem_cons.mp mem with same | mem
    · rw [same]
      exact line_simulated first nativeFirst source frame covered
    · exact lines_simulated rest nativeRest source frame covered line mem

theorem line_simulated (line : Line E) (native : line.isNative = true) (source : Source)
    (frame : Frame) (covered : frame.Covered) :
    scene.Simulates frame [.line line source]
      (.funded (line.eval scene.setting frame.body source)) := by
  match line with
  | .chain chain =>
    rw [Line.eval]
    exact Arrives.start native (chain_arrives chain native frame covered) source fun _ => rfl
  | .custom _ => cases native

theorem chain_arrives (chain : Chain E) (native : chain.isNative = true) (frame : Frame)
    (covered : frame.Covered) :
    scene.Arrives frame chain.input chain.terminal
      (chain.terminal.eval scene.setting frame.body chain.input) := by
  match chain with
  | ⟨input, _, _, terminal⟩ =>
    exact terminal_arrives terminal ((Bool.and_eq_true _ _).mp native).2 frame covered input

end

end Programs

end Scene

/-! ## Runs -/

/-- A poised context in which nothing can be done any more ends the run. -/
theorem Poised.course {host : Host E} {running : List FrameId} {limits : Limits}
    {sink? : Option Sink} {tape : Tape E.Mark} {pending : List (Entry E)} {ctx : Context E}
    (h : Poised running limits sink? tape pending ctx)
    (done : tape.quota.isExhausted = false → pending = []) :
    ∃ final, Course host ctx []
        (if tape.quota.isExhausted then .quotaExhausted else .completed) final ∧
      final.quota = tape.quota ∧
      final.log.toList.filter Event.isObservable = tape.events := by
  cases exhausted : tape.quota.isExhausted with
  | true =>
    refine ⟨_, .exhausted (by rw [h.quota, exhausted]), h.quota, ?_⟩
    simp [Context.finish, Context.notify, Context.record, Event.isObservable, h.events]
  | false =>
    have empty : ctx.pop? = none := ctx.pop?_eq_none_iff.mpr (h.pending.trans (done exhausted))
    exact ⟨_, .completed (by rw [h.quota, exhausted]) empty, h.quota, h.events⟩

/-- The context in which a chain waits as the only root command. -/
theorem poised_queueCommand (limits : Limits) (memory : E.Memory) (profiler : Profiler)
    (sink? : Option Sink) (chain : Chain E) (source : Source) (callback : Callback) :
    let new : Context E := (Context.create limits memory profiler).install sink?
    let frame : Frame := { depth := 0, callback, scope := .clearAll }
    let ctx := (new.queueCommand chain source callback).promote
    Poised [] limits sink? { quota := .ofLimit limits.commandLimit }
        (frame.entries ⟨0⟩ [.topLevel chain source]) ctx ∧
      ctx.frame? ⟨0⟩ = some frame := by
  intro new frame ctx
  have created := (Context.Accounted.create (E := E) limits memory profiler).install sink?
  have pushed := created.accounted.pushTopFrame callback
  have accounted := (pushed.accounted.enqueue ⟨0⟩ (.topLevel chain source)).accounted.promote
  exact ⟨⟨rfl, rfl, rfl, accounted.accounted, rfl, rfl, rfl, rfl⟩, rfl⟩

/-- The run loop refines the interpreter.  A native program that is queued as a root command of a
new context always runs to an end, and unless the queue has overflowed it leaves the same observable
events and the same quota behind as the interpreter does; it has stopped early exactly if the quota
is exhausted. -/
theorem run_refines_interpreter (host : Host E) {chain : Chain E} (native : chain.isNative = true)
    (source : Source) (callback : Callback) (limits : Limits) (memory : E.Memory)
    (profiler : Profiler) (sink? : Option Sink) :
    ∃ outcome final enough,
      (∀ fuel, enough ≤ fuel →
        (((Context.create limits memory profiler : Context E).install sink?).queueCommand chain
          source callback).run host fuel = some (outcome, final)) ∧
      (final.overflowed = false →
        let tape := chain.interpret { forkLimit := limits.forkLimit, sink? } source callback
          (.ofLimit limits.commandLimit)
        final.log.toList.filter Event.isObservable = tape.events ∧
        final.quota = tape.quota ∧
        outcome = if tape.quota.isExhausted then .quotaExhausted else .completed) := by
  let scene : Scene E := { host, limits, sink? }
  let frame : Frame := { depth := 0, callback, scope := .clearAll }
  have covered : frame.Covered := by
    intro depth scope
    cases scope
  rcases poised_queueCommand limits memory profiler sink? chain source callback with ⟨poised, live⟩
  generalize (((Context.create limits memory profiler : Context E).install sink?).queueCommand chain
    source callback) = queued at poised live
  have simulates : scene.Simulates frame [.topLevel chain source] _ :=
    Scene.Arrives.start native (scene.chain_arrives chain native frame covered) source fun _ => rfl
  -- The whole run is the block of the single root command, with nothing else pending.
  have gets := simulates.gets ⟨0⟩ queued.promote _ [] (by simpa using poised) (fun _ => live)
    (by intro entry mem; cases mem)
  rcases gets with ⟨starts, final, course⟩ | ⟨starts, ctx, turns, pending, poised', left⟩
  · rcases course.exists_drain with ⟨enough, drained⟩
    refine ⟨.overflowed, final, enough, fun fuel le => Context.drain_mono le drained, ?_⟩
    intro intact
    rw [course.overflowed_of_outcome rfl] at intact
    cases intact
  · have empty (flow : Flow) : flow.prune frame.scope ([] : List (Entry E)) = [] := by
      cases flow <;> rfl
    obtain ⟨final, course, quota, events⟩ :=
      poised'.course fun unexhausted => (left unexhausted).trans (empty _)
    rcases (turns.course course).exists_drain with ⟨enough, drained⟩
    exact ⟨_, final, enough, fun fuel le => Context.drain_mono le drained,
      fun _ => ⟨events, quota, rfl⟩⟩

/-- A command that returns what a function gives; the second line of the function is skipped. -/
theorem run_refines_interpreter_of_returning_call :
    ∃ (chain : Chain Embedding.bare) (final : Context .bare) (enough : Nat),
      (∀ fuel, enough ≤ fuel →
        (((Context.create { commandLimit := 10 } () .off : Context .bare).install none).queueCommand
          chain (.named "alex") .empty).run .bare fuel = some (.completed, final)) ∧
      final.overflowed = false ∧ final.quota = ⟨9⟩ := by
  let give : Chain Embedding.bare := .ofStages "return 3" [] (.returnValue 3)
  let say : Chain Embedding.bare := .ofStages "say" [] (.command { run := fun _ => .ok 1 })
  let chain : Chain Embedding.bare := .ofStages "return run function" [{ redirect := .returnRun }]
    (.call (.ofChains "function" [give, say]))
  let queued : Context .bare :=
    ((Context.create { commandLimit := 10 } () .off).install none).queueCommand chain
      (.named "alex") .empty
  have native : chain.isNative = true := rfl
  obtain ⟨outcome, final, enough, runs, agrees⟩ := run_refines_interpreter .bare native
    (.named "alex") .empty { commandLimit := 10 } () .off none
  -- The run is short enough to be followed to its end.
  have ran : (queued.run .bare 8).map (·.2.overflowed) = some false := by decide +kernel
  rcases Option.map_eq_some_iff.mp ran with ⟨result, drained, resultIntact⟩
  have same : some result = some (outcome, final) :=
    (Context.drain_mono (Nat.le_max_left 8 enough) drained).symm.trans
      (runs (max 8 enough) (Nat.le_max_right 8 enough))
  have intact : final.overflowed = false := by
    rw [Option.some.inj same] at resultIntact
    exact resultIntact
  rcases agrees intact with ⟨-, quota, ended⟩
  have completed : outcome = .completed := ended
  rw [completed] at runs
  exact ⟨chain, final, enough, runs, intact, quota⟩

end CommandScheduler
