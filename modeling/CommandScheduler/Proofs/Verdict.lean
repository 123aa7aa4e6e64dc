import CommandScheduler.Proofs.Hearing

/-!
# Verdict — what a native action does with a callback

As long as a root callback has heard nothing, either the answer is still open, or it is promised to a
single piece of work that is pending with nothing else beside it that could answer.  A native action
keeps it open, promises it or gives it; once it has been given, only executions are left that do not
know the callback.
-/

namespace CommandScheduler

/-! ## Work that may answer -/

/-- Whether a rollback of the scope reaches a level. -/
def Scope.Reaches : Scope → Nat → Prop
  | clearAll, _ => True
  | discardFrom depth, level => depth ≤ level

theorem Scope.Reaches.succ {scope : Scope} {level : Nat} (h : scope.Reaches level) :
    scope.Reaches (level + 1) := by
  cases scope with
  | clearAll => trivial
  | discardFrom depth => exact Nat.le_succ_of_le h

section Actions

variable {V : Vocabulary}

theorem Scope.survivors_of_reaches {scope : Scope} {entries : List (Entry V)}
    (h : ∀ entry ∈ entries, scope.Reaches entry.depth) : scope.survivors entries = [] := by
  cases scope with
  | clearAll => rfl
  | discardFrom depth =>
    exact List.dropWhile_eq_nil_iff.mpr fun entry mem => decide_eq_true (h entry mem)

/-- Whether values returned to the frame are heard by the callback; if they are, a return from the
frame has the given scope. -/
inductive Frame.Tuned (watched : Callback) (scope : Scope) (frame : Frame) : Bool → Prop where
  | hearing : frame.callback.Includes watched → frame.scope = scope → frame.Tuned watched scope true
  | deaf : frame.callback.Excludes watched → frame.Tuned watched scope false

namespace Action

/-- The actions that a fan-out brings in; any other action is its only part. -/
def parts : Action V → List (Action V)
  | fanOut first rest => first :: rest
  | action => [action]

/-- An action of a frame, of which `hears` says whether it hears the callback, that does not know the
callback by itself.  Calls may bring it to a body that returns for the frame. -/
def Open (watched : Callback) (hears : Bool) : Action V → Prop
  | topLevel chain source => chain.Avoids watched ∧ source.Avoids watched
  | line work source => work.Avoids watched ∧ source.Avoids watched
  | continuation chain _ sources _ =>
    hears = false ∧ chain.Avoids watched ∧ ∀ source ∈ sources, source.Avoids watched
  | fallthrough => True
  | execute _ _ source => source.Avoids watched
  | call function callback returnParent source =>
    function.Avoids watched ∧ source.Avoids watched ∧
      (callback.Excludes watched ∨
        hears = true ∧ returnParent = true ∧ callback.Includes watched)
  | fanOut .. | task _ => False

/-- An execution that does not know the callback. -/
def Spent (watched : Callback) : Action V → Prop
  | execute _ _ source => source.Avoids watched
  | _ => False

/-- The actions among which the first one alone will answer: the rest of a returning chain, an
execution or a root call, and behind it only executions that do not know the callback. -/
inductive Promised (watched : Callback) : List (Action V) → Prop where
  | continuation {chain : Chain V} {origin : Source} {sources : List Source} {flags : Flags} :
      chain.Avoids watched → (∀ source ∈ sources, source.Avoids watched) →
        Promised watched [.continuation chain origin sources flags]
  | execute {chain : Chain V} {flags : Flags} {source : Source} {rest : List (Action V)} :
      source.callback.Includes watched → (∀ action ∈ rest, action.Spent watched) →
        Promised watched (.execute chain flags source :: rest)
  | call {function : Function V} {callback : Callback} {source : Source} :
      function.Avoids watched → source.Avoids watched → callback.Includes watched →
        Promised watched [.call function callback false source]

theorem parts_ne_nil (action : Action V) : action.parts ≠ [] := by
  cases action <;> exact List.cons_ne_nil _ _

theorem Open.parts_eq {watched : Callback} {hears : Bool} {action : Action V}
    (h : action.Open watched hears) : action.parts = [action] := by
  cases action with
  | fanOut => exact absurd h id
  | topLevel | continuation | fallthrough | task | line | execute | call => rfl

theorem Spent.parts_eq {watched : Callback} {action : Action V} (h : action.Spent watched) :
    action.parts = [action] := by
  cases action with
  | execute => rfl
  | topLevel | continuation | fallthrough | fanOut | task | line | call => exact h.elim

/-- It may also wait for an answer that is still open. -/
theorem Spent.open {watched : Callback} {action : Action V} (h : action.Spent watched)
    (hears : Bool) : action.Open watched hears := by
  cases action with
  | execute => exact h
  | topLevel | continuation | fallthrough | fanOut | task | line | call => exact h.elim

/-- Only the first one knows the callback. -/
theorem Promised.spent {watched : Callback} {front back : List (Action V)}
    (h : Promised watched (front ++ back)) (some : front ≠ []) :
    ∀ action ∈ back, action.Spent watched := by
  rcases List.exists_cons_of_ne_nil some with ⟨first, rest, rfl⟩
  replace h : Promised watched (first :: (rest ++ back)) := h
  have later : ∀ action ∈ rest ++ back, action.Spent watched := by
    generalize rest ++ back = later at h
    cases h with
    | execute _ spent => exact spent
    | continuation | call => exact fun action mem => absurd mem List.not_mem_nil
  exact fun action mem => later action (List.mem_append_right _ mem)

theorem flatMap_parts {actions : List (Action V)}
    (single : ∀ action ∈ actions, action.parts = [action]) : actions.flatMap parts = actions := by
  induction actions with
  | nil => rfl
  | cons first rest ih =>
    rw [List.flatMap_cons, single first List.mem_cons_self,
      ih fun action mem => single action (List.mem_cons_of_mem _ mem)]
    rfl

/-- What a fan-out expands to has the same parts. -/
theorem flatMap_parts_expanded {first : Action V} (single : first.parts = [first])
    (rest : List (Action V)) : (first :: bundled rest).flatMap parts = first :: rest := by
  rw [List.flatMap_cons, single]
  cases rest <;> simp [bundled, parts]

/-- A fan-out has the same parts as the list it stands for. -/
theorem flatMap_parts_fan {actions : List (Action V)}
    (single : ∀ action ∈ actions, action.parts = [action]) :
    (fan actions).flatMap parts = actions := by
  unfold fan
  split
  · rfl
  · exact flatMap_parts single
  · exact flatMap_parts single
  · simp [parts]

theorem open_of_fan {watched : Callback} {hears : Bool} {actions : List (Action V)}
    (h : ∀ action ∈ actions, action.Open watched hears) :
    ∀ part ∈ (fan actions).flatMap parts, part.Open watched hears := by
  rw [flatMap_parts_fan fun action mem => (h action mem).parts_eq]
  exact h

end Action
end Actions

variable {E : Embedding} {watched : Callback} {scope : Scope} {hears : Bool} {site : Site E}
  {tape : Tape E.Mark}

/-! ## Walking the stages -/

/-- How the walk of a chain's stages ends if the chain avoids the callback. -/
inductive Unheard (watched : Callback) (tape : Tape E.Mark) (returning : Bool) :
    Option (List Source × Flags) → Sketch E → Prop where
  | reached {sources : List Source} {flags : Flags} {after : Tape E.Mark} :
      after.heard watched = tape.heard watched → (∀ source ∈ sources, source.Avoids watched) →
      flags.isReturn = returning →
        Unheard watched tape returning (some (sources, flags)) { tape := after }
  | aborted {after : Tape E.Mark} : after.heard watched = tape.heard watched →
      Unheard watched tape returning none { tape := after }
  | failing {after : Tape E.Mark} : after.heard watched = tape.heard watched →
      Unheard watched tape returning none { tape := after, staged := [.fallthrough] }
  | returning {chain : Chain E} {origin : Source} {sources : List Source} {flags : Flags}
      {after : Tape E.Mark} :
      after.heard watched = tape.heard watched → chain.Avoids watched →
      (∀ source ∈ sources, source.Avoids watched) →
        Unheard watched tape returning none
          { tape := after
            flow := .returned
            staged := [.continuation chain origin sources flags] }

namespace Site

/-- A chain that avoids the callback walks its stages without telling it anything. -/
theorem run?_prepare_unheard (host : Host E) (origin : Source) (input : String)
    {terminal : Terminal E} (passed : List (Stage E)) {stages : List (Stage E)}
    {sources : List Source} (flags : Flags) {start : Tape E.Mark}
    (native : (stages.all (·.redirect.isNative) && terminal.isNative) = true)
    (avoids : ∀ stage ∈ stages, stage.redirect.Avoids watched) (last : terminal.Avoids watched)
    (free : ∀ source ∈ sources, source.Avoids watched)
    (silent : start.heard watched = tape.heard watched) :
    ∃ result sketch, (Procedure.prepare host origin site.id input terminal passed stages sources
        flags).run? site.draw { tape := start } = some (result, sketch) ∧
      Unheard watched tape flags.isReturn result sketch := by
  -- Along the stages the sources keep avoiding the callback, and the tape stays silent.
  induction stages generalizing passed sources flags start with
  | nil => exact ⟨_, _, rfl, .reached silent free rfl⟩
  | cons stage rest ih =>
    rcases stage with ⟨forked, redirect⟩
    have native' : (rest.all (·.redirect.isNative) && terminal.isNative) = true := by
      simp only [List.all_cons, Bool.and_eq_true] at native ⊢
      exact ⟨native.1.2, native.2⟩
    have avoids' : ∀ stage ∈ rest, stage.redirect.Avoids watched :=
      fun stage mem => avoids stage (List.mem_cons_of_mem _ mem)
    have same := flags.isReturn_forkedIf forked
    cases redirect with
    | passthrough =>
      rw [← same]
      exact ih (⟨forked, .passthrough⟩ :: passed) (flags.forkedIf forked) native' avoids' free
        silent
    | modifier apply =>
      have step := run?_applyModifier site { tape := start.charge } apply origin
        (flags.forkedIf forked).isForked #[] sources
      have first : Modifier.Avoids watched apply := avoids ⟨forked, .modifier apply⟩ List.mem_cons_self
      have none : ∀ source ∈ ([] : List Source), source.Avoids watched := by simp
      have modified := site.setting.modify_avoids first origin (flags.forkedIf forked).isForked none
        free start.charge
      simp only [Procedure.prepare, Script.run?_bind, run?_charge, Option.bind_some, step]
      generalize site.setting.modify apply origin (flags.forkedIf forked).isForked [] sources
        start.charge = result at modified
      rcases result with ⟨yielded, after⟩
      have silent : after.heard watched = tape.heard watched := modified.1.trans silent
      cases yielded with
      | none => exact ⟨_, _, rfl, .aborted silent⟩
      | some yielded =>
        rw [← same]
        exact ih (⟨forked, .modifier apply⟩ :: passed) (flags.forkedIf forked) native' avoids'
          (modified.2 yielded rfl) silent
    | returnRun =>
      have routine := Procedure.ofRoutine_returnRun origin sources
        { input, passed, ahead := ⟨forked, .returnRun⟩ :: rest, terminal }
        { input, passed := ⟨forked, .returnRun⟩ :: passed, ahead := rest, terminal }
        rfl (flags.forkedIf forked) site.id
      simp only [Procedure.prepare, routine, Script.run?_bind]
      by_cases empty : sources.isEmpty = true
      · by_cases isReturn : (flags.forkedIf forked).isReturn = true
        · simp only [empty, isReturn, if_true]
          rw [run?_enqueue site _ rfl rfl]
          exact ⟨_, _, rfl, .failing silent⟩
        · simp only [empty, isReturn, if_true, Bool.false_eq_true, if_false]
          exact ⟨_, _, rfl, .aborted silent⟩
      · -- The rest of the chain is queued behind the rollback.
        simp only [empty, Bool.false_eq_true, if_false, Script.run?_bind]
        rw [run?_discard site _ rfl]
        simp only [Option.bind_some]
        have continuation : (Action.continuation
            { input, passed := ⟨forked, .returnRun⟩ :: passed, ahead := rest, terminal } origin
            sources (flags.forkedIf forked).setReturn : Action E).isNative = true := native'
        rw [run?_enqueue site { tape := start, flow := .returned } rfl continuation]
        exact ⟨_, _, rfl, .returning silent ⟨avoids', last⟩ free⟩
    | custom code => simp [Redirect.isNative] at native

end Site

/-! ## Verdicts -/

/-- The result that a terminal returns from the frame, and for how many sources. -/
def Terminal.givenBack {V : Vocabulary} (terminal : Terminal V) (sources : List Source) :
    Option (Result × Nat) :=
  if sources.isEmpty then
    none
  else
    match terminal with
    | .returnValue value => some (.success value, sources.length)
    | .returnFailure => some (.failure, sources.length)
    | .command _ | .call _ | .custom _ => none

/-- The result that the resolution of a chain returns from its frame, and for how many sources. -/
def Context.givenBack (host : Host E) (chain : Chain E) (origin : Source) (sources : List Source)
    (flags : Flags) (frame : FrameId) (ctx : Context E) : Option (Result × Nat) :=
  (ctx.reached host chain origin sources flags frame).bind fun arrived =>
    chain.terminal.givenBack arrived.1

/-- The result that an action returns at a terminal, and for how many sources. -/
def Action.givenBack (host : Host E) (frame : FrameId) (ctx : Context E) :
    Action E → Option (Result × Nat)
  | .topLevel chain source | .line (.chain chain) source =>
    (ctx.trace (.command (ctx.frameDepth frame) chain.input)).givenBack host chain source [source]
      .initial frame
  | .continuation chain origin sources flags => ctx.givenBack host chain origin sources flags frame
  | .fallthrough | .fanOut .. | .task _ | .line (.custom _) _ | .execute .. | .call .. => none

namespace Site

/-- The parts of what is pending when the next turn begins. -/
def agenda (site : Site E) (sketch : Sketch E) : List (Action E) :=
  (sketch.staged ++ (sketch.flow.prune site.frame.scope site.rest).map Entry.action).flatMap
    Action.parts

theorem agenda_expanded {first : Action E} (single : first.parts = [first])
    (rest : List (Action E)) (tape : Tape E.Mark) :
    site.agenda { tape, staged := first :: bundled rest } =
      (Action.fanOut first rest).parts ++ (site.rest.map Entry.action).flatMap Action.parts := by
  rw [agenda, List.flatMap_append, Action.flatMap_parts_expanded single]
  rfl

/-- A return from a frame that hears the callback reaches all that is pending. -/
structure Tuned (watched : Callback) (scope : Scope) (hears : Bool) (site : Site E) : Prop where
  frame : site.frame.Tuned watched scope hears
  top : scope.Reaches site.frame.depth
  rest : ∀ entry ∈ site.rest, scope.Reaches entry.depth

/-- What becomes of the callback when an action is performed at the site. -/
inductive Verdict (watched : Callback) (scope : Scope) (site : Site E) (tape : Tape E.Mark)
    (given : Option (Result × Nat)) (sketch : Sketch E) : Prop where
  /-- It has heard nothing, and what is queued may answer. -/
  | undecided {scope' : Scope} {hears : Bool} :
      sketch.tape.heard watched = tape.heard watched →
      (site.target sketch).2.Tuned watched scope' hears →
      scope'.Reaches (site.target sketch).2.depth →
      (scope' = scope ∨ sketch.flow.prune site.frame.scope site.rest = []) →
      (∀ part ∈ sketch.staged.flatMap Action.parts, part.Open watched hears) →
        Verdict watched scope site tape given sketch
  /-- It has heard nothing, and a single action will answer. -/
  | promised : sketch.tape.heard watched = tape.heard watched → sketch.staged ≠ [] →
      (site.target sketch).2.Tuned watched scope true →
      scope.Reaches (site.target sketch).2.depth → Action.Promised watched (site.agenda sketch) →
        Verdict watched scope site tape given sketch
  /-- It has heard a result, once or as often as the result was returned. -/
  | answered (result : Result) (n : Nat) :
      sketch.tape.heard watched =
        tape.heard watched ++ (List.replicate n (watched.fire result)).flatten →
      (given = some (result, n) ∨ given = none ∧ n = 1) →
      (∀ part ∈ site.agenda sketch, part.Spent watched) →
        Verdict watched scope site tape given sketch

variable {given : Option (Result × Nat)} {sketch : Sketch E}

/-- After a return from a hearing frame nothing of the old work is left. -/
theorem Tuned.prune_eq_nil (h : site.Tuned watched scope true) :
    Flow.returned.prune site.frame.scope site.rest = [] := by
  rcases h with ⟨⟨-, same⟩, -, rest⟩
  rw [same]
  exact Scope.survivors_of_reaches rest

theorem target_of_none (own : sketch.callee? = none) : (site.target sketch).2 = site.frame := by
  simp [target, own]

/-- What is queued in the own frame without knowing the callback. -/
theorem Tuned.undecided (h : site.Tuned watched scope hears) (own : sketch.callee? = none)
    (silent : sketch.tape.heard watched = tape.heard watched)
    (staged : ∀ part ∈ sketch.staged.flatMap Action.parts, part.Open watched hears) :
    site.Verdict watched scope tape given sketch := by
  refine .undecided silent ?_ ?_ (.inl rfl) staged
  · rw [target_of_none own]
    exact h.frame
  · rw [target_of_none own]
    exact h.top

/-- A result is returned from the frame for each of the sources. -/
theorem Tuned.verdict_giveBack (h : site.Tuned watched scope hears) (result : Result)
    {sources : List Source} (free : ∀ source ∈ sources, source.Avoids watched)
    {start : Tape E.Mark} (silent : start.heard watched = tape.heard watched) :
    site.Verdict watched scope tape (some (result, sources.length))
      { tape := (site.body.giveBack result sources start).1, flow := .returned } := by
  have heard := site.body.heard_giveBack result free start
  rw [silent] at heard
  have answer : watched.heard (site.body.callback.fire result : List (Event E.Mark)) =
      watched.heard (site.frame.callback.fire result) := rfl
  cases tuned : h.frame with
  | hearing includes same =>
    -- The rollback has come first, so nobody is left to answer again.
    rw [answer, includes.heard_fire] at heard
    refine .answered result _ heard (.inl rfl) ?_
    simp [agenda, h.prune_eq_nil]
  | deaf excludes =>
    rw [answer, excludes.heard_fire] at heard
    refine h.undecided rfl ?_ ?_
    · simpa using heard
    · simp

/-- In a returning chain a hearing frame hands the callback to the first execution. -/
theorem Tuned.verdict_execute (h : site.Tuned watched scope hears) (chain : Chain E)
    {sources : List Source} (some : sources ≠ []) (free : ∀ source ∈ sources, source.Avoids watched)
    {flags : Flags} (alone : hears = true → flags.isReturn = true → site.rest = [])
    {start : Tape E.Mark} (silent : start.heard watched = tape.heard watched) :
    site.Verdict watched scope tape given
      { tape := start
        staged := fan ((site.body.rebind flags sources).map (.execute chain flags)) } := by
  rcases List.exists_cons_of_ne_nil some with ⟨first, rest, rfl⟩
  have later : ∀ source ∈ rest, source.Avoids watched :=
    fun source mem => free source (List.mem_cons_of_mem _ mem)
  have avoided (sources : List Source) (free : ∀ source ∈ sources, source.Avoids watched) :
      ∀ part ∈ (fan (sources.map (.execute chain flags))).flatMap Action.parts,
        part.Open watched hears :=
    Action.open_of_fan (List.forall_mem_map.mpr free)
  cases isReturn : flags.isReturn with
  | false =>
    refine h.undecided rfl silent ?_
    simpa [Body.rebind, isReturn] using avoided _ free
  | true =>
    have rebound : site.body.rebind flags (first :: rest) =
        first.withCallback (first.callback.chain site.frame.callback) :: rest := by
      simp [Body.rebind, isReturn, body]
    have own : first.callback.Excludes watched := free first List.mem_cons_self
    cases tuned : h.frame with
    | hearing includes same =>
      -- Nothing else is pending, and the other executions do not know the callback.
      have executions : site.agenda { tape := start, staged := fan ((site.body.rebind flags
          (first :: rest)).map (.execute chain flags)) } =
            (site.body.rebind flags (first :: rest)).map (.execute chain flags) := by
        simp only [agenda, Flow.prune, alone rfl isReturn, List.map_nil, List.append_nil]
        exact Action.flatMap_parts_fan (List.forall_mem_map.mpr fun _ _ => rfl)
      refine .promised silent ?_ h.frame h.top ?_
      · exact Action.fan_ne_nil (by simp [rebound])
      · rw [executions, rebound]
        exact .execute (own.chain_includes includes) (List.forall_mem_map.mpr later)
    | deaf excludes =>
      refine h.undecided rfl silent ?_
      rw [rebound]
      refine avoided _ fun source mem => ?_
      rcases List.mem_cons.mp mem with rfl | mem
      · exact own.chain excludes
      · exact later source mem

/-- In a returning chain a hearing frame lends the callback to the bodies of all calls. -/
theorem Tuned.verdict_calls (h : site.Tuned watched scope hears) {function : Function E}
    (avoids : function.Avoids watched) {sources : List Source}
    (free : ∀ source ∈ sources, source.Avoids watched) (flags : Flags) {start : Tape E.Mark}
    (silent : start.heard watched = tape.heard watched) :
    site.Verdict watched scope tape given
      { tape := start
        staged := sources.map fun source =>
          .call function (site.body.calleeCallback flags source) flags.isReturn source } := by
  have calls : ∀ action ∈ sources.map fun source =>
      (.call function (site.body.calleeCallback flags source) flags.isReturn source : Action E),
      action.Open watched hears := by
    refine List.forall_mem_map.mpr fun source mem => ⟨avoids, free source mem, ?_⟩
    have own : source.callback.Excludes watched := free source mem
    cases isReturn : flags.isReturn with
    | false =>
      refine .inl ?_
      simpa [Body.calleeCallback, isReturn] using own
    | true =>
      have chained : site.body.calleeCallback flags source =
          source.callback.chain site.frame.callback := by
        simp [Body.calleeCallback, isReturn, body]
      rw [chained]
      cases h.frame with
      | hearing includes same => exact .inr ⟨rfl, rfl, own.chain_includes includes⟩
      | deaf excludes => exact .inl (own.chain excludes)
  refine h.undecided rfl silent ?_
  rw [Action.flatMap_parts fun action mem => (calls action mem).parts_eq]
  exact calls

theorem Tuned.verdict_launched (h : site.Tuned watched scope hears) (chain : Chain E)
    (native : chain.terminal.isNative = true) (avoids : chain.terminal.Avoids watched)
    {sources : List Source} (free : ∀ source ∈ sources, source.Avoids watched) {flags : Flags}
    (alone : hears = true → flags.isReturn = true → site.rest = []) {start : Tape E.Mark}
    (silent : start.heard watched = tape.heard watched) :
    site.Verdict watched scope tape (chain.terminal.givenBack sources)
      (site.launched chain sources flags start) := by
  unfold launched Terminal.givenBack
  by_cases empty : sources.isEmpty = true
  · simp only [empty, if_true]
    refine h.undecided rfl silent ?_
    cases flags.isReturn <;> simp [Action.parts, Action.Open]
  · have some : sources ≠ [] := by simpa using empty
    simp only [empty, Bool.false_eq_true, if_false]
    cases kind : chain.terminal with
    | command command => exact h.verdict_execute chain some free alone silent
    | returnValue value => exact h.verdict_giveBack (.success value) free silent
    | returnFailure => exact h.verdict_giveBack .failure free silent
    | call function =>
      rw [kind] at avoids
      exact h.verdict_calls avoids free flags silent
    | custom code => simp [kind, Terminal.isNative] at native

/-- After a stage that returns the result of the rest, a hearing frame has nothing left but this
rest. -/
theorem Tuned.verdict_returning (h : site.Tuned watched scope hears) {chain : Chain E}
    (avoids : chain.Avoids watched) (origin : Source) {sources : List Source}
    (free : ∀ source ∈ sources, source.Avoids watched) (flags : Flags) {start : Tape E.Mark}
    (silent : start.heard watched = tape.heard watched) :
    site.Verdict watched scope tape given
      { tape := start
        flow := .returned
        staged := [.continuation chain origin sources flags] } := by
  cases tuned : h.frame with
  | hearing =>
    refine .promised silent (List.cons_ne_nil _ _) h.frame h.top ?_
    simp only [agenda, h.prune_eq_nil, List.map_nil, List.append_nil]
    exact .continuation avoids free
  | deaf =>
    refine h.undecided rfl silent ?_
    intro part mem
    obtain rfl := List.mem_singleton.mp mem
    exact ⟨rfl, avoids, free⟩

theorem Tuned.exists_verdict_resolve (h : site.Tuned watched scope hears) (host : Host E)
    {chain : Chain E} (native : chain.isNative = true) (avoids : chain.Avoids watched)
    (origin : Source) {sources : List Source} (free : ∀ source ∈ sources, source.Avoids watched)
    (flags : Flags) (alone : hears = true → flags.isReturn = true → site.rest = [])
    {start : Tape E.Mark} (silent : start.heard watched = tape.heard watched) :
    ∃ sketch, (Procedure.resolve host chain origin sources flags site.id).run? site.draw
        { tape := start } = some ((), sketch) ∧
      ∀ running ctx, ({ tape := start } : Sketch E).Echoes site running ctx →
        site.Verdict watched scope tape (ctx.givenBack host chain origin sources flags site.id)
          sketch := by
  rcases chain with ⟨input, passed, ahead, terminal⟩
  have native' : (ahead.all (·.redirect.isNative) && terminal.isNative) = true := native
  have nativeTerminal : terminal.isNative = true := ((Bool.and_eq_true _ _).mp native').2
  rcases avoids with ⟨stages, last⟩
  cases ahead with
  | nil =>
    let chain : Chain E := ⟨input, passed, [], terminal⟩
    refine ⟨_, site.run?_launch host chain rfl nativeTerminal sources flags start, ?_⟩
    intro running ctx _
    exact h.verdict_launched chain nativeTerminal last free alone silent
  | cons stage rest =>
    let chain : Chain E := ⟨input, passed, stage :: rest, terminal⟩
    obtain ⟨result, sketch, walk, unheard⟩ := site.run?_prepare_unheard host origin input passed
      flags native' stages last free silent
    -- The stages get the same replies from a context as from the sketch, even after an overflow.
    have reached (running : List FrameId) (ctx : Context E)
        (echoes : ({ tape := start } : Sketch E).Echoes site running ctx) :
        ctx.reached host chain origin sources flags site.id = result := by
      have opened := (echoes.deed (.openScope ("prepare " ++ input)) rfl).2
      have same := (opened.run walk).1
      rw [Procedure.run_prepare] at same
      exact same
    simp only [Procedure.resolve, Chain.isTerminal, List.isEmpty_cons, Bool.false_eq_true, if_false,
      Script.run?_bind, run?_openScope, Option.bind_some, walk, run?_closeScope]
    cases unheard with
    | @reached arrived flags' after silent free isReturn =>
      have launch := site.run?_launch host chain.atTerminal rfl nativeTerminal arrived flags' after
      refine ⟨_, launch, ?_⟩
      intro running ctx echoes
      have given : ctx.givenBack host chain origin sources flags site.id =
          chain.atTerminal.terminal.givenBack arrived := by
        rw [Context.givenBack, reached running ctx echoes]
        rfl
      rw [given]
      exact h.verdict_launched chain.atTerminal nativeTerminal last free
        (isReturn ▸ alone) silent
    | aborted silent =>
      exact ⟨_, rfl, fun _ _ _ => h.undecided rfl silent (by simp)⟩
    | failing silent =>
      refine ⟨_, rfl, fun _ _ _ => h.undecided rfl silent ?_⟩
      simp [Action.parts, Action.Open]
    | returning silent avoids free =>
      exact ⟨_, rfl, fun _ _ _ => h.verdict_returning avoids _ free _ silent⟩

theorem Tuned.exists_verdict_start (h : site.Tuned watched scope hears) (host : Host E)
    {chain : Chain E} (native : chain.isNative = true) (avoids : chain.Avoids watched)
    {source : Source} (free : source.Avoids watched) (tape : Tape E.Mark) :
    ∃ sketch, (Procedure.start host chain source site.id).run? site.draw { tape } =
        some ((), sketch) ∧
      ∀ running ctx, ({ tape } : Sketch E).Echoes site running ctx →
        site.Verdict watched scope tape
          ((ctx.trace (.command (ctx.frameDepth site.id) chain.input)).givenBack host chain source
            [source] .initial site.id) sketch := by
  let event : TraceEvent := .command site.frame.depth chain.input
  have silent : (tape.write (site.setting.traced event)).heard watched = tape.heard watched := by
    rw [Tape.heard_write, Setting.heard_traced, List.append_nil]
  have initial : hears = true → Flags.initial.isReturn = true → site.rest = [] :=
    fun _ isReturn => Bool.noConfusion isReturn
  obtain ⟨sketch, run, verdict⟩ := h.exists_verdict_resolve host native avoids source
    (List.forall_mem_singleton.mpr free) .initial initial silent
  refine ⟨sketch, ?_, ?_⟩
  · simp only [Procedure.start, Script.run?_bind, run?_frameDepth, run?_trace, Option.bind_some]
    exact run
  · intro running ctx echoes
    have depth : ctx.frameDepth site.id = site.frame.depth := by
      simp [Context.frameDepth, echoes.frame]
    rw [depth]
    exact verdict running _ (echoes.deed (.effect (.trace event)) rfl).2

theorem Tuned.verdict_fallThrough (h : site.Tuned watched scope hears) (tape : Tape E.Mark) :
    site.Verdict watched scope tape none
      { tape := (site.body.fail tape).1, flow := .returned } := by
  have heard : (site.body.fail tape).1.heard watched =
      tape.heard watched ++ watched.heard (site.frame.callback.fire .failure) :=
    Tape.heard_write ..
  cases tuned : h.frame with
  | hearing includes same =>
    rw [includes.heard_fire] at heard
    refine .answered .failure 1 ?_ (.inr ⟨rfl, rfl⟩) ?_
    · simpa using heard
    · simp [agenda, h.prune_eq_nil]
  | deaf excludes =>
    rw [excludes.heard_fire, List.append_nil] at heard
    exact h.undecided rfl heard (by simp)

/-- The body of a call hears the callback if the call does, and then returns for the frame. -/
theorem Tuned.verdict_called (h : site.Tuned watched scope hears) {function : Function E}
    (avoids : function.Avoids watched) {callback : Callback} {returnParent : Bool}
    {source : Source} (free : source.Avoids watched) {inner : Bool} {scope' : Scope}
    (tuned : (site.calleeFrame callback returnParent).Tuned watched scope' inner)
    (reaches : scope'.Reaches (site.frame.depth + 1)) (same : scope' = scope ∨ site.rest = [])
    (tape : Tape E.Mark) :
    site.Verdict watched scope tape given (site.called function callback returnParent source tape) := by
  have silent : (tape.charge.write (site.setting.traced
      (.called site.frame.depth function.id function.lines.length))).heard watched =
        tape.heard watched := by
    rw [Tape.heard_write, Setting.heard_traced, List.append_nil]
    rfl
  by_cases empty : function.lines.isEmpty = true
  · simp only [called, empty, if_true]
    exact h.undecided rfl silent (by simp)
  · simp only [called, empty, Bool.false_eq_true, if_false]
    refine .undecided silent tuned reaches same ?_
    exact Action.open_of_fan (List.forall_mem_map.mpr fun line mem => ⟨avoids.line line mem, free⟩)

/-- An execution queues nothing and tells the source's callback one result. -/
theorem exists_run?_execute (watched : Callback) (site : Site E) {chain : Chain E} {flags : Flags}
    {source : Source} (native : (Action.execute chain flags source : Action E).isNative = true)
    (tape : Tape E.Mark) :
    ∃ after result, (Procedure.executeCommand chain flags source site.id).run? site.draw { tape } =
        some ((), { tape := after }) ∧
      after.heard watched = tape.heard watched ++ watched.heard (source.callback.fire result) := by
  rcases (Bool.and_eq_true _ _).mp native with ⟨atEnd, isCommand⟩
  cases kind : chain.terminal with
  | command command =>
    rcases site.setting.heard_execute watched site.body chain.input command flags source tape with
      ⟨result, heard⟩
    exact ⟨_, result, site.run?_executeCommand chain command (List.isEmpty_iff.mp atEnd) kind flags
      source tape, heard⟩
  | returnValue | returnFailure | call | custom => simp [kind, Terminal.isCommand] at isCommand

theorem Tuned.exists_verdict_of_open (h : site.Tuned watched scope hears) (host : Host E)
    {action : Action E} (native : action.isNative = true)
    (unknown : ∀ part ∈ action.parts, part.Open watched hears) (tape : Tape E.Mark) :
    ∃ procedure sketch, action.work host site.id = .own procedure ∧
      procedure.run? site.draw { tape } = some ((), sketch) ∧
      ∀ running ctx, ({ tape } : Sketch E).Echoes site running ctx →
        site.Verdict watched scope tape (action.givenBack host site.id ctx) sketch := by
  cases action with
  | topLevel chain source =>
    rcases unknown _ (List.mem_singleton_self _) with ⟨avoids, free⟩
    obtain ⟨sketch, run, verdict⟩ := h.exists_verdict_start host native avoids free tape
    exact ⟨_, sketch, rfl, run, verdict⟩
  | continuation chain origin sources flags =>
    rcases unknown _ (List.mem_singleton_self _) with ⟨rfl, avoids, free⟩
    obtain ⟨sketch, run, verdict⟩ := h.exists_verdict_resolve host native avoids origin free
      flags (fun hears => Bool.noConfusion hears) rfl
    exact ⟨_, sketch, rfl, run, verdict⟩
  | fallthrough =>
    exact ⟨_, _, rfl, run?_fallThrough site tape, fun _ _ _ => h.verdict_fallThrough tape⟩
  | fanOut first rest =>
    refine ⟨_, _, rfl, run?_expand site first rest native tape, fun _ _ _ => ?_⟩
    have single := (unknown first List.mem_cons_self).parts_eq
    refine h.undecided rfl rfl ?_
    exact Action.flatMap_parts_expanded single rest ▸ unknown
  | task code => cases native
  | line line source =>
    rcases unknown _ (List.mem_singleton_self _) with ⟨avoids, free⟩
    cases line with
    | chain chain =>
      obtain ⟨sketch, run, verdict⟩ := h.exists_verdict_start host native avoids free tape
      exact ⟨_, sketch, rfl, run, verdict⟩
    | custom code => cases native
  | execute chain flags source =>
    have free : source.Avoids watched := unknown _ (List.mem_singleton_self _)
    rcases site.exists_run?_execute watched native tape with ⟨after, result, run, heard⟩
    rw [free.heard_fire, List.append_nil] at heard
    exact ⟨_, _, rfl, run, fun _ _ _ => h.undecided rfl heard (by simp)⟩
  | call function callback returnParent source =>
    rcases unknown _ (List.mem_singleton_self _) with ⟨avoids, free, known⟩
    refine ⟨_, _, rfl, run?_callFunction site function native callback returnParent source tape,
      fun _ _ _ => ?_⟩
    -- The body hears the callback only if its returns go to the frame as well.
    rcases known with excludes | ⟨rfl, rfl, includes⟩
    · exact h.verdict_called avoids free (.deaf excludes) h.top.succ (.inl rfl) tape
    · rcases h.frame with ⟨-, same⟩
      have inherits : (site.calleeFrame callback true).scope = scope := same
      exact h.verdict_called avoids free (.hearing includes inherits) h.top.succ (.inl rfl) tape

/-- Nothing else is pending if there are no other parts. -/
theorem rest_eq_nil (h : (site.rest.map Entry.action).flatMap Action.parts = []) :
    site.rest = [] := by
  cases rest : site.rest with
  | nil => rfl
  | cons entry entries =>
    rw [rest, List.map_cons, List.flatMap_cons] at h
    exact absurd (List.append_eq_nil_iff.mp h).1 entry.action.parts_ne_nil

theorem Tuned.exists_verdict_of_promised (h : site.Tuned watched scope true) (host : Host E)
    {action : Action E} (native : action.isNative = true)
    (promised : Action.Promised watched
      (action.parts ++ (site.rest.map Entry.action).flatMap Action.parts)) (tape : Tape E.Mark) :
    ∃ procedure sketch, action.work host site.id = .own procedure ∧
      procedure.run? site.draw { tape } = some ((), sketch) ∧
      ∀ running ctx, ({ tape } : Sketch E).Echoes site running ctx →
        site.Verdict watched scope tape (action.givenBack host site.id ctx) sketch := by
  -- Which promise it is shows in the first part alone, whatever else is pending.
  generalize parts : (site.rest.map Entry.action).flatMap Action.parts = others at promised
  cases action with
  | continuation chain origin sources flags =>
    cases promised with
    | continuation avoids free =>
      obtain ⟨sketch, run, verdict⟩ := h.exists_verdict_resolve host native avoids origin free
        flags (fun _ _ => rest_eq_nil parts) rfl
      exact ⟨_, sketch, rfl, run, verdict⟩
  | execute chain flags source =>
    cases promised with
    | execute includes spent =>
      rcases site.exists_run?_execute watched native tape with ⟨after, result, run, heard⟩
      rw [includes.heard_fire] at heard
      refine ⟨_, _, rfl, run, fun _ _ _ => .answered result 1 ?_ (.inr ⟨rfl, rfl⟩) ?_⟩
      · simpa using heard
      · rw [agenda, List.nil_append]
        exact parts ▸ spent
  | call function callback returnParent source =>
    cases promised with
    | call avoids free includes =>
      -- The body of a root call is confined to its own level, and so is all that is pending then.
      refine ⟨_, _, rfl, run?_callFunction site function native callback false source tape,
        fun _ _ _ => ?_⟩
      exact h.verdict_called avoids free (.hearing includes rfl) (Nat.le_refl _)
        (.inr (rest_eq_nil parts)) tape
  | fanOut first rest =>
    refine ⟨_, _, rfl, run?_expand site first rest native tape, fun _ _ _ => ?_⟩
    refine .promised rfl (List.cons_ne_nil _ _) h.frame h.top ?_
    have single : first.parts = [first] := by
      replace promised : Action.Promised watched (first :: (rest ++ others)) := promised
      generalize rest ++ others = later at promised
      cases promised <;> rfl
    rw [agenda_expanded single, parts]
    exact promised
  | topLevel | fallthrough | task | line => cases promised

/-- Executions that do not know the callback tell it nothing, and bring in nothing else. -/
theorem exists_run?_of_spent (host : Host E) {action : Action E} (native : action.isNative = true)
    (spent : ∀ part ∈ action.parts ++ (site.rest.map Entry.action).flatMap Action.parts,
      part.Spent watched) (tape : Tape E.Mark) :
    ∃ procedure sketch, action.work host site.id = .own procedure ∧
      procedure.run? site.draw { tape } = some ((), sketch) ∧
      sketch.tape.heard watched = tape.heard watched ∧
      ∀ part ∈ site.agenda sketch, part.Spent watched := by
  rcases List.forall_mem_append.mp spent with ⟨own, others⟩
  cases action with
  | execute chain flags source =>
    have free : source.Avoids watched := own _ (List.mem_singleton_self _)
    rcases site.exists_run?_execute watched native tape with ⟨after, result, run, heard⟩
    rw [free.heard_fire, List.append_nil] at heard
    exact ⟨_, _, rfl, run, heard, others⟩
  | fanOut first rest =>
    refine ⟨_, _, rfl, run?_expand site first rest native tape, rfl, ?_⟩
    rw [agenda_expanded (own first List.mem_cons_self).parts_eq]
    exact spent
  | topLevel | continuation | fallthrough | task | line | call =>
    exact (own _ (List.mem_singleton_self _)).elim

end Site

end CommandScheduler
