import CommandScheduler.Proofs.Verdict

/-!
# Return — bodies that return for their caller

In a returning chain a function is called for all sources at once, and the bodies of these calls have
the scope and the callback of the caller.  So the first of them that returns is also the last one:
its rollback takes the other calls with it.
-/

namespace CommandScheduler

variable {E : Embedding} {host : Host E} {ctx next : Context E} {start : Start E}

/-! ## Calls report to their caller -/

/-- A call that returns for its caller reports to the source and then to the caller.  A fan-out is no
part of another one. -/
def Action.Chained {V : Vocabulary} (frame : Frame) : Action V → Prop
  | call _ callback true source => callback = source.callback.chain frame.callback
  | fanOut .. => False
  | _ => True

theorem Action.Chained.parts_eq {V : Vocabulary} {frame : Frame} {action : Action V}
    (h : action.Chained frame) : action.parts = [action] := by
  cases action with
  | fanOut => exact h.elim
  | topLevel | continuation | fallthrough | task | line | execute | call => rfl

namespace Site

variable {site : Site E}

theorem chained_launched (site : Site E) (chain : Chain E) (sources : List Source) (flags : Flags)
    (tape : Tape E.Mark) :
    ∀ part ∈ (site.launched chain sources flags tape).staged.flatMap Action.parts,
      part.Chained site.frame := by
  unfold launched
  by_cases empty : sources.isEmpty = true
  · cases flags.isReturn <;> simp [empty, Action.parts, Action.Chained]
  · simp only [empty, Bool.false_eq_true, if_false]
    cases chain.terminal with
    | command command =>
      rw [Action.flatMap_parts_fan (List.forall_mem_map.mpr fun _ _ => rfl)]
      exact List.forall_mem_map.mpr fun _ _ => trivial
    | call function =>
      rw [Action.flatMap_parts (List.forall_mem_map.mpr fun _ _ => rfl)]
      refine List.forall_mem_map.mpr fun source _ => ?_
      cases isReturn : flags.isReturn with
      | false => trivial
      | true => simp [Action.Chained, Body.calleeCallback, isReturn, body]
    | returnValue | returnFailure | custom => simp

theorem Walked.chained_landed {origin : Source} {input : String} {terminal : Terminal E}
    {eval : List Source → Flags → Evaluation E.Mark} {bound : Nat}
    {result : Option (List Source × Flags)} {s : Sketch E} {value : Tape E.Mark × Flow}
    (h : Walked site origin input terminal eval bound result s value) (chain : Chain E) :
    ∀ part ∈ (site.landed chain result s).staged.flatMap Action.parts,
      part.Chained (site.target (site.landed chain result s)).2 := by
  rw [target_of_none (h.callee?_landed chain)]
  cases h with
  | reached sources flags tape => exact site.chained_launched chain.atTerminal sources flags tape
  | aborted | failing | returning => simp [landed, Action.parts, Action.Chained]

/-- All calls that an action queues report to their caller if the action does so itself. -/
theorem chained_of_run {action : Action E} (native : action.isNative = true)
    (chained : ∀ part ∈ action.parts, part.Chained site.frame) {tape : Tape E.Mark}
    {procedure : Procedure E Unit} {sketch : Sketch E}
    (own : action.work host site.id = .own procedure)
    (run : procedure.run? site.draw { tape } = some ((), sketch)) :
    ∀ part ∈ sketch.staged.flatMap Action.parts, part.Chained (site.target sketch).2 := by
  cases action with
  | topLevel chain source =>
    cases own
    obtain ⟨_, _, started, walked⟩ := site.run?_start host chain native source tape
    cases started.symm.trans run
    exact walked.chained_landed chain
  | continuation chain origin sources flags =>
    cases own
    obtain ⟨_, _, resolved, walked⟩ := site.run?_resolve host chain native origin
      (fun _ _ => Evaluation.skip) sources flags tape
    cases resolved.symm.trans run
    exact walked.chained_landed chain
  | fallthrough =>
    cases own
    cases (site.run?_fallThrough tape).symm.trans run
    simp
  | fanOut first rest =>
    cases own
    cases (site.run?_expand first rest native tape).symm.trans run
    have single := (chained first List.mem_cons_self).parts_eq
    exact Action.flatMap_parts_expanded single rest ▸ chained
  | task code => cases native
  | line line source =>
    cases line with
    | chain chain =>
      cases own
      obtain ⟨_, _, started, walked⟩ := site.run?_start host chain native source tape
      cases started.symm.trans run
      exact walked.chained_landed chain
    | custom code => cases native
  | execute chain flags source =>
    cases own
    rcases site.exists_run?_execute .empty native tape with ⟨_, _, executed, -⟩
    cases executed.symm.trans run
    simp
  | call function callback returnParent source =>
    cases own
    cases (site.run?_callFunction function native callback returnParent source tape).symm.trans run
    unfold called
    by_cases empty : function.lines.isEmpty = true
    · simp [empty]
    · simp only [empty, Bool.false_eq_true, if_false]
      rw [Action.flatMap_parts_fan (List.forall_mem_map.mpr fun _ _ => rfl)]
      exact List.forall_mem_map.mpr fun _ _ => trivial

end Site

/-! ## Frames of pending work -/

/-- The entry waits in a frame whose returns reach it, and its calls report to that frame. -/
structure Entry.Proper (ctx : Context E) (entry : Entry E) : Prop where
  placed : ∃ frame, ctx.frame? entry.frame = some frame ∧ frame.Covered ∧
    ∀ part ∈ entry.action.parts, part.Chained frame

/-- A frame that an action adds has the scope of its own frame or is confined to its own level. -/
theorem Frame.Covered.target {site : Site E} {sketch : Sketch E} (covered : site.frame.Covered)
    (within : site.Scoped sketch)
    (deeper : ∀ frame, sketch.callee? = some frame → frame.depth = site.frame.depth + 1) :
    (site.target sketch).2.Covered := by
  cases added : sketch.callee? with
  | none =>
    rw [Site.target_of_none added]
    exact covered
  | some callee =>
    have target : (site.target sketch).2 = callee := by simp [Site.target, added]
    rw [target]
    intro depth scope
    rcases within callee added with inherited | own
    · rw [deeper callee added]
      exact Nat.le_succ_of_le (covered depth (inherited.symm.trans scope))
    · cases own.symm.trans scope
      exact Nat.le_refl _

/-- Between two turns, with all entries in proper frames. -/
structure Regular (ctx : Context E) : Prop where
  orderly : Orderly ctx
  proper : ∀ entry ∈ ctx.pending.entries, entry.Proper ctx

theorem Regular.turn (h : Regular ctx) (turn : Turn host ctx start next) : Regular next := by
  refine ⟨h.orderly.turn turn, ?_⟩
  have native := h.orderly.native_of_pop turn.popped
  obtain ⟨cons, frame, procedure, sketch, step⟩ := h.orderly.poised.exists_sketch turn native
  have proper := h.proper
  rw [cons] at proper
  rcases (proper _ List.mem_cons_self).placed with ⟨owner, ownerLive, covered, chained⟩
  obtain rfl : frame = owner := Option.some.inj (step.live.symm.trans ownerLive)
  -- An entry that is pending now was queued by the step or has gone on waiting.
  intro entry waits
  rcases List.mem_append.mp (step.settled.pending ▸ waits) with new | old
  · rcases List.mem_map.mp new with ⟨action, staged, rfl⟩
    have reports := Site.chained_of_run native chained step.own step.run
    exact ⟨_, step.target (List.ne_nil_of_mem staged), covered.target step.within step.depicts.deeper,
      fun part mem => reports part (List.mem_flatMap.mpr ⟨action, staged, mem⟩)⟩
  · have before := (Flow.prune_suffix _ _ _).subset old
    rcases (proper entry (List.mem_cons_of_mem _ before)).placed with ⟨owner, live, rest⟩
    exact ⟨owner, (turn.frame?_eq h.orderly.accounted before waits).trans live, rest⟩

theorem Regular.turns (h : Regular ctx) {starts : List (Start E)}
    (turns : Turns host ctx starts next) : Regular next := by
  induction turns with
  | refl => exact h
  | head turn _ ih => exact ih (h.turn turn)

/-! ## Rollbacks -/

/-- Whether the entry, while it is performed, rolls its own frame back. -/
def Start.RollsBack (host : Host E) (start : Start E) : Prop :=
  ∃ procedure moment, start.entry.action.work host start.entry.frame = .own procedure ∧
    procedure.Calls Deed.apply start.context (.effect (.discard start.entry.frame)) moment

/-- A sketch does not forget that the frame was rolled back. -/
theorem Site.returned_of_draw {site : Site E} (deed : Deed E) (sketch : Sketch E)
    (result : deed.Reply × Sketch E) (returned : sketch.flow = .returned)
    (drawn : site.draw deed sketch = some result) : result.2.flow = .returned := by
  -- Of all deeds only a rollback touches the mark, and it sets it.
  unfold draw at drawn
  split at drawn <;> (try split at drawn) <;> cases drawn <;> first | exact returned | rfl

theorem Sketch.Echoes.returned_of_calls {α : Type} {site : Site E} {running : List FrameId}
    {sketch sketch' : Sketch E} {procedure : Procedure E α} {value : α} {id : FrameId}
    {moment : Context E} (h : sketch.Echoes site running ctx)
    (drawn : procedure.run? site.draw sketch = some (value, sketch'))
    (calls : procedure.Calls Deed.apply ctx (.effect (.discard id)) moment) :
    sketch'.flow = .returned := by
  induction procedure generalizing sketch ctx with
  | done => cases calls
  | call op next ih =>
    cases first : site.draw op sketch with
    | none => simp [Script.run?, first] at drawn
    | some drawing =>
      rcases h.deed op first with ⟨reply, echoes⟩
      have rest : (next (op.apply ctx).1).run? site.draw drawing.2 = some (value, sketch') := by
        rw [reply]
        simpa [Script.run?, first] using drawn
      cases calls with
      | later calls => exact ih _ echoes rest calls
      | here =>
        have returned : drawing.2.flow = .returned := by
          simp only [Site.draw] at first
          split at first
          · cases first
            rfl
          · cases first
        exact Script.run?_preserves Site.returned_of_draw _ _ _ returned rest

/-! ## The caller -/

variable {function : Function E} {callback : Callback} {source : Source}

/-- A call that returns for its caller runs its lines in a frame that has the scope of the caller's
frame and reports to it. -/
theorem Regular.callee (h : Regular ctx) (turn : Turn host ctx start next)
    (call : start.entry.action = .call function callback true source)
    (lines : function.lines.isEmpty = false) :
    ∃ owner, ctx.frame? start.entry.frame = some owner ∧ owner.Covered ∧
      next.frame? ⟨ctx.frames.next⟩ = some
        { depth := owner.depth + 1
          callback := source.callback.chain owner.callback
          scope := owner.scope } := by
  have native := h.orderly.native_of_pop turn.popped
  obtain ⟨cons, owner, procedure, sketch, step⟩ := h.orderly.poised.exists_sketch turn native
  have mem : start.entry ∈ ctx.pending.entries := cons ▸ List.mem_cons_self
  rcases (h.proper _ mem).placed with ⟨owner', live, covered, chained⟩
  obtain rfl : owner = owner' := Option.some.inj (step.live.symm.trans live)
  rw [call] at native chained
  have reports : callback = source.callback.chain owner.callback :=
    chained _ (List.mem_singleton_self _)
  let site := start.site ctx owner
  have own := step.own
  rw [call] at own
  cases own
  have target := step.target
  cases (site.run?_callFunction function native callback true source _).symm.trans step.run
  simp only [Site.called, lines, Bool.false_eq_true, if_false] at target
  have some : fan (function.lines.map (Action.line · source)) ≠ [] :=
    Action.fan_ne_nil (by simpa using lines)
  refine ⟨owner, live, covered, ?_⟩
  rw [← reports]
  exact target some

/-- A step that rolls back with the scope of another, older frame leaves no entry of that one. -/
theorem Regular.free_of_rollsBack (h : Regular ctx) (turn : Turn host ctx start next)
    (rollsBack : start.RollsBack host) {own owner : Frame}
    (live : ctx.frame? start.entry.frame = some own) (scope : own.scope = owner.scope)
    (covered : owner.Covered) {id : FrameId}
    (same : ∀ frame, ctx.frame? id = some frame → frame = owner)
    (older : id.serial < ctx.frames.next) (other : start.entry.frame ≠ id) :
    ∀ entry ∈ next.pending.entries, entry.frame ≠ id := by
  have native := h.orderly.native_of_pop turn.popped
  obtain ⟨cons, frame, procedure, sketch, step⟩ := h.orderly.poised.exists_sketch turn native
  cases live.symm.trans step.live
  have returned : sketch.flow = .returned := by
    rcases rollsBack with ⟨procedure', moment, work, calls⟩
    cases step.own.symm.trans work
    exact step.begins.echoes.returned_of_calls step.run calls
  intro entry waits
  rw [step.settled.pending, returned] at waits
  rcases List.mem_append.mp waits with new | old
  · -- What the step has queued belongs to its own frame or to a new one.
    rcases List.mem_map.mp new with ⟨action, -, rfl⟩
    cases added : sketch.callee? with
    | none => simpa [Site.target, added, Start.site, Context.site] using other
    | some _ =>
      simp only [Site.target, added, Start.site, Context.site]
      rintro rfl
      exact Nat.lt_irrefl _ older
  · -- What the rollback has left is above the other frame.
    rintro rfl
    have before : entry ∈ start.context.pending.entries :=
      (Scope.survivors_suffix _ _).subset old
    rcases h.orderly.poised.exists_frame? (cons ▸ List.mem_cons_of_mem _ before) with
      ⟨frame, found, depth⟩
    obtain rfl := same frame found
    have layered : Layered start.context.pending.entries := by
      have all := h.orderly.layered
      rw [cons] at all
      exact (List.pairwise_cons.mp all).2
    rw [Flow.prune, scope] at old
    cases kind : frame.scope with
    | clearAll => simp [kind, Scope.survivors] at old
    | discardFrom level =>
      rw [kind, Scope.survivors, layered.dropWhile_eq_filter] at old
      have above : entry.depth < level := by simpa using (List.mem_filter.mp old).2
      have reach := covered level kind
      omega

/-- Once the body of a call that returns for its caller rolls its frame back, no work of the caller
is ever started again. -/
theorem Regular.caller_ends (h : Regular ctx) (turn : Turn host ctx start next)
    (call : start.entry.action = .call function callback true source)
    (lines : function.lines.isEmpty = false) {inside : List (Start E)} {mid after : Context E}
    {back : Start E} (turns : Turns host next inside mid) (returning : Turn host mid back after)
    (own : back.entry.frame = ⟨ctx.frames.next⟩) (rollsBack : back.RollsBack host)
    {later : List (Start E)} {outcome : Outcome} {final : Context E}
    (course : Course host after later outcome final) :
    ∀ other ∈ later, other.entry.frame ≠ start.entry.frame := by
  rcases h.callee turn call lines with ⟨owner, live, covered, callee⟩
  have accounted := h.orderly.accounted
  have begun := (h.turn turn).orderly.accounted
  have regular := (h.turn turn).turns turns
  have onward := (accounted.leads ((Leads.turn turn).trans (.turns turns))).onward
  have issued : start.entry.frame.serial < ctx.frames.next :=
    accounted.balanced.held.issued _ (FrameTable.mem_keys_of_frame? live)
  have older := Nat.lt_of_lt_of_le issued onward.issued
  -- Both handles still lead where they led when the call was performed.
  rcases regular.orderly.poised.exists_frame? (returning.pending_eq ▸ List.mem_cons_self) with
    ⟨body, found, -⟩
  have scope : body.scope = owner.scope := by
    have given := begun.balanced.held.issued _ (FrameTable.mem_keys_of_frame? callee)
    have same := (begun.leads (.turns turns)).onward.same _ body given (own ▸ found)
    cases callee.symm.trans same
    rfl
  have same (frame : Frame) (found : mid.frame? start.entry.frame = some frame) : frame = owner :=
    Option.some.inj ((onward.same _ frame issued found).symm.trans live)
  have apart : back.entry.frame ≠ start.entry.frame := by
    intro eq
    rw [← eq, own] at issued
    exact Nat.lt_irrefl _ issued
  have free := regular.free_of_rollsBack returning rollsBack found scope covered same older apart
  -- With its last entry the caller's frame is gone, and no handle is given out twice.
  have evolves := regular.orderly.accounted.leads (.turn returning)
  refine course.frame_ne_of_released evolves.accounted
    (Nat.lt_of_lt_of_le older evolves.onward.issued) ?_
  refine returning.frame?_eq_none evolves.accounted ?_
  simp only [Context.waiting, returning.staging_eq, List.nil_append, List.mem_map, not_exists,
    not_and]
  exact free

end CommandScheduler
