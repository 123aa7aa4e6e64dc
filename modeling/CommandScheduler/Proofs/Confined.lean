import CommandScheduler.Proofs.Layers
import CommandScheduler.Proofs.Refinement

/-!
# Confined — what a call leaves alone

A call that does not return for its caller runs its lines in a frame whose rollbacks are confined to
the lines' own level.  Deeper calls inherit this scope or get one of a deeper level, so no rollback
reaches the entries that were pending when the call started, whoever they belong to.

Within the body, a line that returns takes everything with it that is still pending of the call.
-/

namespace CommandScheduler

variable {E : Embedding}

/-! ## Rollbacks inside of a call -/

/-- A frame below a depth, whose rollbacks stay below it, too. -/
structure Frame.Below (depth : Nat) (frame : Frame) : Prop where
  deeper : depth < frame.depth
  confined : ∃ level, depth < level ∧ frame.scope = .discardFrom level

/-- A rollback below a depth only reaches the entries in front of those that are not deeper. -/
theorem Flow.prune_append {depth level : Nat} {outer : List (Entry E)} (below : depth < level)
    (shallow : ∀ entry ∈ outer, entry.depth ≤ depth) (flow : Flow) (inner : List (Entry E)) :
    ∃ kept, kept <:+ inner ∧
      flow.prune (.discardFrom level) (inner ++ outer) = kept ++ outer := by
  cases flow with
  | goesOn => exact ⟨inner, List.suffix_refl _, rfl⟩
  | returned =>
    refine ⟨inner.dropWhile (level ≤ ·.depth), List.dropWhile_suffix _, ?_⟩
    have stays : (Scope.discardFrom level).survivors outer = outer :=
      Scope.survivors_of_shallow fun entry mem => Nat.lt_of_le_of_lt (shallow entry mem) below
    simp only [Flow.prune, Scope.survivors] at stays ⊢
    induction inner with
    | nil => exact stays
    | cons entry rest ih =>
      by_cases deep : level ≤ entry.depth
      · simpa [deep] using ih
      · simp [deep]

/-- An entry that goes on waiting during a turn keeps its frame. -/
theorem Turn.frame?_eq {host : Host E} {running : List FrameId} {ctx next : Context E}
    {start : Start E} (turn : Turn host ctx start next) (accounted : ctx.Accounted running)
    {entry : Entry E} (before : entry ∈ start.context.pending.entries)
    (after : entry ∈ next.pending.entries) : next.frame? entry.frame = ctx.frame? entry.frame := by
  have waited : entry ∈ ctx.waiting := by
    refine List.mem_append_right _ ?_
    rw [turn.pending_eq]
    exact List.mem_cons_of_mem _ before
  exact accounted.frame?_of_waiting (accounted.leads (.turn turn)) waited
    (List.mem_append_right _ after)

/-- Between two turns inside of a call: the work of the call is pending in front of what was pending
when it started. -/
structure Confined (running : List FrameId) (depth : Nat) (inner outer : List (Entry E))
    (ctx : Context E) : Prop where
  intact : ctx.overflowed = false
  accounted : ctx.Accounted running
  staged : ctx.staging = #[]
  pending : ctx.pending.entries = inner ++ outer
  native : ∀ entry ∈ inner, entry.action.isNative = true
  below : ∀ entry ∈ inner, ∃ frame, ctx.frame? entry.frame = some frame ∧ frame.Below depth
  shallow : ∀ entry ∈ outer, entry.depth ≤ depth

namespace Confined

variable {host : Host E} {running : List FrameId} {depth : Nat} {inner outer : List (Entry E)}
  {ctx next : Context E} {start : Start E}

theorem poised (h : Confined running depth inner outer ctx) :
    Poised running ctx.limits ctx.sink? ⟨ctx.quota, ctx.log.toList.filter Event.isObservable⟩
      (inner ++ outer) ctx :=
  ⟨rfl, rfl, h.intact, h.accounted, rfl, rfl, h.staged, h.pending⟩

theorem deeper (h : Confined running depth inner outer ctx) {entry : Entry E}
    (mem : entry ∈ inner) : depth < entry.depth := by
  rcases h.below entry mem with ⟨frame, live, below⟩
  rcases h.poised.exists_frame? (List.mem_append_left outer mem) with ⟨owner, ownerLive, same⟩
  cases live.symm.trans ownerLive
  exact same ▸ below.deeper

/-- What is popped inside of the call belongs to its work; once something else is popped, that work
is done. -/
theorem split (h : Confined running depth inner outer ctx) {entry : Entry E} {started : Context E}
    (popped : ctx.pop? = some (entry, started)) :
    (∃ rest, inner = entry :: rest) ∨ inner = [] ∧ ∃ rest, outer = entry :: rest := by
  have front := Context.pending_of_pop popped
  rw [h.pending] at front
  cases inner with
  | nil => exact .inr ⟨rfl, _, front⟩
  | cons entry rest =>
    rcases List.cons.inj front with ⟨rfl, -⟩
    exact .inl ⟨rest, rfl⟩

theorem pending_of_shallow (h : Confined running depth inner outer ctx) {entry : Entry E}
    {started : Context E} (popped : ctx.pop? = some (entry, started))
    (shallow : entry.depth ≤ depth) : ctx.pending.entries = outer := by
  rcases h.split popped with ⟨rest, rfl⟩ | ⟨none, -⟩
  · have deep := h.deeper List.mem_cons_self
    omega
  · simp [h.pending, none]

/-- What an action of a frame below the depth queues belongs to a frame below the depth. -/
theorem below_target {site : Site E} {sketch : Sketch E} {after : Context E}
    (below : site.frame.Below depth) (within : site.Scoped sketch)
    (depicts : sketch.Depicts site running after) : (site.target sketch).2.Below depth := by
  cases added : sketch.callee? with
  | none => simpa [Site.target, added] using below
  | some callee =>
    have level : callee.depth = site.frame.depth + 1 := depicts.deeper callee added
    have deeper : depth < callee.depth := by
      rw [level]
      exact Nat.lt_succ_of_lt below.deeper
    have target : (site.target sketch).2 = callee := by simp [Site.target, added]
    rw [target]
    refine ⟨deeper, ?_⟩
    -- The new frame has the scope of the old one or is confined to its own level.
    rcases within callee added with inherited | own
    · rw [inherited]
      exact below.confined
    · exact ⟨callee.depth, deeper, own⟩

/-- A turn inside of the call queues entries below the depth, and rolls back at most other work of
the call. -/
theorem turn (h : Confined running depth inner outer ctx) (turn : Turn host ctx start next)
    (deep : depth < start.entry.depth) :
    ∃ inner', Confined running depth inner' outer next := by
  rcases h.split turn.popped with ⟨rest, rfl⟩ | ⟨-, rest, rfl⟩
  case inr =>
    have shallow := h.shallow start.entry List.mem_cons_self
    omega
  obtain ⟨cons, frame, procedure, sketch, step⟩ :=
    h.poised.exists_sketch turn (h.native _ List.mem_cons_self)
  have behind : start.context.pending.entries = rest ++ outer := (List.cons.inj cons).2.symm
  rcases h.below _ List.mem_cons_self with ⟨owner, ownerLive, below⟩
  obtain rfl : frame = owner := Option.some.inj (step.live.symm.trans ownerLive)
  rcases below.confined with ⟨level, lower, scope⟩
  rcases sketch.flow.prune_append lower h.shallow rest with ⟨kept, suffix, pruned⟩
  let queued := (start.site ctx frame).entries sketch
  have pending : next.pending.entries = (queued ++ kept) ++ outer := by
    rw [List.append_assoc, ← pruned, ← scope, ← behind]
    exact step.settled.pending
  refine ⟨queued ++ kept, step.settled.intact, step.settled.accounted, step.settled.staged, pending,
    ?_, ?_, h.shallow⟩
  · intro entry mem
    rcases List.mem_append.mp mem with mem | mem
    · rcases List.mem_map.mp mem with ⟨action, staged, rfl⟩
      exact nativeActions_eq_true_iff.mp step.depicts.native action staged
    · exact h.native entry (List.mem_cons_of_mem _ (suffix.subset mem))
  · intro entry mem
    have waits : entry ∈ next.pending.entries := by
      rw [pending]
      exact List.mem_append_left _ mem
    rcases List.mem_append.mp mem with new | old
    · rcases List.mem_map.mp new with ⟨action, staged, rfl⟩
      exact ⟨_, step.target (List.ne_nil_of_mem staged),
        below_target below step.within step.depicts⟩
    · -- The other entries have waited all the time.
      have mem := suffix.subset old
      rcases h.below entry (List.mem_cons_of_mem _ mem) with ⟨owner, ownerLive, ownerBelow⟩
      have waited : entry ∈ start.context.pending.entries := by
        rw [behind]
        exact List.mem_append_left _ mem
      exact ⟨owner, (turn.frame?_eq h.accounted waited waits).trans ownerLive, ownerBelow⟩

theorem turns (h : Confined running depth inner outer ctx) {starts : List (Start E)}
    (turns : Turns host ctx starts next) (deep : ∀ start ∈ starts, depth < start.entry.depth) :
    ∃ inner', Confined running depth inner' outer next := by
  induction turns generalizing inner with
  | refl => exact ⟨inner, h⟩
  | head first _ ih =>
    rcases h.turn first (deep _ List.mem_cons_self) with ⟨inner', h'⟩
    exact ih h' fun start mem => deep start (List.mem_cons_of_mem _ mem)

/-- A run either stays inside of the call, or the call leaves everything behind as it was. -/
theorem turns_until (h : Confined running depth inner outer ctx) {starts : List (Start E)}
    (turns : Turns host ctx starts next) :
    (∀ start ∈ starts, depth < start.entry.depth) ∨
      ∃ inside mid, Turns host ctx inside mid ∧ (∀ start ∈ inside, depth < start.entry.depth) ∧
        mid.pending.entries = outer := by
  induction turns generalizing inner with
  | refl =>
    refine .inl ?_
    intro start mem
    cases mem
  | @head ctx mid next start starts first _ ih =>
    rcases Nat.lt_or_ge depth start.entry.depth with deep | shallow
    · rcases h.turn first deep with ⟨inner', h'⟩
      have front (inside : List (Start E)) (all : ∀ start ∈ inside, depth < start.entry.depth) :
          ∀ other ∈ start :: inside, depth < other.entry.depth := by
        intro other mem
        rcases List.mem_cons.mp mem with rfl | mem
        · exact deep
        · exact all other mem
      rcases ih h' with all | ⟨inside, last, before, all, left⟩
      · exact .inl (front _ all)
      · exact .inr ⟨start :: inside, last, .head first before, front _ all, left⟩
    · refine .inr ⟨[], ctx, .refl ctx, ?_, h.pending_of_shallow first.popped shallow⟩
      intro start mem
      cases mem

/-- A run that overflows does so inside of the call, or the call has left everything behind as it
was. -/
theorem course_until (h : Confined running depth inner outer ctx) {starts : List (Start E)}
    {final : Context E} (course : Course host ctx starts .overflowed final) :
    (∀ start ∈ starts, depth < start.entry.depth) ∨
      ∃ inside mid, Turns host ctx inside mid ∧ (∀ start ∈ inside, depth < start.entry.depth) ∧
        mid.pending.entries = outer := by
  rcases course.exists_turns with ⟨before, mid, turns, ends⟩
  rcases h.turns_until turns with all | left
  · rcases ends with ⟨rfl, -⟩ | ⟨-, last, rfl, popped⟩
    · exact .inl all
    · rcases h.turns turns all with ⟨inner', h'⟩
      rcases Nat.lt_or_ge depth last.entry.depth with deep | shallow
      · refine .inl ?_
        intro other mem
        rcases List.mem_append.mp mem with mem | mem
        · exact all other mem
        · exact List.mem_singleton.mp mem ▸ deep
      · exact .inr ⟨before, mid, turns, all, h'.pending_of_shallow popped shallow⟩
  · exact .inr left

end Confined

/-! ## Returns -/

/-- Whether a terminal returns a result from its frame. -/
def Terminal.givesBack {V : Vocabulary} : Terminal V → Bool
  | .returnValue _ | .returnFailure => true
  | .command _ | .call _ | .custom _ => false

/-- What reaches the terminal of a chain that is resolved; nothing if the resolution was aborted or
taken over. -/
def Context.reached (host : Host E) (chain : Chain E) (origin : Source) (sources : List Source)
    (flags : Flags) (frame : FrameId) (ctx : Context E) : Option (List Source × Flags) :=
  if chain.isTerminal then
    some (sources, flags)
  else
    ((ctx.openScope ("prepare " ++ chain.input)).prepare host origin frame chain.input chain.terminal
      chain.passed chain.ahead sources flags).1

/-- Whether at least one source reaches the terminal when the chain is resolved, and this terminal
returns from the frame. -/
def Context.givesBack (host : Host E) (chain : Chain E) (origin : Source) (sources : List Source)
    (flags : Flags) (frame : FrameId) (ctx : Context E) : Prop :=
  chain.terminal.givesBack = true ∧ ∃ first rest flags',
    ctx.reached host chain origin sources flags frame = some (first :: rest, flags')

/-- Whether the entry is work of a line that resolves a returning terminal for at least one source.
-/
def Start.returns (host : Host E) (start : Start E) : Prop :=
  let frame := start.entry.frame
  let ctx := start.context
  match start.entry.action with
  | .topLevel chain source | .line (.chain chain) source =>
    (ctx.trace (.command (ctx.frameDepth frame) chain.input)).givesBack host chain source [source]
      .initial frame
  | .continuation chain origin sources flags => ctx.givesBack host chain origin sources flags frame
  | _ => False

/-- At a returning terminal nothing is queued, and the frame is rolled back. -/
theorem Site.launched_of_givesBack {site : Site E} {chain : Chain E}
    (h : chain.terminal.givesBack = true) (first : Source) (rest : List Source) (flags : Flags)
    (tape : Tape E.Mark) :
    (site.launched chain (first :: rest) flags tape).flow = .returned ∧
      (site.launched chain (first :: rest) flags tape).staged = [] := by
  unfold Site.launched
  cases kind : chain.terminal with
  | returnValue | returnFailure => exact ⟨rfl, rfl⟩
  | command | call | custom => simp [kind, Terminal.givesBack] at h

theorem Sketch.Depicts.resolve_returns {host : Host E} {site : Site E} {running : List FrameId}
    {tape : Tape E.Mark} {sketch : Sketch E} {ctx : Context E} {chain : Chain E} {origin : Source}
    {sources : List Source} {flags : Flags}
    (h : ({ tape } : Sketch E).Depicts site running ctx) (native : chain.isNative = true)
    (returns : ctx.givesBack host chain origin sources flags site.id)
    (run : (Procedure.resolve host chain origin sources flags site.id).run? site.draw { tape } =
      some ((), sketch))
    (intact : ((Procedure.resolve host chain origin sources flags site.id).apply ctx).overflowed =
      false) : sketch.flow = .returned ∧ sketch.staged = [] := by
  rcases chain with ⟨input, passed, ahead, terminal⟩
  rcases returns with ⟨giving, first, rest, flags', reached⟩
  have native' : (ahead.all (·.redirect.isNative) && terminal.isNative) = true := native
  have nativeTerminal : terminal.isNative = true := ((Bool.and_eq_true _ _).mp native').2
  cases ahead with
  | nil =>
    cases reached
    have launch := site.run?_launch host ⟨input, passed, [], terminal⟩ rfl nativeTerminal
      (first :: rest) flags tape
    cases launch.symm.trans run
    exact Site.launched_of_givesBack giving first rest flags tape
  | cons stage stages =>
    let chain : Chain E := { input, passed, ahead := stage :: stages, terminal }
    let opened := ctx.openScope ("prepare " ++ input)
    have depicts : ({ tape } : Sketch E).Depicts site running opened :=
      h.profile _ (ctx.profiler.enter_unseen _)
    obtain ⟨result, walkedTo, walk, walked⟩ := site.run?_prepare host origin input terminal
      (fun _ _ => Evaluation.skip) passed (stage :: stages) sources flags tape native'
    have prepared : result = some (first :: rest, flags') := by
      rcases depicts.run walk with overflowed | ⟨same, -⟩
      · -- An overflow would last to the end of the resolution.
        have later : ((Procedure.resolve host chain origin sources flags site.id).apply
            ctx).overflowed = true := by
          simp only [Procedure.resolve, chain, Chain.isTerminal, List.isEmpty_cons, Procedure.apply,
            Bool.false_eq_true, if_false, Script.run_bind, Procedure.run_openScope]
          exact Script.run_preserves Context.overflowed_deed _ _ overflowed
        exact Bool.noConfusion (intact.symm.trans later)
      · rw [Procedure.run_prepare] at same
        exact same.symm.trans reached
    subst prepared
    simp only [Procedure.resolve, Chain.isTerminal, List.isEmpty_cons, Bool.false_eq_true, if_false,
      Script.run?_bind, Site.run?_openScope, Option.bind_some, walk, Site.run?_closeScope] at run
    generalize site.body.walk site.setting origin (fun _ _ => Evaluation.skip) (stage :: stages)
      sources flags tape = value at walked
    cases walked with
    | reached _ _ tape' =>
      have launch := site.run?_launch host chain.atTerminal rfl nativeTerminal (first :: rest) flags'
        tape'
      cases launch.symm.trans run
      have atEnd : chain.atTerminal.terminal.givesBack = true := giving
      exact Site.launched_of_givesBack atEnd first rest flags' tape'

theorem Sketch.Depicts.start_returns {host : Host E} {site : Site E} {running : List FrameId}
    {tape : Tape E.Mark} {sketch : Sketch E} {ctx : Context E} {chain : Chain E} {source : Source}
    (h : ({ tape } : Sketch E).Depicts site running ctx) (native : chain.isNative = true)
    (returns : (ctx.trace (.command (ctx.frameDepth site.id) chain.input)).givesBack host chain source
      [source] .initial site.id)
    (run : (Procedure.start host chain source site.id).run? site.draw { tape } = some ((), sketch))
    (intact : ((Procedure.start host chain source site.id).apply ctx).overflowed = false) :
    sketch.flow = .returned ∧ sketch.staged = [] := by
  let event : TraceEvent := .command (ctx.frameDepth site.id) chain.input
  have depth : ctx.frameDepth site.id = site.frame.depth := by
    simp [Context.frameDepth, h.frame]
  have traced : ({ tape := tape.write (site.setting.traced event) } : Sketch E).Depicts site running
      (ctx.trace event) := ctx.trace_eq event ▸ h.setting ▸ h.record _
  refine traced.resolve_returns native returns ?_ ?_
  · simp only [Procedure.start, Script.run?_bind, Site.run?_frameDepth, Site.run?_trace,
      Option.bind_some] at run
    rw [← run, ← depth]
  · rw [Procedure.apply_resolve]
    rw [Procedure.apply_start] at intact
    exact intact

/-- A returning start queues nothing and rolls its frame back. -/
theorem Sketched.returns {host : Host E} {running : List FrameId} {tape : Tape E.Mark}
    {ctx next : Context E} {start : Start E} {frame : Frame} {procedure : Procedure E Unit}
    {sketch : Sketch E} (h : Sketched host running tape ctx start next frame procedure sketch)
    (native : start.entry.action.isNative = true) (returns : start.returns host) :
    sketch.flow = .returned ∧ sketch.staged = [] := by
  have own := h.own
  have run := h.run
  have begins := h.begins
  have intact := h.depicts.intact
  rcases start with ⟨⟨depth, id, action⟩, started⟩
  cases action with
  | topLevel chain source =>
    cases own
    exact begins.start_returns native returns run intact
  | continuation chain origin sources flags =>
    cases own
    exact begins.resolve_returns native returns run intact
  | line line source =>
    cases line with
    | chain chain =>
      cases own
      exact begins.start_returns native returns run intact
    | custom code => cases native
  | fallthrough | fanOut | task | execute | call => cases returns

/-! ## The body of a call -/

/-- The frame in which the lines of a confined call run. -/
def Frame.calleeAt (depth : Nat) (callback : Callback) : Frame :=
  { depth := depth + 1, callback, scope := .discardFrom (depth + 1) }

theorem Frame.below_calleeAt (depth : Nat) (callback : Callback) :
    (Frame.calleeAt depth callback).Below depth :=
  ⟨Nat.lt_succ_self depth, depth + 1, Nat.lt_succ_self depth, rfl⟩

/-- What is queued when a function is called for a source. -/
def Function.block {V : Vocabulary} (function : Function V) (source : Source) : List (Action V) :=
  fan (function.lines.map (.line · source))

/-- After the turn of a call its lines wait in a new frame, in front of what was pending. -/
theorem Confined.of_call {host : Host E} {running : List FrameId} {ctx next : Context E}
    {start : Start E} {function : Function E} {callback : Callback} {source : Source}
    (accounted : ctx.Accounted running) (staged : ctx.staging = #[])
    (turn : Turn host ctx start next)
    (call : start.entry.action = .call function callback false source)
    (native : function.isNative = true)
    (shallow : ∀ entry ∈ start.context.pending.entries, entry.depth ≤ start.entry.depth) :
    Confined running start.entry.depth
      ((Frame.calleeAt start.entry.depth callback).entries ⟨ctx.frames.next⟩ (function.block source))
      start.context.pending.entries next ∧
    (function.block source ≠ [] →
      next.frame? ⟨ctx.frames.next⟩ = some (.calleeAt start.entry.depth callback)) := by
  let tape : Tape E.Mark := ⟨ctx.quota, ctx.log.toList.filter Event.isObservable⟩
  let body : FrameId := ⟨ctx.frames.next⟩
  let callee := Frame.calleeAt start.entry.depth callback
  have intact := turn.intact
  have leads : Leads running ctx running next := .turn turn
  have poised : Poised running ctx.limits ctx.sink? tape ctx.pending.entries ctx :=
    ⟨rfl, rfl, leads.intact intact, accounted, rfl, rfl, staged, rfl⟩
  have isNative : start.entry.action.isNative = true := by
    rw [call]
    exact native
  obtain ⟨-, frame, procedure, sketch, step⟩ := poised.exists_sketch turn isNative
  let site := start.site ctx frame
  -- The sketch is the one of a call.
  have own := step.own
  rw [call] at own
  cases own
  obtain rfl : site.called function callback false source tape = sketch := by
    cases (site.run?_callFunction function native callback false source tape).symm.trans step.run
    rfl
  have goesOn : (site.called function callback false source tape).flow = .goesOn := by
    unfold Site.called
    split <;> rfl
  have entries : site.entries (site.called function callback false source tape) =
      callee.entries body (function.block source) := by
    rw [site.entries_called]
    simp [Frame.entries, Function.block, callee, Frame.calleeAt, body, site, Start.site,
      Context.site, step.depth]
  have pending := step.settled.pending
  rw [goesOn, entries] at pending
  have live : function.block source ≠ [] → next.frame? body = some callee := by
    intro some
    have lines : function.lines.isEmpty = false := by
      cases empty : function.lines with
      | nil => simp [Function.block, empty, fan] at some
      | cons line rest => rfl
    have called := step.target
    simp only [Site.called, lines, Bool.false_eq_true, if_false] at called
    have depth : site.frame.depth = start.entry.depth := step.depth
    have frame : site.calleeFrame callback false = callee := by
      simp [Site.calleeFrame, depth, callee, Frame.calleeAt]
    rw [← frame]
    exact called some
  refine ⟨⟨intact, step.settled.accounted, step.settled.staged, pending, ?_, ?_, shallow⟩, live⟩
  · intro entry mem
    rcases List.mem_map.mp mem with ⟨action, queued, rfl⟩
    have all := nativeActions_fan (Site.nativeActions_lines native source)
    exact nativeActions_eq_true_iff.mp all action queued
  · intro entry mem
    rcases List.mem_map.mp mem with ⟨action, queued, rfl⟩
    exact ⟨callee, live (List.ne_nil_of_mem queued), Frame.below_calleeAt _ _⟩

namespace Confined

variable {host : Host E} {running : List FrameId} {depth : Nat} {inner outer rest : List (Entry E)}
  {ctx next : Context E} {start : Start E}

/-- Once the work of the call is done, no turn is part of the call. -/
theorem turns_nil (h : Confined running depth [] outer ctx) {starts : List (Start E)}
    (turns : Turns host ctx starts next) (deep : ∀ start ∈ starts, depth < start.entry.depth) :
    next = ctx := by
  cases turns with
  | refl => rfl
  | @head _ _ _ start _ turn _ =>
    rcases h.split turn.popped with ⟨rest, eq⟩ | ⟨-, rest, rfl⟩
    · cases eq
    · have deeper := deep start List.mem_cons_self
      have shallow := h.shallow start.entry List.mem_cons_self
      omega

/-- A return from a frame whose rollbacks reach all work of the call ends the call. -/
theorem returning (h : Confined running depth (start.entry :: rest) outer ctx)
    (turn : Turn host ctx start next) (returns : start.returns host) {frame : Frame}
    (live : ctx.frame? start.entry.frame = some frame)
    (scope : frame.scope = .discardFrom (depth + 1)) : next.pending.entries = outer := by
  have native := h.native _ List.mem_cons_self
  obtain ⟨cons, frame', procedure, sketch, step⟩ := h.poised.exists_sketch turn native
  have behind : start.context.pending.entries = rest ++ outer := (List.cons.inj cons).2.symm
  obtain rfl : frame' = frame := Option.some.inj (step.live.symm.trans live)
  rcases step.returns native returns with ⟨flow, staged⟩
  have reach (entry : Entry E) (mem : entry ∈ rest) : depth + 1 ≤ entry.depth :=
    h.deeper (List.mem_cons_of_mem _ mem)
  calc
    next.pending.entries
        = (start.site ctx frame').entries sketch ++
            sketch.flow.prune frame'.scope start.context.pending.entries := step.settled.pending
    _ = (Scope.discardFrom (depth + 1)).survivors (rest ++ outer) := by
          rw [flow, scope, behind, Site.entries, staged]
          rfl
    _ = (Scope.discardFrom (depth + 1)).survivors outer :=
          List.dropWhile_append_of_pos fun entry mem => decide_eq_true (reach entry mem)
    _ = outer := Scope.survivors_of_shallow fun entry mem => Nat.lt_succ_of_le (h.shallow entry mem)

end Confined

theorem Context.Accounted.ne_next {running : List FrameId} {ctx : Context E}
    (h : ctx.Accounted running) {id : FrameId}
    (held : id ∈ running ++ ctx.waiting.map Entry.frame) : id ≠ ⟨ctx.frames.next⟩ := by
  rintro rfl
  exact Nat.lt_irrefl _ (h.balanced.held.issued_of_mem held)

/-- Whoever was there before a turn does not hold the frame that the turn may add. -/
theorem Turn.ne_next {host : Host E} {running : List FrameId} {ctx next : Context E}
    {start : Start E} (turn : Turn host ctx start next) (accounted : ctx.Accounted running) :
    ∀ id ∈ running ++ start.context.pending.entries.map Entry.frame, id ≠ ⟨ctx.frames.next⟩ := by
  intro id held
  refine accounted.ne_next ?_
  rcases List.mem_append.mp held with held | held
  · exact List.mem_append_left _ held
  · rcases List.mem_map.mp held with ⟨entry, mem, rfl⟩
    refine List.mem_append_right _ (List.mem_map_of_mem (List.mem_append_right _ ?_))
    rw [turn.pending_eq]
    exact List.mem_cons_of_mem _ mem

/-- Between two turns only frames that somebody holds are live. -/
theorem Turn.frame?_eq_none {host : Host E} {running : List FrameId} {ctx next : Context E}
    {start : Start E} (turn : Turn host ctx start next) (accounted : next.Accounted running)
    {id : FrameId} (free : id ∉ running ++ next.waiting.map Entry.frame) :
    next.frame? id = none := by
  cases found : next.frame? id with
  | none => rfl
  | some frame => exact absurd (accounted.balanced.held.mem_of_frame? turn.fresh_eq found) free

theorem Context.Accounted.ne_of_released {running : List FrameId} {ctx : Context E}
    (accounted : ctx.Accounted running) {entry : Entry E} {rest : List (Entry E)}
    (pending : ctx.pending.entries = entry :: rest) {id : FrameId} (dead : ctx.frame? id = none) :
    entry.frame ≠ id := by
  rintro rfl
  have waits : entry ∈ ctx.waiting := List.mem_append_right _ (pending ▸ List.mem_cons_self)
  rcases accounted.balanced.exists_frame? waits with ⟨frame, live, -⟩
  cases dead.symm.trans live

/-- No entry of a frame starts after the frame was released. -/
theorem Turns.frame_ne_of_released {host : Host E} {running : List FrameId} {ctx final : Context E}
    {starts : List (Start E)} {id : FrameId} (turns : Turns host ctx starts final)
    (accounted : ctx.Accounted running) (issued : id.serial < ctx.frames.next)
    (dead : ctx.frame? id = none) : ∀ start ∈ starts, start.entry.frame ≠ id := by
  induction turns with
  | refl =>
    intro start mem
    cases mem
  | @head ctx next final first starts turn _ ih =>
    have evolves := accounted.leads (.turn turn)
    intro start mem
    rcases List.mem_cons.mp mem with rfl | mem
    · exact accounted.ne_of_released turn.pending_eq dead
    · exact ih evolves.accounted (Nat.lt_of_lt_of_le issued evolves.onward.issued)
        (evolves.onward.frame?_eq_none issued dead) start mem

theorem Course.frame_ne_of_released {host : Host E} {running : List FrameId}
    {ctx final : Context E} {starts : List (Start E)} {outcome : Outcome} {id : FrameId}
    (course : Course host ctx starts outcome final) (accounted : ctx.Accounted running)
    (issued : id.serial < ctx.frames.next) (dead : ctx.frame? id = none) :
    ∀ start ∈ starts, start.entry.frame ≠ id := by
  rcases course.exists_turns with ⟨before, mid, turns, ends⟩
  have earlier := turns.frame_ne_of_released accounted issued dead
  rcases ends with ⟨rfl, -⟩ | ⟨-, last, rfl, popped⟩
  · exact earlier
  · -- The last step may overflow the queue, but its entry has waited like any other.
    have evolves := accounted.leads (.turns turns)
    intro start mem
    rcases List.mem_append.mp mem with mem | mem
    · exact earlier start mem
    · obtain rfl := List.mem_singleton.mp mem
      exact evolves.accounted.ne_of_released (Context.pending_of_pop popped)
        (evolves.onward.frame?_eq_none issued dead)

/-- The lines of a confined call are worked off, unless the queue overflows or the quota is
exhausted first. -/
theorem Confined.gets {host : Host E} {running : List FrameId} {depth : Nat} {callback : Callback}
    {function : Function E} {source : Source} {body : FrameId} {outer : List (Entry E)}
    {ctx : Context E} (h : Confined running depth
      ((Frame.calleeAt depth callback).entries body (function.block source)) outer ctx)
    (live : function.block source ≠ [] → ctx.frame? body = some (.calleeAt depth callback))
    (native : function.isNative = true) :
    ctx.Gets host fun mid => mid.quota.isExhausted = true ∨ mid.pending.entries = outer := by
  let scene : Scene E := { host, limits := ctx.limits, sink? := ctx.sink? }
  let callee := Frame.calleeAt depth callback
  have covered : callee.Covered := by
    rintro level ⟨⟩
    exact Nat.le_refl _
  have simulates := Scene.Simulates.fan covered (Site.nativeActions_lines native source)
    (scene.function_simulated function native source callee covered)
  have shallow : ∀ entry ∈ outer, entry.depth < depth + 1 :=
    fun entry mem => Nat.lt_succ_of_le (h.shallow entry mem)
  refine (simulates.gets body ctx _ outer h.poised live
    fun entry mem => Nat.le_of_lt (shallow entry mem)).bind ?_
  rintro starts mid - ⟨pending, poised, left⟩
  refine .refl ?_
  rw [poised.quota, poised.pending]
  -- A return from the function leaves the entries that are not deeper than the caller.
  have kept (flow : Flow) : flow.prune callee.scope outer = outer := by
    cases flow with
    | goesOn => rfl
    | returned => exact Scope.survivors_of_shallow shallow
  by_cases exhausted : ((Evaluation.inOrder (function.lines.map fun line => .funded
      (line.eval scene.setting callee.body source))) ⟨ctx.quota,
        ctx.log.toList.filter Event.isObservable⟩).1.quota.isExhausted = true
  · exact .inl exhausted
  · exact .inr ((left (by simpa using exhausted)).trans (kept _))

/-- Once a line of the body returns, the call is over, and its body is never taken up again. -/
theorem Confined.body_ends {host : Host E} {running : List FrameId} {depth : Nat}
    {callback : Callback} {inner outer : List (Entry E)} {body : FrameId}
    {ctx mid after : Context E} {line : Start E} (accounted : ctx.Accounted running)
    (live : ctx.frame? body = some (.calleeAt depth callback))
    (leads : Leads running ctx running mid)
    (others : ∀ id ∈ running ++ outer.map Entry.frame, id ≠ body)
    (h : Confined running depth inner outer mid) (turn : Turn host mid line after)
    (own : line.entry.frame = body) (returns : line.returns host) :
    after.pending.entries = outer ∧
      (∀ later final, Turns host after later final → ∀ other ∈ later, other.entry.frame ≠ body) ∧
      ∀ later outcome final, Course host after later outcome final →
        ∀ other ∈ later, other.entry.frame ≠ body := by
  have issued : body.serial < ctx.frames.next :=
    accounted.balanced.held.issued _ (FrameTable.mem_keys_of_frame? live)
  have evolves := accounted.leads leads
  have evolves' := evolves.trans (h.accounted.leads (.turn turn))
  rcases h.split turn.popped with ⟨rest, rfl⟩ | ⟨-, rest, rfl⟩
  case inr =>
    have held : line.entry.frame ∈ running ++ (line.entry :: rest).map Entry.frame :=
      List.mem_append_right _ List.mem_cons_self
    exact absurd own (others _ held)
  -- The handle of the body still leads to its frame.
  rcases h.below _ List.mem_cons_self with ⟨frame, found, -⟩
  have same : Frame.calleeAt depth callback = frame := by
    have before := evolves.onward.same body frame issued (own ▸ found)
    exact Option.some.inj (live.symm.trans before)
  have pending := h.returning turn returns found (same ▸ rfl)
  have free : body ∉ running ++ after.waiting.map Entry.frame := by
    have waiting : after.waiting = outer := by simp [Context.waiting, turn.staging_eq, pending]
    rw [waiting]
    exact fun held => others body held rfl
  have stale := Nat.lt_of_lt_of_le issued evolves'.onward.issued
  have released := turn.frame?_eq_none evolves'.accounted free
  exact ⟨pending,
    fun later final turns => turns.frame_ne_of_released evolves'.accounted stale released,
    fun later outcome final course => course.frame_ne_of_released evolves'.accounted stale released⟩

/-- A call that does not return for its caller leaves alone what was pending when it started, as
long as nothing of that is deeper than the caller: the work of the call always stands in front of
it, and when the next of these entries is about to be taken, exactly they are pending.  This moment
comes, unless the queue overflows or the quota is exhausted within the call.  And once a line of the
body returns for at least one source, no further work of that body is ever started, not even as the
last step of a run. -/
theorem call_confined {host : Host E} {running : List FrameId} {ctx next : Context E}
    {start : Start E} {function : Function E} {callback : Callback} {source : Source}
    (reachable : Reachable running ctx) (staged : ctx.staging = #[])
    (turn : Turn host ctx start next)
    (call : start.entry.action = .call function callback false source)
    (native : function.isNative = true)
    (shallow : ∀ entry ∈ start.context.pending.entries, entry.depth ≤ start.entry.depth) :
    next.pending.entries =
      (Frame.calleeAt start.entry.depth callback).entries ⟨ctx.frames.next⟩ (function.block source) ++
        start.context.pending.entries ∧
    (∀ inside mid, Turns host next inside mid →
      (∀ other ∈ inside, start.entry.depth < other.entry.depth) →
      (∃ inner, mid.pending.entries = inner ++ start.context.pending.entries ∧
        ∀ entry ∈ inner, start.entry.depth < entry.depth) ∧
      (∀ entry started, mid.pop? = some (entry, started) → entry.depth ≤ start.entry.depth →
        mid.pending.entries = start.context.pending.entries) ∧
      ∀ line after, Turn host mid line after → line.entry.frame = ⟨ctx.frames.next⟩ →
        line.returns host →
        after.pending.entries = start.context.pending.entries ∧
        (∀ later final, Turns host after later final →
          ∀ other ∈ later, other.entry.frame ≠ ⟨ctx.frames.next⟩) ∧
        ∀ later outcome final, Course host after later outcome final →
          ∀ other ∈ later, other.entry.frame ≠ ⟨ctx.frames.next⟩) ∧
    ((∃ inside final, Course host next inside .overflowed final ∧
        ∀ other ∈ inside, start.entry.depth < other.entry.depth) ∨
      ∃ inside mid, Turns host next inside mid ∧
        (∀ other ∈ inside, start.entry.depth < other.entry.depth) ∧
        (mid.quota.isExhausted = true ∨
          mid.pending.entries = start.context.pending.entries)) := by
  have accounted := reachable.accounted
  rcases Confined.of_call accounted staged turn call native shallow with ⟨begun, live⟩
  refine ⟨begun.pending, ?_, ?_⟩
  · intro inside mid turns deep
    rcases begun.turns turns deep with ⟨inner, confined⟩
    refine ⟨⟨inner, confined.pending, fun entry mem => confined.deeper mem⟩,
      fun entry started popped => confined.pending_of_shallow popped, ?_⟩
    intro line after lineTurn own returns
    have others := turn.ne_next accounted
    by_cases empty : function.block source = []
    · -- Without lines nothing is ever part of the body.
      have nothing : Confined running start.entry.depth [] start.context.pending.entries next := by
        simpa [empty, Frame.entries] using begun
      obtain rfl := nothing.turns_nil turns deep
      rcases nothing.split lineTurn.popped with ⟨rest, eq⟩ | ⟨-, rest, eq⟩
      · cases eq
      · have held : line.entry.frame ∈ start.context.pending.entries.map Entry.frame := by
          rw [eq]
          exact List.mem_cons_self
        exact absurd own (others _ (List.mem_append_right _ held))
    · exact confined.body_ends begun.accounted (live empty) (.turns turns) others lineTurn own
        returns
  · rcases begun.gets live native with ⟨inside, final, course⟩ | ⟨inside, mid, turns, left⟩
    · rcases begun.course_until course with all | ⟨inside, mid, turns, deep, pending⟩
      · exact .inl ⟨inside, final, course, all⟩
      · exact .inr ⟨inside, mid, turns, deep, .inr pending⟩
    · rcases begun.turns_until turns with all | ⟨inside, mid, turns, deep, pending⟩
      · exact .inr ⟨inside, mid, turns, all, left⟩
      · exact .inr ⟨inside, mid, turns, deep, .inr pending⟩

/-- The first line of the function has returned, and the other one has been discarded. -/
def TwoCalls.returned : Context .bare :=
  { working with
    pending := started.pending
    frames := { next := 3, slots := [(⟨1⟩, top)] }
    log := #[.notice (.called "twice" 0 2), .notice (.discarded 1 1)] }

/-- The first line of the function returns; what is pending then is the second call, and it is taken
in the run that follows. -/
theorem call_confined_of_two_lines :
    ∃ (final : Context .bare) (later : List (Start .bare)),
      Turn .bare TwoCalls.asked ⟨TwoCalls.first, TwoCalls.started⟩ TwoCalls.called ∧
      Turn .bare TwoCalls.called ⟨TwoCalls.line, TwoCalls.working⟩ TwoCalls.returned ∧
      Start.returns .bare ⟨TwoCalls.line, TwoCalls.working⟩ ∧
      TwoCalls.called.pending.entries.length = 3 ∧
      TwoCalls.started.pending.entries = [TwoCalls.second] ∧
      TwoCalls.returned.pending.entries = TwoCalls.started.pending.entries ∧
      Course .bare TwoCalls.returned later .completed final ∧ later.length = 1 ∧
      (∀ other ∈ later, other.entry.frame ≠ TwoCalls.line.frame) ∧
      ∀ later final, Turns .bare TwoCalls.returned later final →
        ∀ other ∈ later, other.entry.frame ≠ TwoCalls.line.frame := by
  have reachable : Reachable [] TwoCalls.asked :=
    ⟨{}, (), .off,
      ((Leads.refl.deed (.effect (.queueCall TwoCalls.twice { name := "alex" } .empty))).deed
        (.effect (.queueCall ⟨"never", []⟩ { name := "sam" } .empty))).promote⟩
  have lineTurn : Turn .bare TwoCalls.called ⟨TwoCalls.line, TwoCalls.working⟩ TwoCalls.returned :=
    ⟨by decide +kernel, rfl, 1, _, rfl, by decide +kernel, rfl⟩
  have returns : Start.returns .bare ⟨TwoCalls.line, TwoCalls.working⟩ :=
    ⟨rfl, { name := "alex" }, [], .initial, rfl⟩
  have shallow : ∀ other ∈ TwoCalls.started.pending.entries,
      other.depth ≤ TwoCalls.first.depth := by decide +kernel
  obtain ⟨-, inside, -⟩ := call_confined reachable rfl TwoCalls.turn_call rfl rfl shallow
  have nothing : ∀ other ∈ ([] : List (Start .bare)), TwoCalls.first.depth < other.entry.depth := by
    simp
  obtain ⟨-, -, ends⟩ := inside [] _ (.refl _) nothing
  obtain ⟨pending, turns, course⟩ := ends _ _ lineTurn rfl returns
  have outerTurn : Turn .bare TwoCalls.returned
      ⟨TwoCalls.second, { TwoCalls.returned with pending := .empty, depth := 0 }⟩ _ :=
    ⟨by decide +kernel, rfl, 1, _, rfl, by decide +kernel, rfl⟩
  have rest := Course.turn outerTurn (.completed (by decide +kernel) rfl)
  exact ⟨_, _, TwoCalls.turn_call, lineTurn, returns, rfl, rfl, pending, rest, rfl,
    course _ _ _ rest, turns⟩

end CommandScheduler
