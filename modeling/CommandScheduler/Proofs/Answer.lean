import CommandScheduler.Proofs.Return

/-!
# Answer — what a root invocation is told, and when

The callback of a root invocation may be lent to any number of bodies and waiting calls.  All of them
return for the outermost one, so whoever returns first takes the others with it.  Hence a run tells
the callback something in one step at most.
-/

namespace CommandScheduler

variable {E : Embedding} {host : Host E} {watched : Callback} {ctx next : Context E}
  {start : Start E}

/-! ## Steps of native actions -/

namespace Context

/-- What a callback has heard. -/
def heard (watched : Callback) (ctx : Context E) : List (Event E.Mark) :=
  watched.heard ctx.log.toList

/-- What the work of a native program sees and writes. -/
def tape (ctx : Context E) : Tape E.Mark :=
  { quota := ctx.quota, events := ctx.observed }

theorem heard_tape (watched : Callback) (ctx : Context E) :
    ctx.tape.heard watched = ctx.heard watched :=
  watched.heard_observable ctx.log.toList

theorem heard_notify (watched : Callback) (ctx : Context E) (notice : Notice) :
    (ctx.notify notice).heard watched = ctx.heard watched := by
  simp [heard, notify, record, Callback.heard, Callback.hears]

end Context

/-- A native action shows what its sketch shows, even if the queue overflows. -/
theorem Orderly.heard_performed (h : Orderly ctx)
    (popped : ctx.pop? = some (start.entry, start.context)) {frame : Frame}
    (live : ctx.frame? start.entry.frame = some frame) {procedure : Procedure E Unit}
    {sketch : Sketch E} (own : start.entry.action.work host start.entry.frame = .own procedure)
    (run : procedure.run? (start.site ctx frame).draw { tape := ctx.tape } = some ((), sketch))
    {fuel : Nat} {done : Context E}
    (performed : Context.perform host fuel start.entry.action start.entry.frame start.context =
      some done) : done.heard watched = sketch.tape.heard watched := by
  have poised := h.poised
  rw [Context.pending_of_pop popped] at poised
  have observed := ((poised.start live popped).echoes.run run).2.observed
  obtain rfl := Context.perform_unique performed (Context.perform_own host own start.context)
  rw [← Context.heard_tape]
  exact congrArg watched.heard observed

/-- What is pending after the turn of a native action, and the frame of the new entries. -/
theorem Orderly.pending_turn (h : Orderly ctx) (turn : Turn host ctx start next) {frame : Frame}
    (live : ctx.frame? start.entry.frame = some frame) {procedure : Procedure E Unit}
    {sketch : Sketch E} (own : start.entry.action.work host start.entry.frame = .own procedure)
    (run : procedure.run? (start.site ctx frame).draw { tape := ctx.tape } = some ((), sketch)) :
    next.pending.entries = (start.site ctx frame).entries sketch ++
        sketch.flow.prune frame.scope start.context.pending.entries ∧
      (sketch.staged ≠ [] → next.frame? ((start.site ctx frame).target sketch).1 =
        some ((start.site ctx frame).target sketch).2) := by
  have poised := h.poised
  rw [turn.pending_eq] at poised
  rcases turn.own own with ⟨intact, rfl⟩
  rcases poised.turn live turn.popped run with overflowed | ⟨settled, target⟩
  · exact Bool.noConfusion (intact.symm.trans overflowed)
  · exact ⟨settled.pending, target⟩

/-- After the turn the agenda of the site is pending. -/
theorem Site.flatMap_parts_entries (site : Site E) (sketch : Sketch E) :
    ((site.entries sketch ++ sketch.flow.prune site.frame.scope site.rest).map
      Entry.action).flatMap Action.parts = site.agenda sketch := by
  have actions : (site.entries sketch).map Entry.action = sketch.staged := by
    simp [entries, Function.comp_def]
  rw [List.map_append, actions]
  rfl

/-! ## Phases -/

/-- The entry waits in a frame from which returns reach it, and does not know the callback by
itself. -/
structure Entry.Open (watched : Callback) (scope : Scope) (ctx : Context E) (entry : Entry E) :
    Prop where
  reached : scope.Reaches entry.depth
  placed : ∃ frame hears, ctx.frame? entry.frame = some frame ∧
    frame.Tuned watched scope hears ∧ ∀ part ∈ entry.action.parts, part.Open watched hears

/-- How the pending work may still answer. -/
inductive Context.Pends (watched : Callback) (ctx : Context E) : Prop where
  | undecided {scope : Scope} : (∀ entry ∈ ctx.pending.entries, entry.Open watched scope ctx) →
      Pends watched ctx
  | promised {scope : Scope} {entry : Entry E} {rest : List (Entry E)} {frame : Frame} :
      ctx.pending.entries = entry :: rest → ctx.frame? entry.frame = some frame →
      frame.Tuned watched scope true → scope.Reaches frame.depth →
      (∀ other ∈ rest, other.Open watched scope ctx) →
      Action.Promised watched ((ctx.pending.entries.map Entry.action).flatMap Action.parts) →
        Pends watched ctx

/-- Between two turns, as long as the callback has heard nothing. -/
structure Waiting (watched : Callback) (ctx : Context E) : Prop where
  orderly : Orderly ctx
  silent : ctx.heard watched = []
  pends : ctx.Pends watched

/-- Between two turns, once the callback has been told something. -/
structure Answered (watched : Callback) (ctx : Context E) : Prop where
  orderly : Orderly ctx
  spent : ∀ part ∈ (ctx.pending.entries.map Entry.action).flatMap Action.parts,
    part.Spent watched

/-- An entry that goes on waiting is as open as before. -/
theorem Entry.Open.later {scope : Scope} {entry : Entry E} (h : entry.Open watched scope ctx)
    (accounted : ctx.Accounted []) (turn : Turn host ctx start next)
    (before : entry ∈ start.context.pending.entries) (after : entry ∈ next.pending.entries) :
    entry.Open watched scope next := by
  rcases h with ⟨reached, frame, hears, live, tuned, unknown⟩
  exact ⟨reached, frame, hears, (turn.frame?_eq accounted before after).trans live, tuned, unknown⟩

/-- Whatever is taken from the queue, its sketch has a verdict. -/
theorem Waiting.exists_verdict (host : Host E) (h : Waiting watched ctx)
    (popped : ctx.pop? = some (start.entry, start.context)) :
    ∃ scope frame procedure sketch, ctx.frame? start.entry.frame = some frame ∧
      (∀ other ∈ start.context.pending.entries, other.Open watched scope ctx) ∧
      start.entry.action.work host start.entry.frame = .own procedure ∧
      procedure.run? (start.site ctx frame).draw { tape := ctx.tape } = some ((), sketch) ∧
      (start.site ctx frame).Verdict watched scope ctx.tape
        (start.entry.action.givenBack host start.entry.frame start.context) sketch := by
  have poised := h.orderly.poised
  have cons := Context.pending_of_pop popped
  have native := h.orderly.native_of_pop popped
  rw [cons] at poised
  rcases poised.exists_frame? List.mem_cons_self with ⟨frame, live, depth⟩
  have echoes := (poised.start live popped).echoes
  -- Both phases leave the entry taken with a frame that is tuned, and the others open.
  cases h.pends with
  | @undecided scope unknown =>
    rw [cons] at unknown
    rcases unknown _ List.mem_cons_self with ⟨reached, owner, hears, ownerLive, tuned, parts⟩
    obtain rfl : frame = owner := Option.some.inj (live.symm.trans ownerLive)
    have others : ∀ other ∈ start.context.pending.entries, other.Open watched scope ctx :=
      fun other mem => unknown other (List.mem_cons_of_mem _ mem)
    have site : (start.site ctx frame).Tuned watched scope hears :=
      ⟨tuned, depth ▸ reached, fun other mem => (others other mem).reached⟩
    obtain ⟨procedure, sketch, own, run, verdict⟩ :=
      site.exists_verdict_of_open host native parts ctx.tape
    exact ⟨scope, frame, procedure, sketch, live, others, own, run, verdict _ _ echoes⟩
  | @promised scope entry rest owner pending ownerLive tuned reached others promised =>
    cases cons.symm.trans pending
    obtain rfl : frame = owner := Option.some.inj (live.symm.trans ownerLive)
    have site : (start.site ctx frame).Tuned watched scope true :=
      ⟨tuned, reached, fun other mem => (others other mem).reached⟩
    rw [cons, List.map_cons, List.flatMap_cons] at promised
    obtain ⟨procedure, sketch, own, run, verdict⟩ :=
      site.exists_verdict_of_promised host native promised ctx.tape
    exact ⟨scope, frame, procedure, sketch, live, others, own, run, verdict _ _ echoes⟩

/-- The entry of a queued action that does not know the callback by itself. -/
theorem Site.open_entry {site : Site E} {sketch : Sketch E} {scope : Scope} {hears : Bool}
    (target : sketch.staged ≠ [] →
      next.frame? (site.target sketch).1 = some (site.target sketch).2)
    (tuned : (site.target sketch).2.Tuned watched scope hears)
    (reaches : scope.Reaches (site.target sketch).2.depth) {action : Action E}
    (staged : action ∈ sketch.staged) (unknown : ∀ part ∈ action.parts, part.Open watched hears) :
    Entry.Open watched scope next
      ⟨(site.target sketch).2.depth, (site.target sketch).1, action⟩ :=
  ⟨reaches, _, hears, target (List.ne_nil_of_mem staged), tuned, unknown⟩

/-- Nobody who is pending knows the callback by itself. -/
theorem Orderly.pends_undecided (h : Orderly ctx) (turn : Turn host ctx start next) {frame : Frame}
    (live : ctx.frame? start.entry.frame = some frame) {procedure : Procedure E Unit}
    {sketch : Sketch E} (own : start.entry.action.work host start.entry.frame = .own procedure)
    (run : procedure.run? (start.site ctx frame).draw { tape := ctx.tape } = some ((), sketch))
    {scope scope' : Scope} {hears : Bool}
    (others : ∀ other ∈ start.context.pending.entries, other.Open watched scope ctx)
    (tuned : ((start.site ctx frame).target sketch).2.Tuned watched scope' hears)
    (reaches : scope'.Reaches ((start.site ctx frame).target sketch).2.depth)
    (kept : scope' = scope ∨ sketch.flow.prune frame.scope start.context.pending.entries = [])
    (unknown : ∀ part ∈ sketch.staged.flatMap Action.parts, part.Open watched hears) :
    next.Pends watched := by
  rcases h.pending_turn turn live own run with ⟨pending, target⟩
  have all : ∀ entry ∈ next.pending.entries, entry.Open watched scope' next := by
    intro entry waits
    rcases List.mem_append.mp (pending ▸ waits) with new | old
    · rcases List.mem_map.mp new with ⟨action, staged, rfl⟩
      exact Site.open_entry target tuned reaches staged fun part mem =>
        unknown part (List.mem_flatMap.mpr ⟨action, staged, mem⟩)
    · rcases kept with rfl | none
      · have before := (Flow.prune_suffix _ _ _).subset old
        exact (others entry before).later h.accounted turn before waits
      · exact absurd old (none ▸ List.not_mem_nil)
  exact .undecided all

/-- The first pending action alone knows the callback. -/
theorem Orderly.pends_promised (h : Orderly ctx) (turn : Turn host ctx start next) {frame : Frame}
    (live : ctx.frame? start.entry.frame = some frame) {procedure : Procedure E Unit}
    {sketch : Sketch E} (own : start.entry.action.work host start.entry.frame = .own procedure)
    (run : procedure.run? (start.site ctx frame).draw { tape := ctx.tape } = some ((), sketch))
    {scope : Scope} (others : ∀ other ∈ start.context.pending.entries, other.Open watched scope ctx)
    (some : sketch.staged ≠ [])
    (tuned : ((start.site ctx frame).target sketch).2.Tuned watched scope true)
    (reaches : scope.Reaches ((start.site ctx frame).target sketch).2.depth)
    (promised : Action.Promised watched ((start.site ctx frame).agenda sketch)) :
    next.Pends watched := by
  let site := start.site ctx frame
  rcases h.pending_turn turn live own run with ⟨pending, target⟩
  rcases List.exists_cons_of_ne_nil some with ⟨first, rest, staged⟩
  let kept := sketch.flow.prune frame.scope start.context.pending.entries
  let entry (action : Action E) : Entry E :=
    ⟨(site.target sketch).2.depth, (site.target sketch).1, action⟩
  have cons : next.pending.entries = entry first :: (rest.map entry ++ kept) := by
    rw [pending, Site.entries, staged]
    rfl
  have parts : site.agenda sketch =
      first.parts ++ (rest ++ kept.map Entry.action).flatMap Action.parts := by
    rw [Site.agenda, staged]
    rfl
  -- Behind the first action there are only executions that do not know the callback.
  have spent := (parts ▸ promised).spent first.parts_ne_nil
  have behind : ∀ other ∈ rest.map entry ++ kept, other.Open watched scope next := by
    intro other mem
    rcases List.mem_append.mp mem with new | old
    · rcases List.mem_map.mp new with ⟨action, later, rfl⟩
      have queued : action ∈ sketch.staged := staged ▸ List.mem_cons_of_mem _ later
      refine Site.open_entry target tuned reaches queued fun part of => ?_
      exact (spent part (List.mem_flatMap.mpr ⟨action, List.mem_append_left _ later, of⟩)).open true
    · have before := (Flow.prune_suffix _ _ _).subset old
      have waits : other ∈ next.pending.entries := cons ▸ List.mem_cons_of_mem _ mem
      exact (others other before).later h.accounted turn before waits
  have agenda : (next.pending.entries.map Entry.action).flatMap Action.parts =
      site.agenda sketch := by
    rw [pending]
    exact site.flatMap_parts_entries sketch
  exact .promised cons (target some) tuned reaches behind (agenda ▸ promised)

/-! ## Steps and runs -/

/-- The result that a step returns at a terminal, and for how many sources. -/
def Start.givenBack (host : Host E) (start : Start E) : Option (Result × Nat) :=
  start.entry.action.givenBack host start.entry.frame start.context

/-- A step tells the callback nothing, and the pending work may still answer; or it answers, and
nobody else does. -/
theorem Waiting.performed (h : Waiting watched ctx)
    (popped : ctx.pop? = some (start.entry, start.context)) {fuel : Nat} {done : Context E}
    (performed : Context.perform host fuel start.entry.action start.entry.frame start.context =
      some done) :
    (done.heard watched = [] ∧ ∀ next, Turn host ctx start next → next.Pends watched) ∨
      ∃ result n, done.heard watched = (List.replicate n (watched.fire result)).flatten ∧
        (start.givenBack host = some (result, n) ∨ start.givenBack host = none ∧ n = 1) ∧
        ∀ next, Turn host ctx start next → Answered watched next := by
  rcases h.exists_verdict host popped with
    ⟨scope, frame, procedure, sketch, live, others, own, run, verdict⟩
  have heard : done.heard watched = sketch.tape.heard watched :=
    h.orderly.heard_performed popped live own run performed
  have silent : ctx.tape.heard watched = [] := (ctx.heard_tape watched).trans h.silent
  cases verdict with
  | undecided same tuned reaches kept unknown =>
    refine .inl ⟨heard.trans (same.trans silent), fun next turn => ?_⟩
    exact h.orderly.pends_undecided turn live own run others tuned reaches kept unknown
  | promised same some tuned reaches promised =>
    refine .inl ⟨heard.trans (same.trans silent), fun next turn => ?_⟩
    exact h.orderly.pends_promised turn live own run others some tuned reaches promised
  | answered result n told given spent =>
    refine .inr ⟨result, n, ?_, given, fun next turn => ⟨h.orderly.turn turn, ?_⟩⟩
    · rw [heard, told, silent, List.nil_append]
    · rw [(h.orderly.pending_turn turn live own run).1]
      exact (start.site ctx frame).flatMap_parts_entries sketch ▸ spent

/-- Work that does not know the callback tells it nothing. -/
theorem Answered.performed (h : Answered watched ctx)
    (popped : ctx.pop? = some (start.entry, start.context)) {fuel : Nat} {done : Context E}
    (performed : Context.perform host fuel start.entry.action start.entry.frame start.context =
      some done) :
    done.heard watched = ctx.heard watched ∧
      ∀ next, Turn host ctx start next → Answered watched next := by
  have poised := h.orderly.poised
  have spent := h.spent
  have cons := Context.pending_of_pop popped
  rw [cons] at poised spent
  rcases poised.exists_frame? List.mem_cons_self with ⟨frame, live, -⟩
  obtain ⟨procedure, sketch, own, run, silent, rest⟩ :=
    (start.site ctx frame).exists_run?_of_spent host (h.orderly.native_of_pop popped) spent ctx.tape
  refine ⟨?_, fun next turn => ⟨h.orderly.turn turn, ?_⟩⟩
  · rw [h.orderly.heard_performed popped live own run performed, silent, Context.heard_tape]
  · rw [(h.orderly.pending_turn turn live own run).1]
    exact (start.site ctx frame).flatMap_parts_entries sketch ▸ rest

/-- Between the end of a step and the next turn nothing is heard. -/
theorem Turn.heard_eq (turn : Turn host ctx start next) {fuel : Nat} {done : Context E}
    (performed : Context.perform host fuel start.entry.action start.entry.frame start.context =
      some done) : next.heard watched = done.heard watched := by
  rcases turn with ⟨-, -, fuel', after, performed', -, rfl⟩
  rw [Context.perform_unique performed performed']
  rfl

/-- Once the callback has been told something, it hears nothing more. -/
theorem Answered.course (h : Answered watched ctx) {starts : List (Start E)} {outcome : Outcome}
    {final : Context E} (course : Course host ctx starts outcome final) :
    final.heard watched = ctx.heard watched := by
  induction course with
  | exhausted => exact Context.heard_notify ..
  | completed => rfl
  | overflowed _ popped performed _ =>
    exact (Context.heard_notify ..).trans (h.performed popped performed).1
  | turn turn _ ih =>
    rcases turn.performed with ⟨fuel, done, performed, -⟩
    rcases h.performed turn.popped performed with ⟨same, later⟩
    exact (ih (later _ turn)).trans ((turn.heard_eq performed).trans same)

/-- All that the callback hears of a run it is told in one step: a result, `n` times. -/
structure Start.Tells (host : Host E) (watched : Callback) (ctx : Context E)
    (starts : List (Start E)) (final : Context E) (result : Result) (n : Nat) (start : Start E) :
    Prop where
  started : ∃ before mid after, starts = before ++ start :: after ∧ Turns host ctx before mid ∧
    mid.pop? = some (start.entry, start.context)
  silent : start.context.heard watched = []
  told : ∃ fuel done, Context.perform host fuel start.entry.action start.entry.frame start.context =
      some done ∧ done.heard watched = (List.replicate n (watched.fire result)).flatten
  all : final.heard watched = (List.replicate n (watched.fire result)).flatten

/-- A run tells the callback nothing or everything in one step. -/
theorem Waiting.course (h : Waiting watched ctx) {starts : List (Start E)} {outcome : Outcome}
    {final : Context E} (course : Course host ctx starts outcome final) :
    final.heard watched = [] ∨
      ∃ (start : Start E) (result : Result) (n : Nat),
        start.Tells host watched ctx starts final result n ∧
        (start.givenBack host = some (result, n) ∨ start.givenBack host = none ∧ n = 1) := by
  have silent {ctx started : Context E} {entry : Entry E} (popped : ctx.pop? = some (entry, started)) :
      started.heard watched = ctx.heard watched := by
    obtain ⟨pending, -, rfl⟩ := Context.pop?_eq_some popped
    rfl
  -- Induction on the run.  A turn in which nothing is heard leaves a context that waits again.
  induction course with
  | exhausted => exact .inl ((Context.heard_notify ..).trans h.silent)
  | completed => exact .inl h.silent
  | @overflowed ctx after start fuel funded popped performed overflowed =>
    rcases h.performed popped performed with ⟨nothing, -⟩ | ⟨result, n, told, given, -⟩
    · exact .inl ((Context.heard_notify ..).trans nothing)
    · exact .inr ⟨start, result, n,
        ⟨⟨[], ctx, [], rfl, .refl ctx, popped⟩, (silent popped).trans h.silent,
          ⟨fuel, after, performed, told⟩, (Context.heard_notify ..).trans told⟩, given⟩
  | @turn ctx next final start starts outcome turn course ih =>
    rcases turn.performed with ⟨fuel, done, performed, -⟩
    rcases h.performed turn.popped performed with ⟨nothing, pends⟩ | ⟨result, n, told, given, later⟩
    · have same : next.heard watched = [] := (turn.heard_eq performed).trans nothing
      rcases ih ⟨h.orderly.turn turn, same, pends next turn⟩ with none | ⟨last, result, n, tells, given⟩
      · exact .inl none
      · rcases tells.started with ⟨before, mid, after, rfl, turns, popped⟩
        exact .inr ⟨last, result, n,
          ⟨⟨start :: before, mid, after, rfl, .head turn turns, popped⟩, tells.silent, tells.told,
            tells.all⟩, given⟩
    · -- The callback has been told, so the rest of the run is silent.
      have all : final.heard watched = (List.replicate n (watched.fire result)).flatten :=
        ((later next turn).course course).trans ((turn.heard_eq performed).trans told)
      exact .inr ⟨start, result, n,
        ⟨⟨[], ctx, starts, rfl, .refl ctx, turn.popped⟩, (silent turn.popped).trans h.silent,
          ⟨fuel, done, performed, told⟩, all⟩, given⟩

/-! ## Root invocations -/

/-- Neither the program nor the source of the request brings the callback along by itself. -/
def Request.Avoids {V : Vocabulary} (watched : Callback) : Request V → Prop
  | command chain source _ => chain.Avoids watched ∧ source.Avoids watched
  | call function source _ => function.Avoids watched ∧ source.Avoids watched

/-- A single request waits in a root frame. -/
theorem Context.pending_asked (limits : Limits) (memory : E.Memory) (profiler : Profiler)
    (sink? : Option Sink) (request : Request E) :
    (Context.asked limits memory profiler sink? [request]).overflowed = false ∧
      (Context.asked limits memory profiler sink? [request]).promote.pending.entries =
        [⟨0, ⟨0⟩, request.action⟩] ∧
      (Context.asked limits memory profiler sink? [request]).promote.frame? ⟨0⟩ =
        some (.root request.callback) := by
  cases request <;> exact ⟨rfl, rfl, rfl⟩

section Root

variable (limits : Limits) (memory : E.Memory) (profiler : Profiler) (sink? : Option Sink)
  {request : Request E}

theorem Regular.of_request (native : request.isNative = true) :
    Regular (Context.asked limits memory profiler sink? [request]).promote := by
  rcases Context.pending_asked limits memory profiler sink? request with ⟨-, pending, live⟩
  refine ⟨.of_request limits memory profiler sink? native, ?_⟩
  rw [pending]
  refine List.forall_mem_singleton.mpr ⟨_, live, Frame.covered_root _, ?_⟩
  cases request <;> exact List.forall_mem_singleton.mpr trivial

/-- Whoever asks for a command or a call waits for an answer. -/
theorem Waiting.of_request (native : request.isNative = true)
    (avoids : request.Avoids request.callback) :
    Waiting request.callback (Context.asked limits memory profiler sink? [request]).promote := by
  rcases Context.pending_asked limits memory profiler sink? request with ⟨-, pending, live⟩
  have hearing : (Frame.root request.callback).Tuned request.callback .clearAll true :=
    .hearing (Callback.includes_self _) rfl
  refine ⟨.of_request limits memory profiler sink? native, by cases request <;> rfl, ?_⟩
  cases request with
  | command chain source callback =>
    have waits : ∀ entry ∈ (Context.asked limits memory profiler sink?
        [.command chain source callback]).promote.pending.entries,
        entry.Open callback .clearAll (Context.asked limits memory profiler sink?
          [.command chain source callback]).promote := by
      rw [pending]
      exact List.forall_mem_singleton.mpr
        ⟨trivial, _, true, live, hearing, List.forall_mem_singleton.mpr avoids⟩
    exact .undecided waits
  | call function source callback =>
    rcases avoids with ⟨avoids, free⟩
    have includes := free.chain_includes (Callback.includes_self callback)
    refine .promised pending live hearing trivial (fun other mem => absurd mem List.not_mem_nil) ?_
    rw [pending]
    exact .call avoids free includes

end Root

/-- A native program runs to its end and tells the callback of its root invocation something in one
step at most, if neither the program nor its source brings that callback along by itself.  It tells
a single result; only a step that returns one for several sources tells it once for each of them.

When a returning chain calls a function for its sources, what a call returns goes to its source and to
the caller.  As soon as one of the bodies returns, no other work of the caller is started, so no call
for a later source returns anything. -/
theorem answered_in_one_step (host : Host E) (limits : Limits) (memory : E.Memory)
    (profiler : Profiler) (sink? : Option Sink) {request : Request E}
    (native : request.isNative = true) (avoids : request.Avoids request.callback) :
    ∃ starts outcome final enough,
      (∀ fuel, enough ≤ fuel → (Context.asked limits memory profiler sink? [request]).run host fuel =
        some (outcome, final)) ∧
      Course host (Context.asked limits memory profiler sink? [request]).promote starts outcome
        final ∧
      (final.heard request.callback = [] ∨
        ∃ (start : Start E) (result : Result) (n : Nat),
          start.Tells host request.callback
            (Context.asked limits memory profiler sink? [request]).promote starts final result n ∧
          (start.givenBack host = some (result, n) ∨ start.givenBack host = none ∧ n = 1)) ∧
      ∀ before ctx call next function callback source,
        Turns host (Context.asked limits memory profiler sink? [request]).promote before ctx →
        Turn host ctx call next → call.entry.action = .call function callback true source →
        function.lines.isEmpty = false →
        ∃ owner, ctx.frame? call.entry.frame = some owner ∧
          next.frame? ⟨ctx.frames.next⟩ = some
            { depth := owner.depth + 1
              callback := source.callback.chain owner.callback
              scope := owner.scope } ∧
          ∀ inside mid back after later outcome' final', Turns host next inside mid →
            Turn host mid back after → back.entry.frame = ⟨ctx.frames.next⟩ →
            back.RollsBack host → Course host after later outcome' final' →
              ∀ other ∈ later, other.entry.frame ≠ call.entry.frame := by
  have single : ∀ other ∈ [request], other.isNative = true := List.forall_mem_singleton.mpr native
  obtain ⟨starts, outcome, final, course⟩ :=
    Context.asked_ends host limits memory profiler sink? single
  rcases course.exists_drain with ⟨enough, drained⟩
  have waiting := Waiting.of_request limits memory profiler sink? native avoids
  refine ⟨starts, outcome, final, enough, fun fuel le => Context.drain_mono le drained, course,
    waiting.course course, ?_⟩
  intro before ctx call next function callback source turns turn action lines
  have regular := (Regular.of_request limits memory profiler sink? native).turns turns
  rcases regular.callee turn action lines with ⟨owner, live, -, callee⟩
  refine ⟨owner, live, callee, ?_⟩
  intro inside mid back after later outcome' final' inner returning own rollsBack rest
  exact regular.caller_ends turn action lines inner returning own rollsBack rest

/-- A stage that forks every source into two. -/
def Stage.doubling : Stage Embedding.bare :=
  { forked := true, redirect := .modifier fun _ => .ok [.named "bo", .named "cy"] }

/-- A returning command that calls a function for two sources, which returns for two sources, too. -/
def Request.doubling : Request Embedding.bare :=
  let seven : Chain Embedding.bare := .ofStages "seven" [.doubling] (.returnValue 7)
  let call : Chain Embedding.bare :=
    .ofStages "call" [.doubling, { redirect := .returnRun }] (.call (.ofChains "sevens" [seven]))
  .command call (.named "alex") (.single (.label "root"))

theorem Request.doubling_avoids : Request.doubling.Avoids Request.doubling.callback := by
  have named (name : String) : (Source.named name).Avoids Request.doubling.callback := by
    rintro listener mem root
    rw [List.mem_singleton.mp mem] at root
    cases List.mem_singleton.mp root
  have double : Stage.doubling.redirect.Avoids Request.doubling.callback := by
    rintro source sources - ⟨⟩ yielded mem
    rcases List.mem_cons.mp mem with rfl | mem
    · exact named _
    · exact List.mem_singleton.mp mem ▸ named _
  refine ⟨⟨?_, ?_⟩, named _⟩
  · intro stage mem
    rcases List.mem_cons.mp mem with rfl | mem
    · exact double
    · exact List.mem_singleton.mp mem ▸ trivial
  · exact ⟨⟨List.forall_mem_singleton.mpr double, trivial⟩, trivial⟩

/-- The function returns seven for two sources in its first call, and the second call is gone. -/
theorem answered_in_one_step_of_two_sources :
    ∃ (starts : List (Start .bare)) (outcome : Outcome) (final : Context .bare)
      (start : Start .bare) (result : Result),
      Course .bare (Context.asked {} () .off none [Request.doubling]).promote starts outcome final ∧
      start.Tells .bare Request.doubling.callback
        (Context.asked {} () .off none [Request.doubling]).promote starts final result 2 ∧
      start.givenBack .bare = some (result, 2) := by
  have native : Request.doubling.isNative = true := by decide +kernel
  obtain ⟨starts, outcome, final, enough, ran, course, told, -⟩ :=
    answered_in_one_step .bare {} () .off none native Request.doubling_avoids
  -- How much is heard is computed; that it is heard in one step is the theorem.
  have twice : (final.heard Request.doubling.callback).length = 2 := by
    have computed : ((Context.asked {} () .off none [Request.doubling]).run .bare 8).map
        (fun done => (done.2.heard Request.doubling.callback).length) = some 2 := by
      decide +kernel
    rcases Option.map_eq_some_iff.mp computed with ⟨done, ran', length⟩
    have long := Context.drain_mono (Nat.le_max_left 8 enough) ran'
    cases long.symm.trans (ran _ (Nat.le_max_right 8 enough))
    exact length
  rcases told with none | ⟨start, result, n, tells, given⟩
  · rw [none] at twice
    cases twice
  · obtain rfl : n = 2 := by
      rw [tells.all] at twice
      simpa [Callback.fire, Request.callback, Request.doubling, Callback.single] using twice
    rcases given with given | ⟨-, one⟩
    · exact ⟨starts, outcome, final, start, result, course, tells, given⟩
    · cases one

end CommandScheduler
