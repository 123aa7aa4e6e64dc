import CommandScheduler.Proofs.Holders
import CommandScheduler.Proofs.Queueing
import CommandScheduler.Proofs.Reachable

/-!
# Preorder — the order in which entries start

Work that only queues more work grows a forest: below each entry that was started stand the entries
that it queued, in the order in which it queued them.  The run loop starts the entries of this
forest in preorder, each entry with all that comes from it before the next one, and leaves what is
pending behind the forest alone.
-/

namespace CommandScheduler

variable {E : Embedding}

/-! ## What is queued -/

/-- The entries of actions that are queued in a frame; there are none if the frame was released. -/
def Context.entriesIn (ctx : Context E) (id : FrameId) (actions : List (Action E)) :
    List (Entry E) :=
  match ctx.frame? id with
  | some frame => actions.map fun action => { depth := frame.depth, frame := id, action }
  | none => []

namespace Effect

def rollsBack : Effect E → Bool
  | discard _ | discardFrom _ => true
  | _ => false

/-- The entries that an effect queues, in order. -/
def queued (ctx : Context E) : Effect E → List (Entry E)
  | enqueue id action => ctx.entriesIn id [action]
  | schedule id actions => ctx.entriesIn id (fan actions)
  | queueCommand chain source callback =>
    let (id, ctx) := ctx.pushTopFrame callback
    ctx.entriesIn id [.topLevel chain source]
  | queueCall function source callback =>
    let (id, ctx) := ctx.pushTopFrame callback
    ctx.entriesIn id [.call function (source.callback.chain callback) false source]
  | _ => []

end Effect

namespace Deed

def rollsBack : Deed E → Bool
  | effect e => e.rollsBack
  | record _ | openScope _ | closeScope => false

def queued (ctx : Context E) : Deed E → List (Entry E)
  | effect e => e.queued ctx
  | record _ | openScope _ | closeScope => []

end Deed

/-- The entries that a procedure queues, in order. -/
def Procedure.queued {α : Type} (ctx : Context E) : Procedure E α → List (Entry E)
  | .done _ => []
  | .call deed next =>
    deed.queued ctx ++ Procedure.queued (deed.apply ctx).2 (next (deed.apply ctx).1)

/-- Done in the first context, the work queues the entries, in order, and ends in the second context;
on its way it neither rolls back nor enters the run loop. -/
inductive Plain (host : Host E) : Work E → Context E → List (Entry E) → Context E → Prop where
  | own {procedure : Procedure E Unit} {ctx : Context E} :
      (∀ deed moment, procedure.Calls Deed.apply ctx deed moment → deed.rollsBack = false) →
        Plain host (.own procedure) ctx (procedure.queued ctx) (procedure.apply ctx)
  | done {ctx : Context E} : Plain host (.embedded (.done ())) ctx [] ctx
  | effect {effect : Effect E} {next : effect.Reply → Program E Unit} {ctx after : Context E}
      {later : List (Entry E)} :
      effect.rollsBack = false →
      Plain host (.embedded (next (effect.apply ctx).1)) (effect.apply ctx).2 later after →
        Plain host (.embedded (.call (.effect effect) next)) ctx (effect.queued ctx ++ later) after
  | perform {action : Action E} {frame : FrameId} {next : Unit → Program E Unit}
      {ctx mid after : Context E} {first later : List (Entry E)} :
      Plain host (action.work host frame) ctx first mid →
      Plain host (.embedded (next ())) mid later after →
        Plain host (.embedded (.call (.perform action frame) next)) ctx (first ++ later) after

/-! ## What queueing does to the queue -/

theorem FrameTable.retain?_eq_some {table frames : FrameTable} {id : FrameId} {depth : Nat}
    (h : table.retain? id = some (depth, frames)) :
    frames.live = table.live ∧ ∃ frame, table.frame? id = some frame ∧ frame.depth = depth := by
  rcases Option.map_eq_some_iff.mp h with ⟨slot, found, eq⟩
  cases eq
  refine ⟨framed_updateSlot_of_kept ?_, slot.frame, ?_, rfl⟩
  · intro other _
    exact ⟨_, rfl, rfl⟩
  · simp [frame?, found]

/-- The second context is the first one with more entries staged. -/
structure Context.Stages (ctx : Context E) (queued : List (Entry E)) (ctx' : Context E) : Prop where
  staging : ctx'.staging.toList = ctx.staging.toList ++ queued
  pending : ctx'.pending = ctx.pending

namespace Context

theorem Stages.trans {ctx ctx' ctx'' : Context E} {first later : List (Entry E)}
    (h : ctx.Stages first ctx') (h' : ctx'.Stages later ctx'') :
    ctx.Stages (first ++ later) ctx'' where
  staging := by rw [h'.staging, h.staging, List.append_assoc]
  pending := h'.pending.trans h.pending

/-- What was queued before the frames were touched is not staged again. -/
theorem Stages.aside {ctx ctx' : Context E} (staging : ctx'.staging = ctx.staging)
    (pending : ctx'.pending = ctx.pending) : ctx.Stages [] ctx' :=
  ⟨by rw [staging, List.append_nil], pending⟩

/-- An action is staged unless its frame was released; no frame comes or goes. -/
theorem stages_enqueue {ctx : Context E} {id : FrameId} {action : Action E}
    (intact : (ctx.enqueue id action).overflowed = false) :
    ctx.Stages (ctx.entriesIn id [action]) (ctx.enqueue id action) ∧
      ∀ other, (ctx.enqueue id action).frame? other = ctx.frame? other := by
  rcases ctx.enqueue_cases id action with
    ⟨full, -⟩ | ⟨overflowed, eq⟩ | ⟨-, dead, eq⟩ | ⟨-, -, depth, frames, retained, eq⟩
  · rw [overflowed_enqueue_of_full full id action] at intact
    cases intact
  · rw [eq, overflowed] at intact
    cases intact
  · rw [eq]
    refine ⟨?_, fun other => rfl⟩
    rw [entriesIn, dead]
    exact .aside rfl rfl
  · rcases FrameTable.retain?_eq_some retained with ⟨live, frame, found, rfl⟩
    have found : ctx.frame? id = some frame := found
    rw [eq]
    refine ⟨⟨?_, rfl⟩, FrameTable.frame?_congr live⟩
    simp [entriesIn, found]

theorem entriesIn_cons (ctx : Context E) (id : FrameId) (action : Action E)
    (rest : List (Action E)) :
    ctx.entriesIn id (action :: rest) = ctx.entriesIn id [action] ++ ctx.entriesIn id rest := by
  unfold entriesIn
  cases ctx.frame? id <;> rfl

theorem stages_enqueueAll {ctx : Context E} {id : FrameId} {actions : List (Action E)}
    (intact :
      (actions.foldl (fun ctx action => ctx.enqueue id action) ctx).overflowed = false) :
    ctx.Stages (ctx.entriesIn id actions)
      (actions.foldl (fun ctx action => ctx.enqueue id action) ctx) := by
  induction actions generalizing ctx with
  | nil =>
    have none : ctx.entriesIn id [] = [] := by
      unfold entriesIn
      cases ctx.frame? id <;> rfl
    rw [none]
    exact .aside rfl rfl
  | cons action rest ih =>
    rw [List.foldl_cons] at intact ⊢
    have first : (ctx.enqueue id action).overflowed = false := by
      cases before : (ctx.enqueue id action).overflowed with
      | false => rfl
      | true =>
        rw [overflowed_enqueueAll before id rest] at intact
        cases intact
    rcases stages_enqueue first with ⟨staged, frames⟩
    have same : (ctx.enqueue id action).entriesIn id rest = ctx.entriesIn id rest := by
      rw [entriesIn, entriesIn, frames id]
    rw [entriesIn_cons, ← same]
    exact staged.trans (ih intact)

theorem stages_deed (deed : Deed E) {ctx : Context E} (plain : deed.rollsBack = false)
    (intact : (deed.apply ctx).2.overflowed = false) :
    ctx.Stages (deed.queued ctx) (deed.apply ctx).2 := by
  cases deed with
  | record | openScope | closeScope => exact .aside rfl rfl
  | effect effect =>
    cases effect with
    | enqueue id action => exact (stages_enqueue intact).1
    | schedule id actions =>
      simp only [Deed.apply, Effect.apply, schedule_eq_foldl] at intact ⊢
      exact stages_enqueueAll intact
    | queueCommand chain source callback =>
      -- The frame is pushed first, which leaves the queue alone.
      have pushed : ctx.Stages [] (ctx.pushTopFrame callback).2 := .aside rfl rfl
      exact pushed.trans (stages_enqueue intact).1
    | queueCall function source callback =>
      have pushed : ctx.Stages [] (ctx.pushTopFrame callback).2 := .aside rfl rfl
      exact pushed.trans (stages_enqueue intact).1
    | discard | discardFrom => cases plain
    | trace event =>
      rcases ctx.exists_trace_eq event with ⟨events, eq⟩
      exact .aside (congrArg Context.staging eq :) (congrArg Context.pending eq :)
    | present source error forked =>
      rcases ctx.exists_trace_eq (.error error.message) with ⟨events, eq⟩
      exact .aside (congrArg Context.staging eq :) (congrArg Context.pending eq :)
    | ask | pushFrame | charge | install | fire | load | store | mark => exact .aside rfl rfl

end Context

theorem Procedure.stages {α : Type} {procedure : Procedure E α} {ctx : Context E}
    (plain : ∀ deed moment, procedure.Calls Deed.apply ctx deed moment → deed.rollsBack = false)
    (intact : (procedure.apply ctx).overflowed = false) :
    ctx.Stages (procedure.queued ctx) (procedure.apply ctx) := by
  induction procedure generalizing ctx with
  | done value => exact .aside rfl rfl
  | call deed next ih =>
    let mid := (deed.apply ctx).2
    have leads : Leads [] mid [] (Procedure.apply (next (deed.apply ctx).1) mid) :=
      Leads.refl.procedure _
    have first := Context.stages_deed deed (plain deed ctx (.here deed next ctx))
      (leads.intact intact)
    exact first.trans
      (ih (deed.apply ctx).1 (fun other moment calls => plain other moment (.later calls)) intact)

namespace Plain

variable {host : Host E} {work : Work E} {ctx after : Context E} {queued : List (Entry E)}

/-- Plain work comes to its end. -/
theorem exists_perform (plain : Plain host work ctx queued after) :
    ∃ fuel, work.perform host fuel ctx = some after := by
  induction plain with
  | own => exact ⟨0, rfl⟩
  | done => exact ⟨0, rfl⟩
  | effect _ _ ih =>
    rcases ih with ⟨fuel, run⟩
    exact ⟨fuel, run⟩
  | @perform action frame next ctx mid after _ _ _ _ first rest =>
    rcases first with ⟨fuel, first⟩
    rcases rest with ⟨fuel', rest⟩
    rw [← Work.perform_action] at first
    rcases Option.map_eq_some_iff.mp rest with ⟨result, run, rfl⟩
    -- The action and the rest of the program each have their own fuel.
    let enough := max (fuel + 1) fuel'
    have performed : Context.perform host enough action frame ctx = some mid :=
      Context.perform_mono (Nat.le_max_left _ _) first
    have later : mid.runProgram host enough (next ()) = some result :=
      Script.run?_mono
        (Context.instruct_mono
          (fun _ _ _ _ => Context.perform_mono (Nat.le_max_right _ _))
          (fun _ _ => Context.drain_mono (Nat.le_max_right _ _)))
        (next ()) mid result run
    refine ⟨enough, ?_⟩
    simp only [Work.perform, Script.run?, Context.instruct, performed, Option.map_some]
    exact congrArg (Option.map _) later

theorem leads (plain : Plain host work ctx queued after) : Leads [] ctx [] after := by
  rcases plain.exists_perform with ⟨fuel, performed⟩
  exact Work.leads performed

/-- Plain work that causes no overflow only stages entries. -/
theorem stages (plain : Plain host work ctx queued after) (intact : after.overflowed = false) :
    ctx.Stages queued after := by
  induction plain with
  | own calls => exact Procedure.stages calls intact
  | done => exact .aside rfl rfl
  | @effect effect next ctx after later quiet rest ih =>
    have first : ctx.Stages (effect.queued ctx) (effect.apply ctx).2 :=
      Context.stages_deed (.effect effect) quiet (rest.leads.intact intact)
    exact first.trans (ih intact)
  | perform _ rest first later => exact (first (rest.leads.intact intact)).trans (later intact)

end Plain

/-- After a turn of plain work, what it queued stands in front of what was pending. -/
theorem Turn.stages {host : Host E} {ctx next after : Context E} {start : Start E}
    {queued : List (Entry E)} (turn : Turn host ctx start next) (staged : ctx.staging = #[])
    (plain :
      Plain host (start.entry.action.work host start.entry.frame) start.context queued after) :
    next.staging = #[] ∧ ctx.pending.entries = start.entry :: start.context.pending.entries ∧
      next.pending.entries = queued ++ start.context.pending.entries := by
  have front := turn.pending_eq
  rcases turn with ⟨-, popped, fuel, after', performed, intact, rfl⟩
  rcases plain.exists_perform with ⟨fuel', performed'⟩
  obtain rfl := Context.perform_unique performed ((Work.perform_action ..).trans performed')
  rcases Context.pop?_eq_some popped with ⟨pending, -, eq⟩
  have before : start.context.staging = #[] := (congrArg Context.staging eq).trans staged
  rcases plain.stages intact with ⟨staging, kept⟩
  refine ⟨rfl, front, ?_⟩
  change after'.staging.toList ++ after'.pending.entries = _
  rw [staging, kept, before]
  rfl

/-! ## Forests -/

/-- The entries that came to stand in the queue, each above the entries that it queued itself. -/
inductive Forest (E : Embedding) where
  | nil
  /-- The first entry was not started. -/
  | waiting (entry : Entry E) (rest : Forest E)
  /-- The first entry was started, and the entries that it queued stand below it. -/
  | started (start : Start E) (below rest : Forest E)

namespace Forest

def roots : Forest E → List (Entry E)
  | nil => []
  | waiting entry rest => entry :: rest.roots
  | started start _ rest => start.entry :: rest.roots

/-- All entries, each one before those below it, and these before the next one. -/
def preorder : Forest E → List (Entry E)
  | nil => []
  | waiting entry rest => entry :: rest.preorder
  | started start below rest => start.entry :: (below.preorder ++ rest.preorder)

/-- The starts of the entries that were started, in preorder. -/
def starts : Forest E → List (Start E)
  | nil => []
  | waiting _ rest => rest.starts
  | started start below rest => start :: (below.starts ++ rest.starts)

/-- The entries that were not started, in preorder. -/
def unstarted : Forest E → List (Entry E)
  | nil => []
  | waiting entry rest => entry :: rest.unstarted
  | started _ below rest => below.unstarted ++ rest.unstarted

/-- Below each entry that was started stands exactly what it queued. -/
def Grown (host : Host E) : Forest E → Prop
  | nil => True
  | waiting _ rest => rest.Grown host
  | started start below rest =>
    (∃ after, Plain host (start.entry.action.work host start.entry.frame) start.context below.roots
      after) ∧ below.Grown host ∧ rest.Grown host

/-- Entries of which none was started. -/
def ofEntries : List (Entry E) → Forest E
  | [] => nil
  | entry :: rest => waiting entry (ofEntries rest)

/-- A forest is taken apart between two of its roots. -/
theorem exists_split {host : Host E} {forest : Forest E} {first later : List (Entry E)}
    (grown : forest.Grown host) (roots : forest.roots = first ++ later) :
    ∃ left right : Forest E, left.roots = first ∧ right.roots = later ∧ left.Grown host ∧
      right.Grown host ∧ forest.starts = left.starts ++ right.starts ∧
      forest.unstarted = left.unstarted ++ right.unstarted ∧
      forest.preorder = left.preorder ++ right.preorder := by
  induction forest generalizing first with
  | nil =>
    rcases List.append_eq_nil_iff.mp roots.symm with ⟨rfl, rfl⟩
    exact ⟨nil, nil, rfl, rfl, trivial, trivial, rfl, rfl, rfl⟩
  | waiting entry rest ih =>
    cases first with
    | nil => exact ⟨nil, waiting entry rest, rfl, roots, trivial, grown, rfl, rfl, rfl⟩
    | cons root first =>
      rcases List.cons.inj roots with ⟨rfl, behind⟩
      rcases ih grown behind with
        ⟨left, right, leftRoots, rightRoots, leftGrown, rightGrown, starts, unstarted, preorder⟩
      exact ⟨waiting entry left, right, congrArg (entry :: ·) leftRoots, rightRoots, leftGrown,
        rightGrown, starts, congrArg (entry :: ·) unstarted, congrArg (entry :: ·) preorder⟩
  | started start below rest _ ih =>
    cases first with
    | nil => exact ⟨nil, started start below rest, rfl, roots, trivial, grown, rfl, rfl, rfl⟩
    | cons root first =>
      rcases List.cons.inj roots with ⟨rfl, behind⟩
      rcases grown with ⟨queued, belowGrown, grown⟩
      rcases ih grown behind with
        ⟨left, right, leftRoots, rightRoots, leftGrown, rightGrown, starts, unstarted, preorder⟩
      refine ⟨started start below left, right, congrArg (start.entry :: ·) leftRoots, rightRoots,
        ⟨queued, belowGrown, leftGrown⟩, rightGrown, ?_, ?_, ?_⟩
      · simp [Forest.starts, starts]
      · simp [Forest.unstarted, unstarted]
      · simp [Forest.preorder, preorder]

/-- Nothing is started in a forest that still waits. -/
theorem ofEntries_waits (host : Host E) (entries : List (Entry E)) :
    (ofEntries entries).roots = entries ∧ (ofEntries entries).Grown host ∧
      (ofEntries entries).starts = [] ∧ (ofEntries entries).unstarted = entries ∧
      (ofEntries entries).preorder = entries := by
  induction entries with
  | nil => exact ⟨rfl, trivial, rfl, rfl, rfl⟩
  | cons entry rest ih =>
    rcases ih with ⟨roots, grown, starts, unstarted, preorder⟩
    exact ⟨congrArg (entry :: ·) roots, grown, starts, congrArg (entry :: ·) unstarted,
      congrArg (entry :: ·) preorder⟩

end Forest

/-! ## The run loop -/

/-- The turns so far have started the entries of the forest in preorder.  Either the run is still
within the forest, and what is not started of it stands in front of the other pending entries, or it
has left the forest behind and gone on to them. -/
structure Traversed (host : Host E) (forest : Forest E) (others : List (Entry E)) (ctx : Context E)
    (starts : List (Start E)) (mid : Context E) : Prop where
  grown : forest.Grown host
  inPreorder : forest.starts.map Start.entry ++ forest.unstarted = forest.preorder
  course :
    (starts = forest.starts ∧ mid.pending.entries = forest.unstarted ++ others) ∨
    (forest.unstarted = [] ∧ ∃ between later, starts = forest.starts ++ later ∧
      Turns host ctx forest.starts between ∧ between.pending.entries = others ∧
      Turns host between later mid)

/-- A turn on the first root, and then a traversal of what that queued and of the other roots, is a
traversal of both. -/
theorem Traversed.grow {host : Host E} {ctx next mid after : Context E} {start : Start E}
    {starts : List (Start E)} {queued rest others : List (Entry E)} {forest : Forest E}
    (turn : Turn host ctx start next)
    (plain : Plain host (start.entry.action.work host start.entry.frame) start.context queued after)
    (h : Traversed host forest others next starts mid) (roots : forest.roots = queued ++ rest) :
    ∃ grown : Forest E, grown.roots = start.entry :: rest ∧
      Traversed host grown others ctx (start :: starts) mid := by
  rcases Forest.exists_split h.grown roots with
    ⟨below, right, rfl, rfl, belowGrown, rightGrown, starts', unstarted, preorder⟩
  refine ⟨.started start below right, rfl, ⟨⟨after, plain⟩, belowGrown, rightGrown⟩, ?_, ?_⟩
  · have inPreorder := h.inPreorder
    rw [starts', unstarted, preorder] at inPreorder
    exact congrArg (start.entry :: ·) inPreorder
  · have course := h.course
    rw [starts', unstarted] at course
    rcases course with ⟨rfl, pending⟩ | ⟨none, between, later, rfl, first, pending, rest⟩
    · exact .inl ⟨rfl, pending⟩
    · exact .inr ⟨none, between, later, rfl, .head turn first, pending, rest⟩

theorem Turns.traversed {host : Host E} {ctx mid : Context E} {starts : List (Start E)}
    (turns : Turns host ctx starts mid)
    (plain : ∀ start ∈ starts, ∃ queued after,
      Plain host (start.entry.action.work host start.entry.frame) start.context queued after)
    (staged : ctx.staging = #[]) {first others : List (Entry E)}
    (pending : ctx.pending.entries = first ++ others) :
    ∃ forest : Forest E, forest.roots = first ∧ Traversed host forest others ctx starts mid := by
  induction turns generalizing first with
  | refl ctx =>
    rcases Forest.ofEntries_waits host first with ⟨roots, grown, starts, unstarted, preorder⟩
    refine ⟨.ofEntries first, roots, grown, ?_, .inl ⟨starts.symm, ?_⟩⟩
    · rw [starts, unstarted, preorder]
      rfl
    · rw [unstarted, pending]
  | @head ctx next mid start starts turn turns ih =>
    cases first with
    | nil =>
      -- The forest is empty, so the whole run is behind it.
      exact ⟨.nil, rfl, trivial, rfl,
        .inr ⟨rfl, ctx, start :: starts, rfl, .refl ctx, pending, .head turn turns⟩⟩
    | cons root rest =>
      rcases plain start List.mem_cons_self with ⟨queued, after, own⟩
      rcases turn.stages staged own with ⟨staged', front, behind⟩
      rw [pending] at front
      rcases List.cons.inj front with ⟨rfl, tail⟩
      have others' : next.pending.entries = (queued ++ rest) ++ others := by
        rw [behind, List.append_assoc]
        exact congrArg (queued ++ ·) tail.symm
      rcases ih (fun other mem => plain other (List.mem_cons_of_mem _ mem)) staged' others' with
        ⟨forest, roots, traversed⟩
      exact traversed.grow turn own roots

/-- As long as the work that a run starts neither rolls back nor enters the run loop, the run starts
the first pending entries, and all that comes from them, in preorder: each entry, then in order what
it queued, with all that comes from that, and only then the next one.  The other pending entries
stay as they are until all of this has run; if the run ends earlier, then for want of quota. -/
theorem starts_in_preorder {host : Host E} {ctx mid : Context E} {first others : List (Entry E)}
    {starts : List (Start E)} (staged : ctx.staging = #[])
    (pending : ctx.pending.entries = first ++ others) (turns : Turns host ctx.promote starts mid)
    (plain : ∀ start ∈ starts, ∃ queued after,
      Plain host (start.entry.action.work host start.entry.frame) start.context queued after) :
    ∃ forest : Forest E, forest.roots = first ∧ forest.Grown host ∧
      forest.starts.map Start.entry ++ forest.unstarted = forest.preorder ∧
      ((starts = forest.starts ∧ mid.pending.entries = forest.unstarted ++ others) ∨
        (forest.unstarted = [] ∧ ∃ between later, starts = forest.starts ++ later ∧
          Turns host ctx.promote forest.starts between ∧ between.pending.entries = others ∧
          Turns host between later mid ∧
          ∀ start rest, later = start :: rest →
            others = start.entry :: start.context.pending.entries)) ∧
      ∀ outcome final, Course host mid [] outcome final →
        outcome = .quotaExhausted ∨ outcome = .completed ∧ forest.unstarted = [] := by
  have front : ctx.promote.pending.entries = first ++ others := by
    simp [Context.promote, Backlog.prepend, staged, pending]
  rcases turns.traversed plain rfl front with ⟨forest, roots, grown, inPreorder, course⟩
  refine ⟨forest, roots, grown, inPreorder, ?_, ?_⟩
  · rcases course with within | ⟨none, between, later, starts, before, pending, after⟩
    · exact .inl within
    · refine .inr ⟨none, between, later, starts, before, pending, after, ?_⟩
      rintro start tail rfl
      cases after with
      | head turn _ =>
        exact pending.symm.trans turn.pending_eq
  · intro outcome final stop
    cases stop with
    | exhausted => exact .inl rfl
    | completed _ empty =>
      refine .inr ⟨rfl, ?_⟩
      have nothing := (Context.pop?_eq_none_iff _).mp empty
      rcases course with ⟨-, left⟩ | ⟨none, -⟩
      · rw [nothing] at left
        exact (List.append_eq_nil_iff.mp left.symm).1
      · exact none

/-! ## Calls and fan-outs -/

namespace Procedure

/-- A procedure that does not roll back, whatever the replies to its deeds. -/
abbrev Calm {α : Type} (procedure : Procedure E α) : Prop :=
  Script.Only (fun deed => deed.rollsBack = false) procedure

theorem calm_effect {effect : Effect E} (h : effect.rollsBack = false) :
    (Procedure.effect effect).Calm :=
  .call h fun _ => .done ()

theorem calm_frame? (id : FrameId) : (frame? id : Procedure E (Option Frame)).Calm :=
  .perform rfl

theorem calm_frameDepth (id : FrameId) : (frameDepth id : Procedure E Nat).Calm := by
  refine .bind (calm_frame? id) ?_
  intro frame
  cases frame with
  | none => exact .perform rfl
  | some frame => exact .done _

theorem calm_scopeOf (id : FrameId) : (scopeOf id : Procedure E Scope).Calm := by
  refine .bind (calm_frame? id) ?_
  intro frame
  cases frame with
  | none => exact .bind (.perform rfl) fun _ => .done _
  | some frame => exact .done _

theorem calm_expand (first : Action E) (rest : List (Action E)) (frame : FrameId) :
    (expand first rest frame).Calm := by
  refine .bind (calm_effect rfl) ?_
  intro _
  cases rest with
  | nil => exact .done _
  | cons next rest => exact calm_effect rfl

/-- Calling a function only queues its lines. -/
theorem calm_callFunction (function : Function E) (callback : Callback) (returnParent : Bool)
    (source : Source) (frame : FrameId) :
    (callFunction function callback returnParent source frame : Procedure E Unit).Calm := by
  refine .bind (calm_effect rfl) ?_
  intro _
  refine .bind (calm_frameDepth frame) ?_
  intro depth
  refine .bind (calm_effect rfl) ?_
  intro _
  refine .bind (.perform rfl) ?_
  intro _
  split
  · exact .done _
  · refine .bind (calm_scopeOf frame) ?_
    intro outer
    exact .bind (.perform rfl) fun _ => calm_effect rfl

theorem Calm.plain {procedure : Procedure E Unit} (calm : procedure.Calm) (host : Host E)
    (ctx : Context E) : Plain host (.own procedure) ctx (procedure.queued ctx) (procedure.apply ctx) :=
  .own fun _ _ calls => calls.property calm

end Procedure

/-- A fan-out of one call, and a second call, are pending in front of a third one. -/
theorem starts_in_preorder_of_fanOut :
    ∃ (ctx mid : Context .bare) (starts : List (Start .bare)) (forest : Forest .bare),
      Turns .bare ctx.promote starts mid ∧ forest.roots.length = 2 ∧ forest.Grown .bare ∧
      forest.starts.map Start.entry ++ forest.unstarted = forest.preorder ∧ starts.length = 3 ∧
      ∀ outcome final, Course .bare mid [] outcome final →
        outcome = .quotaExhausted ∨ outcome = .completed ∧ forest.unstarted = [] := by
  let call (id : String) : Action Embedding.bare :=
    .call (.ofChains id []) .empty false (.named "alex")
  let entry (action : Action Embedding.bare) : Entry Embedding.bare := ⟨0, ⟨0⟩, action⟩
  let moment (references : Nat) (pending : List (Action Embedding.bare)) (calls : List String) :
      Context .bare :=
    { limits := {}
      quota := ⟨9 - calls.length⟩
      pending := { entries := pending.map entry }
      frames :=
        { next := 1, slots := [(⟨0⟩, { frame := { depth := 0, scope := .clearAll }, references })] }
      memory := ()
      log := ⟨calls.map fun id => .notice (.called id 0 0)⟩ }
  let start (action : Action Embedding.bare) (ctx : Context .bare) : Start .bare :=
    ⟨entry action, ctx⟩
  let starts : List (Start .bare) :=
    [start (.fanOut (call "a") []) (moment 3 [call "b", call "c"] []),
      start (call "a") (moment 3 [call "b", call "c"] []),
      start (call "b") (moment 2 [call "c"] ["a"])]
  let ctx : Context .bare := moment 3 [.fanOut (call "a") [], call "b", call "c"] []
  have turns : Turns .bare ctx.promote starts (moment 1 [call "c"] ["a", "b"]) :=
    .head ⟨by decide +kernel, rfl, 1, _, rfl, by decide +kernel, rfl⟩ <|
    .head ⟨by decide +kernel, rfl, 1, _, rfl, by decide +kernel, rfl⟩ <|
    .head ⟨by decide +kernel, rfl, 1, _, rfl, by decide +kernel, rfl⟩ <|
    .refl _
  have plain : ∀ start ∈ starts, ∃ queued after,
      Plain .bare (start.entry.action.work .bare start.entry.frame) start.context queued after := by
    intro start mem
    simp only [starts, List.mem_cons, List.not_mem_nil, or_false] at mem
    rcases mem with rfl | rfl | rfl
    · exact ⟨_, _, (Procedure.calm_expand _ _ _).plain .bare _⟩
    · exact ⟨_, _, (Procedure.calm_callFunction _ _ _ _ _).plain .bare _⟩
    · exact ⟨_, _, (Procedure.calm_callFunction _ _ _ _ _).plain .bare _⟩
  have pending : ctx.pending.entries =
      [entry (.fanOut (call "a") []), entry (call "b")] ++ [entry (call "c")] := rfl
  obtain ⟨forest, roots, grown, inPreorder, -, ends⟩ := starts_in_preorder rfl pending turns plain
  exact ⟨ctx, _, starts, forest, turns, congrArg List.length roots, grown, inPreorder, rfl, ends⟩

end CommandScheduler
