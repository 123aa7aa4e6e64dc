import CommandScheduler.Proofs.Overflow
import CommandScheduler.Proofs.Sketch

/-!
# Room — steps for which there is room in the queue

What a native action queues is known from its sketch.  If this and what waits behind the action fit
into the queue together, with the one entry more that the bound tolerates, then the step does not
overflow.  Parts of runs are put together from such steps, with the entries that they start.
-/

namespace CommandScheduler

variable {E : Embedding}

/-! ## How much is queued -/

namespace Context

variable {ctx moment : Context E}

theorem queued_enqueue_le (ctx : Context E) (id : FrameId) (action : Action E) :
    (ctx.enqueue id action).queued ≤ ctx.queued + 1 := by
  rcases ctx.enqueue_cases id action with
    ⟨-, eq⟩ | ⟨-, eq⟩ | ⟨-, -, eq⟩ | ⟨-, -, depth, frames, -, eq⟩
  · rw [eq]
    exact Nat.zero_le _
  · rw [eq]
    exact Nat.le_succ _
  · rw [eq]
    exact Nat.le_succ _
  · rw [eq]
    simp [queued, Nat.add_assoc]

/-- An action that is queued after others finds at most these more. -/
theorem queued_of_mem_queueings {id : FrameId} {actions : List (Action E)}
    (mem : moment ∈ ctx.queueings id actions) :
    moment.queued + 1 ≤ ctx.queued + actions.length := by
  induction actions generalizing ctx with
  | nil => cases mem
  | cons action rest ih =>
    rw [List.length_cons]
    rcases List.mem_cons.mp mem with rfl | mem
    · omega
    · have later := ih mem
      have first := ctx.queued_enqueue_le id action
      omega

end Context

/-! ## Sketches -/

namespace Site

variable {site : Site E} {s s' : Sketch E}

/-- Whatever a deed stages stays staged. -/
theorem staged_le_draw {deed : Deed E} {reply : deed.Reply}
    (drawn : site.draw deed s = some (reply, s')) : s.staged.length ≤ s'.staged.length := by
  cases deed with
  | record | openScope | closeScope =>
    cases drawn
    exact Nat.le_refl _
  | effect effect =>
    cases effect with
    | charge | trace | fire | present =>
      cases drawn
      exact Nat.le_refl _
    | ask query =>
      cases query with
      | limits | depth =>
        cases drawn
        exact Nat.le_refl _
      | frame id =>
        simp only [draw] at drawn
        split at drawn
        · cases drawn
          exact Nat.le_refl _
        · cases drawn
      | quota | overflowed | backlog | frameCount | sink | inspection => cases drawn
    | discard | pushFrame =>
      simp only [draw] at drawn
      split at drawn
      · cases drawn
        exact Nat.le_refl _
      · cases drawn
    | enqueue | schedule =>
      simp only [draw] at drawn
      split at drawn
      · cases drawn
        simp
      · cases drawn
    | queueCommand | queueCall | discardFrom | install | load | store | mark => cases drawn

theorem staged_le_run? {α : Type} {procedure : Procedure E α} {value : α}
    (drawn : procedure.run? site.draw s = some (value, s')) :
    s.staged.length ≤ s'.staged.length := by
  have step (deed : Deed E) (state : Sketch E) (result : deed.Reply × Sketch E)
      (before : s.staged.length ≤ state.staged.length)
      (drawn : site.draw deed state = some result) : s.staged.length ≤ result.2.staged.length :=
    Nat.le_trans before (staged_le_draw drawn)
  exact Script.run?_preserves step procedure s (value, s') (Nat.le_refl _) drawn

/-- An action that a deed queues finds at most those more that the deed has queued before. -/
theorem queued_of_mem_queueings {ctx moment : Context E} {deed : Deed E} {reply : deed.Reply}
    (drawn : site.draw deed s = some (reply, s')) (mem : moment ∈ deed.queueings ctx) :
    moment.queued + 1 + s.staged.length ≤ ctx.queued + s'.staged.length := by
  have several {id : FrameId} {actions : List (Action E)}
      (staged : s'.staged = s.staged ++ actions) (mem : moment ∈ ctx.queueings id actions) :
      moment.queued + 1 + s.staged.length ≤ ctx.queued + s'.staged.length := by
    have found := Context.queued_of_mem_queueings mem
    rw [staged, List.length_append]
    omega
  cases deed with
  | record | openScope | closeScope => cases mem
  | effect effect =>
    cases effect with
    | enqueue id action =>
      simp only [draw] at drawn
      split at drawn
      · cases drawn
        exact several rfl mem
      · cases drawn
    | schedule id actions =>
      simp only [draw] at drawn
      split at drawn
      · cases drawn
        exact several rfl mem
      · cases drawn
    | queueCommand | queueCall => cases drawn
    | ask | pushFrame | discard | discardFrom | charge | install | trace | fire | present | load
    | store | mark => cases mem

end Site

/-- What is staged and what waits behind it are no more than the queue may hold. -/
def Sketch.Fits (site : Site E) (sketch : Sketch E) : Prop :=
  sketch.staged.length + site.rest.length ≤ site.limits.maxQueueDepth + 1

/-- The sketch shows the context, or the queue has overflowed for lack of room. -/
def Sketch.Mirrors (room : Prop) (site : Site E) (running : List FrameId) (sketch : Sketch E)
    (ctx : Context E) : Prop :=
  (¬room ∧ ctx.overflowed = true) ∨ sketch.Depicts site running ctx

namespace Sketch.Depicts

variable {site : Site E} {running : List FrameId} {sketch sketch' : Sketch E} {ctx : Context E}

theorem queued_le (h : sketch.Depicts site running ctx) :
    ctx.queued ≤ sketch.staged.length + site.rest.length := by
  have pruned := (sketch.flow.prune_suffix site.frame.scope site.rest).length_le
  have waiting : ctx.waiting =
      site.entries sketch ++ sketch.flow.prune site.frame.scope site.rest := by
    rw [Context.waiting, h.staged, h.pending]
  rw [ctx.queued_eq_length, waiting, List.length_append, Site.entries, List.length_map]
  omega

/-- A deed after which everything fits has not made the queue overflow. -/
theorem deed_of_fits (h : sketch.Depicts site running ctx) {deed : Deed E} {reply : deed.Reply}
    (drawn : site.draw deed sketch = some (reply, sketch')) (fits : sketch'.Fits site) :
    (deed.apply ctx).1 = reply ∧ sketch'.Depicts site running (deed.apply ctx).2 := by
  refine (h.deed deed drawn).resolve_left ?_
  intro overflowed
  -- An overflow takes an action that finds the queue beyond its bound.
  rcases (Context.overflowed_deed_iff h.intact deed).mp overflowed with ⟨moment, mem, full⟩
  have found := Site.queued_of_mem_queueings drawn mem
  have queued := h.queued_le
  rw [h.limits] at full
  unfold Sketch.Fits at fits
  omega

theorem run_of_fits {α : Type} {procedure : Procedure E α} {value : α}
    (h : sketch.Depicts site running ctx)
    (drawn : procedure.run? site.draw sketch = some (value, sketch')) (fits : sketch'.Fits site) :
    sketch'.Depicts site running (procedure.apply ctx) := by
  induction procedure generalizing sketch ctx with
  | done value =>
    cases drawn
    exact h
  | call op next ih =>
    cases first : site.draw op sketch with
    | none => simp [Script.run?, first] at drawn
    | some drawing =>
      have later : (next drawing.1).run? site.draw drawing.2 = some (value, sketch') := by
        simpa [Script.run?, first] using drawn
      -- Nothing that is staged is taken back, so it has fitted at each deed before.
      have fitted : drawing.2.Fits site :=
        Nat.le_trans (Nat.add_le_add_right (Site.staged_le_run? later) _) fits
      rcases h.deed_of_fits first fitted with ⟨reply, depicts⟩
      exact ih _ depicts (reply ▸ later)

/-- An action that queues nothing fits at any time. -/
theorem fits_of_unstaged {tape : Tape E.Mark} (h : ({ tape } : Sketch E).Depicts site running ctx)
    (none : sketch'.staged = []) : sketch'.Fits site := by
  have waiting : ctx.waiting = site.rest := by
    rw [Context.waiting, h.staged, h.pending]
    rfl
  have bounded := h.accounted.bounded
  rw [waiting, h.limits] at bounded
  simpa [Sketch.Fits, none] using bounded

theorem mirrors {room : Prop} {procedure : Procedure E Unit} (h : sketch.Depicts site running ctx)
    (drawn : procedure.run? site.draw sketch = some ((), sketch'))
    (fits : room → sketch'.Fits site) :
    sketch'.Mirrors room site running (procedure.apply ctx) := by
  by_cases free : room
  · exact .inr (h.run_of_fits drawn (fits free))
  · exact (h.run drawn).imp (⟨free, ·⟩) And.right

end Sketch.Depicts

/-! ## Parts of runs -/

/-- The run either overflows for lack of room, or gets to a context of the given kind; the kind may
depend on the entries that have been started on the way. -/
def Context.Goes (host : Host E) (room : Prop) (ctx : Context E)
    (P : List (Start E) → Context E → Prop) : Prop :=
  (¬room ∧ ∃ starts final, Course host ctx starts .overflowed final) ∨
    ∃ starts ctx', Turns host ctx starts ctx' ∧ P starts ctx'

namespace Context.Goes

variable {host : Host E} {room : Prop} {ctx : Context E}
  {P Q : List (Start E) → Context E → Prop}

theorem refl (h : P [] ctx) : ctx.Goes host room P :=
  .inr ⟨[], ctx, .refl ctx, h⟩

theorem bind (h : ctx.Goes host room P)
    (next : ∀ starts ctx', Turns host ctx starts ctx' → P starts ctx' →
      ctx'.Goes host room fun starts' => Q (starts ++ starts')) :
    ctx.Goes host room Q := by
  rcases h with overflows | ⟨starts, mid, turns, h⟩
  · exact .inl overflows
  · rcases next starts mid turns h with ⟨narrow, starts', final, course⟩ | ⟨starts', ctx', later, h⟩
    · exact .inl ⟨narrow, _, final, turns.course course⟩
    · exact .inr ⟨_, ctx', turns.trans later, h⟩

/-- With more room fewer runs overflow. -/
theorem of_room {room' : Prop} (h : ctx.Goes host room P) (le : room' → room) :
    ctx.Goes host room' P :=
  h.imp_left fun ⟨narrow, overflows⟩ => ⟨fun free => narrow (le free), overflows⟩

theorem imp (h : ctx.Goes host room P) (le : ∀ starts ctx', P starts ctx' → Q starts ctx') :
    ctx.Goes host room Q :=
  h.imp_right fun ⟨starts, ctx', turns, h⟩ => ⟨starts, ctx', turns, le starts ctx' h⟩

end Context.Goes

/-- An action of the scheduler is performed in one turn, after which its entries stand in front. -/
theorem Poised.goes {host : Host E} {room : Prop} {running : List FrameId} {limits : Limits}
    {sink? : Option Sink} {tape : Tape E.Mark} {entry : Entry E} {rest : List (Entry E)}
    {ctx : Context E} {frame : Frame} {sketch : Sketch E} {procedure : Procedure E Unit}
    (h : Poised running limits sink? tape (entry :: rest) ctx)
    (live : ctx.frame? entry.frame = some frame) (funded : tape.quota.isExhausted = false)
    (own : entry.action.work host entry.frame = .own procedure)
    (performed : ∀ started,
      ({ tape } : Sketch E).Depicts (ctx.site frame entry rest) running started →
        sketch.Mirrors room (ctx.site frame entry rest) running (procedure.apply started)) :
    ctx.Goes host room fun starts next =>
      starts.map (·.entry) = [entry] ∧
      Poised running limits sink? sketch.tape
        ((ctx.site frame entry rest).entries sketch ++ sketch.flow.prune frame.scope rest) next ∧
      (sketch.staged ≠ [] → next.frame? ((ctx.site frame entry rest).target sketch).1 =
        some ((ctx.site frame entry rest).target sketch).2) := by
  rcases Context.exists_pop? h.pending with ⟨pending, -, popped⟩
  let started : Context E := { ctx with pending, depth := entry.depth }
  have unexhausted : ctx.quota.isExhausted = false := by rw [h.quota, funded]
  have done := Context.perform_own host own started
  rcases performed started (h.start live popped) with ⟨narrow, overflowed⟩ | depicts
  · exact .inl ⟨narrow, [⟨entry, started⟩], _, .overflowed unexhausted popped done overflowed⟩
  · have turn : Turn host ctx ⟨entry, started⟩ _ :=
      ⟨unexhausted, popped, 1, _, done, depicts.intact, rfl⟩
    rcases depicts.settle with ⟨poised, target⟩
    refine .inr ⟨_, _, .single turn, rfl, ?_, target⟩
    rw [← h.limits, ← h.sink]
    exact poised

end CommandScheduler
