import Mathlib.Data.List.TakeWhile
import CommandScheduler.Proofs.Accounting
import CommandScheduler.Proofs.Sketch

/-!
# Rollback — what a second rollback of the same frame finds

A rollback leaves nothing in the scope that it was made in, so that a second one in the same scope
changes nothing.  The scope is looked up anew, however, and the first rollback may have discarded the
entries that held the last references to the frame.  The second one then takes the current depth for
the scope of the released frame, and it reaches further if the first one has only discarded entries
that are deeper than that.
-/

namespace CommandScheduler

variable {E : Embedding} {running : List FrameId} {ctx : Context E} {id : FrameId}

namespace Context

/-! ## Rollbacks that discard nothing -/

/-- The same entries wait, and the same frames are held by them. -/
structure Undisturbed (ctx ctx' : Context E) : Prop where
  pending : ctx'.pending.entries = ctx.pending.entries
  staging : ctx'.staging = ctx.staging
  frames : ctx'.frames = ctx.frames

theorem undisturbed_rollBack_iff (ctx : Context E) (scope : Scope) :
    ctx.Undisturbed (ctx.rollBack scope) ↔
      scope.survivors ctx.pending.entries = ctx.pending.entries := by
  refine ⟨fun same => (ctx.rollBack_entries scope).symm.trans same.pending, ?_⟩
  intro all
  refine ⟨(ctx.rollBack_entries scope).trans all, ?_, ?_⟩
  · cases scope <;> rfl
  · cases scope with
    | clearAll =>
      have none : ctx.pending.entries = [] := all.symm
      simp [rollBack, clearPending, none, FrameTable.releaseAll]
    | discardFrom depth =>
      -- What is not discarded is all there is, so no reference is given back.
      have split : ctx.pending.front depth ++ (ctx.pending.dropFront depth).entries =
          ctx.pending.entries := List.takeWhile_append_dropWhile
      have same : (ctx.pending.dropFront depth).entries = ctx.pending.entries := all
      have none : ctx.pending.front depth = [] := by
        rw [same] at split
        exact List.append_left_eq_self.mp split
      simp [rollBack, discardFrom, notify, record, none, FrameTable.releaseAll]

/-- Nothing is discarded from a depth on if the first entry is shallower. -/
theorem undisturbed_discardFrom_iff (ctx : Context E) (depth : Nat) :
    ctx.Undisturbed (ctx.discardFrom depth) ↔
      ∀ entry, ctx.pending.entries.head? = some entry → entry.depth < depth := by
  refine (ctx.undisturbed_rollBack_iff (.discardFrom depth)).trans ?_
  refine List.dropWhile_eq_self_iff.trans ?_
  cases ctx.pending.entries <;> simp

theorem undisturbed_rollBack_rollBack (ctx : Context E) (scope : Scope) :
    (ctx.rollBack scope).Undisturbed ((ctx.rollBack scope).rollBack scope) := by
  rw [undisturbed_rollBack_iff, rollBack_entries]
  exact scope.survivors_survivors _

/-! ## Frames that a rollback releases -/

theorem discard_of_live {frame : Frame} (live : ctx.frame? id = some frame) :
    ctx.discard id = ctx.rollBack frame.scope := by
  rw [discard, scopeOf, live]

theorem discard_of_released (dead : ctx.frame? id = none) :
    ctx.discard id = ctx.discardFrom ctx.depth := by
  rw [discard, scopeOf, dead]
  rfl

theorem depth_rollBack (ctx : Context E) (scope : Scope) :
    (ctx.rollBack scope).depth = ctx.depth := by
  cases scope <;> rfl

/-- The entries that a rollback discards. -/
def discards (ctx : Context E) : Scope → List (Entry E)
  | .clearAll => ctx.pending.entries
  | .discardFrom depth => ctx.pending.front depth

namespace Accounted

theorem rollBack (h : ctx.Accounted running) (scope : Scope) :
    ctx.Evolves running (ctx.rollBack scope) := by
  cases scope with
  | clearAll => exact h.clearPending
  | discardFrom depth => exact h.discardFrom depth

/-- A rollback releases the frames of discarded entries to which nobody else refers. -/
theorem live_rollBack (h : ctx.Accounted running) (scope : Scope) :
    (ctx.rollBack scope).frames.live = ctx.frames.live.filter fun entry =>
      entry.1 ∉ (ctx.discards scope).map Entry.frame ∨
        entry.1 ∈ running ++ (ctx.rollBack scope).waiting.map Entry.frame := by
  cases scope with
  | clearAll =>
    have rest : (ctx.rollBack .clearAll).waiting = ctx.staging.toList := List.append_nil _
    rw [rest]
    exact (h.balanced.perm ctx.waiting_perm_pending).releaseAll.2.2
  | discardFrom depth => exact (h.balanced.perm (ctx.waiting_perm_front depth)).releaseAll.2.2

theorem frame?_rollBack_iff (h : ctx.Accounted running) (scope : Scope) (frame : Frame) :
    (ctx.rollBack scope).frame? id = some frame ↔ ctx.frame? id = some frame ∧
      (id ∉ (ctx.discards scope).map Entry.frame ∨
        id ∈ running ++ (ctx.rollBack scope).waiting.map Entry.frame) := by
  have live := h.live_rollBack scope
  constructor
  · intro found
    have mem := FrameTable.mem_live_of_frame? found
    rw [live, List.mem_filter] at mem
    exact ⟨FrameTable.frame?_of_mem_live h.balanced.held.distinct mem.1, of_decide_eq_true mem.2⟩
  · rintro ⟨found, held⟩
    refine FrameTable.frame?_of_mem_live (h.rollBack scope).accounted.balanced.held.distinct ?_
    rw [live, List.mem_filter]
    exact ⟨FrameTable.mem_live_of_frame? found, decide_eq_true held⟩

/-- A live frame is released if the discarded entries hold all references to it. -/
theorem frame?_rollBack_eq_none_iff (h : ctx.Accounted running) (scope : Scope) {frame : Frame}
    (live : ctx.frame? id = some frame) :
    (ctx.rollBack scope).frame? id = none ↔ id ∈ (ctx.discards scope).map Entry.frame ∧
      id ∉ running ++ (ctx.rollBack scope).waiting.map Entry.frame := by
  constructor
  · intro released
    have gone : ¬ (id ∉ (ctx.discards scope).map Entry.frame ∨
        id ∈ running ++ (ctx.rollBack scope).waiting.map Entry.frame) := by
      intro held
      have found := (h.frame?_rollBack_iff scope frame).mpr ⟨live, held⟩
      exact Option.some_ne_none frame (found.symm.trans released)
    rcases not_or.mp gone with ⟨discarded, unheld⟩
    exact ⟨Classical.not_not.mp discarded, unheld⟩
  · rintro ⟨discarded, unheld⟩
    cases found : (ctx.rollBack scope).frame? id with
    | none => rfl
    | some other =>
      rcases ((h.frame?_rollBack_iff scope other).mp found).2 with kept | held
      · exact absurd discarded kept
      · exact absurd held unheld

/-- The scope of a frame stays the same in a rollback that does not release it. -/
theorem scopeOf_rollBack (h : ctx.Accounted running) (scope : Scope)
    (kept : (ctx.rollBack scope).frame? id = none → ctx.frame? id = none) :
    (ctx.rollBack scope).scopeOf id = ctx.scopeOf id := by
  unfold scopeOf
  cases found : (ctx.rollBack scope).frame? id with
  | some frame => rw [((h.frame?_rollBack_iff scope frame).mp found).1]
  | none => rw [kept found, ctx.depth_rollBack scope]

end Accounted

/-! ## The second rollback -/

/-- A second rollback of the frame reaches further than the first one: the frame discards from some
depth on, the entries that are discarded first hold all references to it, and the entry that is at
the front then is at the current depth or deeper. -/
structure Overreaches (ctx : Context E) (running : List FrameId) (id : FrameId) (frame : Frame)
    (depth : Nat) (entry : Entry E) : Prop where
  live : ctx.frame? id = some frame
  scope : frame.scope = .discardFrom depth
  discarded : id ∈ (ctx.pending.front depth).map Entry.frame
  unheld : id ∉ running ++ (ctx.discardFrom depth).waiting.map Entry.frame
  front : (ctx.discardFrom depth).pending.entries.head? = some entry
  deep : ctx.depth ≤ entry.depth

namespace Overreaches

variable {frame : Frame} {depth : Nat} {entry : Entry E}

theorem discard_eq (reach : ctx.Overreaches running id frame depth entry) :
    ctx.discard id = ctx.discardFrom depth := by
  rw [discard_of_live reach.live, reach.scope]
  rfl

/-- The frame is released, so the second rollback starts from the current depth. -/
theorem discard_discard (reach : ctx.Overreaches running id frame depth entry)
    (h : ctx.Accounted running) :
    (ctx.discard id).discard id = (ctx.discard id).discardFrom ctx.depth := by
  have released : (ctx.discardFrom depth).frame? id = none :=
    (h.frame?_rollBack_eq_none_iff (.discardFrom depth) reach.live).mpr
      ⟨reach.discarded, reach.unheld⟩
  rw [reach.discard_eq, discard_of_released released]
  rfl

end Overreaches

/-- Unless it reaches further, a second rollback of a frame changes nothing. -/
theorem Accounted.undisturbed_discard (h : ctx.Accounted running)
    (confined : ¬ ∃ frame depth entry, ctx.Overreaches running id frame depth entry) :
    (ctx.discard id).Undisturbed ((ctx.discard id).discard id) := by
  by_cases kept : (ctx.discard id).frame? id = none → ctx.frame? id = none
  · have same : (ctx.discard id).scopeOf id = ctx.scopeOf id := h.scopeOf_rollBack _ kept
    have again : (ctx.discard id).discard id = (ctx.discard id).rollBack (ctx.scopeOf id) :=
      congrArg (ctx.discard id).rollBack same
    rw [again]
    exact ctx.undisturbed_rollBack_rollBack _
  -- The first rollback has released the frame.
  simp only [Classical.not_imp] at kept
  rcases kept with ⟨released, live⟩
  rcases Option.ne_none_iff_exists'.mp live with ⟨frame, live⟩
  rw [discard_of_released released]
  have once := discard_of_live live
  cases scope : frame.scope with
  | clearAll =>
    have empty : (ctx.discard id).pending.entries = [] := by
      rw [once, scope]
      rfl
    refine (undisturbed_discardFrom_iff _ _).mpr ?_
    intro entry front
    simp [empty] at front
  | discardFrom depth =>
    have once : ctx.discard id = ctx.discardFrom depth := once.trans (congrArg ctx.rollBack scope)
    rw [once] at released ⊢
    rcases (h.frame?_rollBack_eq_none_iff (.discardFrom depth) live).mp released with
      ⟨discarded, unheld⟩
    refine (undisturbed_discardFrom_iff _ _).mpr ?_
    intro entry front
    by_contra deep
    exact confined ⟨frame, depth, entry, live, scope, discarded, unheld, front, Nat.not_lt.mp deep⟩

end Context

/-- A rollback of a frame can be made twice without making a difference to the queue and to the
frames, with one exception.  If the first one discards the entries that hold the last references to
the frame, then the second one rolls back from the current depth on, which can be shallower than the
scope that the frame had. -/
theorem discard_twice (h : Reachable running ctx) (id : FrameId) :
    ((ctx.discard id).Undisturbed ((ctx.discard id).discard id) ↔
      ¬ ∃ frame depth entry, ctx.Overreaches running id frame depth entry) ∧
    ((∃ frame depth entry, ctx.Overreaches running id frame depth entry) →
      (ctx.discard id).discard id = (ctx.discard id).discardFrom ctx.depth) := by
  have accounted := h.accounted
  refine ⟨⟨?_, accounted.undisturbed_discard⟩, ?_⟩
  · rintro undisturbed ⟨frame, depth, entry, reach⟩
    rw [reach.discard_discard accounted, Context.undisturbed_discardFrom_iff, reach.discard_eq]
      at undisturbed
    exact Nat.not_lt.mpr reach.deep (undisturbed entry reach.front)
  · rintro ⟨frame, depth, entry, reach⟩
    exact reach.discard_discard accounted

namespace Context

/-- An entry of a nested frame, which is its only one, is queued in front of one of the outermost
frame, and there is no quota to run them. -/
def unfunded : Context .bare :=
  let queue : Procedure .bare Unit := do
    let inner ← Procedure.pushFrame { depth := 1, scope := .discardFrom 1 }
    let outer ← Procedure.pushFrame { depth := 0, scope := .clearAll }
    Procedure.effect (.enqueue inner .fallthrough)
    Procedure.effect (.enqueue outer .fallthrough)
  queue.apply (.create { commandLimit := 0 } () .off)

/-- The two entries are pending, although no entry is executing. -/
def nested : Context .bare :=
  ((unfunded.promote.notify (.limitReached 0)).finish .quotaExhausted).2

theorem run_unfunded : unfunded.run .bare 1 = some (.quotaExhausted, nested) :=
  rfl

theorem reachable_nested : Reachable [] nested :=
  ⟨{ commandLimit := 0 }, (), .off, (Leads.refl.procedure _).trans (.run run_unfunded)⟩

end Context

/-- The second rollback of the nested frame takes the entry of the outermost frame, too. -/
theorem discard_twice_of_nested :
    Context.unfunded.run .bare 1 = some (.quotaExhausted, Context.nested) ∧
    (Context.nested.discard ⟨0⟩).queued = 1 ∧
    ((Context.nested.discard ⟨0⟩).discard ⟨0⟩).queued = 0 ∧
    (Context.nested.discard ⟨0⟩).discard ⟨0⟩ = (Context.nested.discard ⟨0⟩).discardFrom 0 := by
  refine ⟨Context.run_unfunded, by decide +kernel, by decide +kernel, ?_⟩
  refine (discard_twice Context.reachable_nested ⟨0⟩).2 ?_
  exact ⟨_, 1, _, rfl, rfl, by decide +kernel, by decide +kernel, rfl, Nat.le_refl 0⟩

/-- So not every rollback can be made twice. -/
theorem discard_twice_differs :
    ¬ ∀ (running : List FrameId) (ctx : Context .bare) (id : FrameId), Reachable running ctx →
      ((ctx.discard id).discard id).pending.entries = (ctx.discard id).pending.entries ∧
      ((ctx.discard id).discard id).staging = (ctx.discard id).staging ∧
      ((ctx.discard id).discard id).frames.live = (ctx.discard id).frames.live := by
  intro idempotent
  have same := (idempotent [] Context.nested ⟨0⟩ Context.reachable_nested).1
  have lengths := congrArg List.length same
  revert lengths
  decide +kernel

end CommandScheduler
