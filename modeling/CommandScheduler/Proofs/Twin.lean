import CommandScheduler.Proofs.Accounting
import CommandScheduler.Proofs.Blind

/-!
# Twin — two contexts that differ in one fan-out

One of the contexts holds an entry for each action that is left of a fan-out, the other one a single
entry for all of them.  Apart from that, from how often they count the frame of the fan-out and from
how many entries they report as discarded, the two are the same.

Twins answer every blind deed alike and remain twins by it.
-/

namespace CommandScheduler

/-! ## Queues that differ in one fan-out -/

/-- Where the actions of a fan-out belong. -/
structure Seat where
  depth : Nat
  frame : FrameId

namespace Seat

variable {V : Vocabulary}

def entry (seat : Seat) (action : Action V) : Entry V :=
  { depth := seat.depth, frame := seat.frame, action }

/-- One entry for each action. -/
def each (seat : Seat) (actions : List (Action V)) : List (Entry V) :=
  actions.map seat.entry

/-- One entry for all actions, if there are any. -/
def bundle (seat : Seat) (actions : List (Action V)) : List (Entry V) :=
  seat.each (bundled actions)

variable (seat : Seat) (first : Action V) (rest actions : List (Action V))

@[simp]
theorem each_nil : seat.each ([] : List (Action V)) = [] := rfl

@[simp]
theorem each_cons : seat.each (first :: rest) = seat.entry first :: seat.each rest := rfl

@[simp]
theorem bundle_nil : seat.bundle ([] : List (Action V)) = [] := rfl

@[simp]
theorem bundle_cons : seat.bundle (first :: rest) = [seat.entry (.fanOut first rest)] := rfl

theorem length_bundle_le : (seat.bundle actions).length ≤ (seat.each actions).length := by
  cases actions with
  | nil => exact Nat.le_refl 0
  | cons first rest => simp

theorem depth_of_mem_each {entry : Entry V} (h : entry ∈ seat.each actions) :
    entry.depth = seat.depth := by
  rcases List.mem_map.mp h with ⟨action, -, rfl⟩
  rfl

theorem frame_of_mem_each {entry : Entry V} (h : entry ∈ seat.each actions) :
    entry.frame = seat.frame := by
  rcases List.mem_map.mp h with ⟨action, -, rfl⟩
  rfl

end Seat

/-- The same queue, except that the second one has a single entry where the first one has an entry
for each action that is left. -/
def Apart {V : Vocabulary} (seat : Seat) (left : List (Action V)) (plain lazy : List (Entry V)) :
    Prop :=
  ∃ front back, plain = front ++ (seat.each left ++ back) ∧
    lazy = front ++ (seat.bundle left ++ back)

namespace Apart

variable {V : Vocabulary} {seat : Seat} {left : List (Action V)} {plain lazy : List (Entry V)}

theorem refl (seat : Seat) (entries : List (Entry V)) : Apart seat [] entries entries :=
  ⟨entries, [], by simp, by simp⟩

theorem eq (h : Apart seat [] plain lazy) : lazy = plain := by
  rcases h with ⟨front, back, rfl, rfl⟩
  rfl

theorem prepend (h : Apart seat left plain lazy) (entries : List (Entry V)) :
    Apart seat left (entries ++ plain) (entries ++ lazy) := by
  rcases h with ⟨front, back, rfl, rfl⟩
  exact ⟨entries ++ front, back, by simp, by simp⟩

theorem append (h : Apart seat left plain lazy) (entries : List (Entry V)) :
    Apart seat left (plain ++ entries) (lazy ++ entries) := by
  rcases h with ⟨front, back, rfl, rfl⟩
  exact ⟨front, back ++ entries, by simp, by simp⟩

theorem length_le (h : Apart seat left plain lazy) : lazy.length ≤ plain.length := by
  rcases h with ⟨front, back, rfl, rfl⟩
  have shorter := seat.length_bundle_le left
  simp only [List.length_append]
  omega

/-- Both queues have entries of the same frames. -/
theorem mem_frames_iff (h : Apart seat left plain lazy) (id : FrameId) :
    id ∈ lazy.map Entry.frame ↔ id ∈ plain.map Entry.frame := by
  rcases h with ⟨front, back, rfl, rfl⟩
  have same : id ∈ (seat.bundle left).map Entry.frame ↔ id ∈ (seat.each left).map Entry.frame := by
    cases left with
    | nil => exact Iff.rfl
    | cons first rest =>
      refine ⟨fun mem => List.mem_cons.mpr (.inl (List.mem_singleton.mp mem)), fun mem => ?_⟩
      rcases List.mem_map.mp mem with ⟨entry, entryMem, rfl⟩
      exact List.mem_singleton.mpr (seat.frame_of_mem_each _ entryMem)
  simp only [List.map_append, List.mem_append, same]

/-- Either the first entries of both queues are the same, or the second queue comes to its bundle. -/
theorem uncons {entry : Entry V} {rest : List (Entry V)} (h : Apart seat left (entry :: rest) lazy) :
    (∃ rest', lazy = entry :: rest' ∧ Apart seat left rest rest') ∨
      ∃ action actions back, left = action :: actions ∧ entry = seat.entry action ∧
        rest = seat.each actions ++ back ∧ lazy = seat.bundle left ++ back := by
  rcases h with ⟨front, back, eq, rfl⟩
  -- The bundle is at the head if nothing stands before it and some action is left.
  cases front with
  | cons first front =>
    cases eq
    exact .inl ⟨_, rfl, front, back, rfl, rfl⟩
  | nil =>
    cases left with
    | nil =>
      obtain rfl : entry :: rest = back := eq
      exact .inl ⟨rest, rfl, .refl seat rest⟩
    | cons action actions =>
      cases eq
      exact .inr ⟨action, actions, back, rfl, rfl, rfl, rfl⟩

theorem nil_iff (h : Apart seat left plain lazy) : lazy = [] ↔ plain = [] := by
  rcases h with ⟨front, back, rfl, rfl⟩
  cases left with
  | nil => exact Iff.rfl
  | cons action actions => simp

/-- A rollback takes the fan-out from both queues or leaves it in both, as all its entries have one
depth. -/
theorem split (h : Apart seat left plain lazy) (depth : Nat) :
    ∃ gone kept,
      (gone = [] ∧ kept = left ∨ gone = left ∧ kept = []) ∧
      Apart seat gone (plain.takeWhile (depth ≤ ·.depth)) (lazy.takeWhile (depth ≤ ·.depth)) ∧
      Apart seat kept (plain.dropWhile (depth ≤ ·.depth)) (lazy.dropWhile (depth ≤ ·.depth)) := by
  rcases h with ⟨front, back, rfl, rfl⟩
  induction front with
  | nil =>
    by_cases deep : depth ≤ seat.depth
    · -- The whole fan-out is deep enough, and the rollback goes on behind it.
      have all (actions : List (Action V)) :
          ∀ entry ∈ seat.each actions, decide (depth ≤ entry.depth) = true := by
        intro entry mem
        exact decide_eq_true (seat.depth_of_mem_each actions mem ▸ deep)
      have each := all left
      have bundle : ∀ entry ∈ seat.bundle left, decide (depth ≤ entry.depth) = true :=
        all (bundled left)
      refine ⟨left, [], .inr ⟨rfl, rfl⟩, ?_, ?_⟩
      · simp only [List.nil_append]
        rw [List.takeWhile_append_of_pos each, List.takeWhile_append_of_pos bundle]
        exact ⟨[], _, rfl, rfl⟩
      · simp only [List.nil_append]
        rw [List.dropWhile_append_of_pos each, List.dropWhile_append_of_pos bundle]
        exact .refl seat _
    · cases left with
      | nil => exact ⟨[], [], .inl ⟨rfl, rfl⟩, .refl seat _, .refl seat _⟩
      | cons action actions =>
        -- The rollback stops right before the fan-out.
        refine ⟨[], action :: actions, .inl ⟨rfl, rfl⟩, ?_, ?_⟩
        · simpa [Seat.entry, deep] using Apart.refl seat _
        · exact ⟨[], back, by simp [Seat.entry, deep], by simp [Seat.entry, deep]⟩
  | cons entry front ih =>
    by_cases deep : depth ≤ entry.depth
    · rcases ih with ⟨gone, kept, which, taken, dropped⟩
      refine ⟨gone, kept, which, ?_, ?_⟩
      · simpa [deep] using taken.prepend [entry]
      · simpa [deep] using dropped
    · -- The rollback does not get as far as the fan-out.
      refine ⟨[], left, .inl ⟨rfl, rfl⟩, ?_, ?_⟩
      · simpa [deep] using Apart.refl seat _
      · exact ⟨entry :: front, back, by simp [deep], by simp [deep]⟩

end Apart

variable {E : Embedding}

/-- Several actions for a live frame are staged in their order, or there is no room for them. -/
theorem Context.enqueueAll_of_live {running : List FrameId} {ctx : Context E}
    (h : ctx.Accounted running) (intact : ctx.overflowed = false) (seat : Seat) {frame : Frame}
    (live : ctx.frame? seat.frame = some frame) (depth : frame.depth = seat.depth)
    (actions : List (Action E)) :
    ((actions.foldl (fun ctx action => ctx.enqueue seat.frame action) ctx).overflowed = true ∧
      ctx.limits.maxQueueDepth + 1 < ctx.queued + actions.length) ∨
    ∃ frames : FrameTable, frames.live = ctx.frames.live ∧ frames.next = ctx.frames.next ∧
      frames.fresh = ctx.frames.fresh ∧
        actions.foldl (fun ctx action => ctx.enqueue seat.frame action) ctx =
          { ctx with frames, staging := ctx.staging ++ seat.each actions } := by
  induction actions generalizing ctx with
  | nil => exact .inr ⟨ctx.frames, rfl, rfl, rfl, by simp⟩
  | cons action rest ih =>
    rw [List.foldl_cons, List.length_cons]
    -- Either there is no room for this action, or the question is put to the others.
    rcases Nat.lt_or_ge ctx.limits.maxQueueDepth ctx.queued with full | room
    · left
      exact ⟨overflowed_enqueueAll (overflowed_enqueue_of_full full seat.frame action) _ rest,
        by omega⟩
    · rcases enqueue_of_room h intact room live action with ⟨frames, sameLive, next, fresh, eq⟩
      have accounted := (h.enqueue seat.frame action).accounted
      rw [eq] at accounted ⊢
      have live' := (FrameTable.frame?_congr sameLive seat.frame).trans live
      rcases ih accounted intact live' with ⟨overflowed, full⟩ | ⟨frames', live', next', fresh', eq'⟩
      · refine .inl ⟨overflowed, ?_⟩
        simp only [Context.queued, Array.size_push] at full ⊢
        omega
      · refine .inr ⟨frames', live'.trans sameLive, next'.trans next, fresh'.trans fresh, ?_⟩
        rw [eq']
        simp [Seat.entry, depth]

/-! ## Twins -/

/-- An event without the number of discarded entries. -/
def Event.uncounted {Mark : Type} : Event Mark → Event Mark
  | .notice (.discarded depth _) => .notice (.discarded depth 0)
  | event => event

/-- The frames of a table and the handles it has given out, without the references. -/
def FrameTable.outline (table : FrameTable) : Nat × List (FrameId × Frame) × List FrameId :=
  (table.next, table.live, table.fresh)

theorem FrameTable.outline_eq_iff {table table' : FrameTable} :
    table'.outline = table.outline ↔
      table'.next = table.next ∧ table'.live = table.live ∧ table'.fresh = table.fresh := by
  simp [FrameTable.outline]

namespace Context

/-- The log, without the numbers of discarded entries. -/
def story (ctx : Context E) : List (Event E.Mark) :=
  ctx.log.toList.map Event.uncounted

theorem story_record (ctx : Context E) (events : List (Event E.Mark)) :
    (ctx.record events).story = ctx.story ++ events.map Event.uncounted := by
  simp [story, record]

/-- A context without its queue, its frames and its log. -/
def husk (ctx : Context E) : Context E :=
  { ctx with pending := .empty, staging := #[], frames := {}, log := #[] }

end Context

/-- Where two contexts part: the place of the fan-out, and what the logs tell until then. -/
structure Parting (E : Embedding) extends Seat where
  plain : List (Event E.Mark)
  lazy : List (Event E.Mark)

/-- Two contexts that differ in one fan-out.  What is left of it is staged or pending; a rollback
may already have taken the pending part. -/
structure Alike (parting : Parting E) (staged left : List (Action E)) (plain lazy : Context E) :
    Prop where
  husk : lazy.husk = plain.husk
  outline : lazy.frames.outline = plain.frames.outline
  story : ∃ later, plain.story = parting.plain ++ later ∧ lazy.story = parting.lazy ++ later
  staging : Apart parting.toSeat staged plain.staging.toList lazy.staging.toList
  pending : ∃ kept, (kept = left ∨ kept = []) ∧
    Apart parting.toSeat kept plain.pending.entries lazy.pending.entries

/-- Contexts that differ in one fan-out, both of them accounted for and not overflowed. -/
structure Twin (parting : Parting E) (running : List FrameId) (staged left : List (Action E))
    (plain lazy : Context E) : Prop extends Alike parting staged left plain lazy where
  intact : plain.overflowed = false
  plainAccounted : plain.Accounted running
  lazyAccounted : lazy.Accounted running

namespace Alike

variable {parting : Parting E} {staged left : List (Action E)} {plain lazy : Context E}

theorem overflowed_eq (h : Alike parting staged left plain lazy) :
    lazy.overflowed = plain.overflowed :=
  (congrArg Context.overflowed h.husk :)

theorem limits_eq (h : Alike parting staged left plain lazy) : lazy.limits = plain.limits :=
  (congrArg Context.limits h.husk :)

theorem quota_eq (h : Alike parting staged left plain lazy) : lazy.quota = plain.quota :=
  (congrArg Context.quota h.husk :)

theorem depth_eq (h : Alike parting staged left plain lazy) : lazy.depth = plain.depth :=
  (congrArg Context.depth h.husk :)

theorem next_eq (h : Alike parting staged left plain lazy) :
    lazy.frames.next = plain.frames.next :=
  (FrameTable.outline_eq_iff.mp h.outline).1

theorem live_eq (h : Alike parting staged left plain lazy) :
    lazy.frames.live = plain.frames.live :=
  (FrameTable.outline_eq_iff.mp h.outline).2.1

theorem fresh_eq (h : Alike parting staged left plain lazy) :
    lazy.frames.fresh = plain.frames.fresh :=
  (FrameTable.outline_eq_iff.mp h.outline).2.2

theorem frame?_eq (h : Alike parting staged left plain lazy) (id : FrameId) :
    lazy.frame? id = plain.frame? id :=
  FrameTable.frame?_congr h.live_eq id

theorem queued_le (h : Alike parting staged left plain lazy) : lazy.queued ≤ plain.queued := by
  rcases h.pending with ⟨kept, -, pending⟩
  calc
    lazy.queued
        = lazy.staging.toList.length + lazy.pending.entries.length := by
          rw [Context.queued_eq_length, Context.waiting, List.length_append]
    _ ≤ plain.staging.toList.length + plain.pending.entries.length :=
          Nat.add_le_add h.staging.length_le pending.length_le
    _ = plain.queued := by
          rw [Context.queued_eq_length, Context.waiting, List.length_append]

/-- Entries of the same frames are waiting in both contexts. -/
theorem mem_waiting_iff (h : Alike parting staged left plain lazy) (id : FrameId) :
    id ∈ lazy.waiting.map Entry.frame ↔ id ∈ plain.waiting.map Entry.frame := by
  rcases h.pending with ⟨kept, -, pending⟩
  simp only [Context.waiting, List.map_append, List.mem_append, h.staging.mem_frames_iff,
    pending.mem_frames_iff]

/-! ### Operations that leave the queue alone -/

theorem record (h : Alike parting staged left plain lazy) {events events' : List (Event E.Mark)}
    (same : events'.map Event.uncounted = events.map Event.uncounted) :
    Alike parting staged left (plain.record events) (lazy.record events') := by
  rcases h.story with ⟨later, eq, eq'⟩
  refine { h with story := ⟨later ++ events.map Event.uncounted, ?_, ?_⟩ }
  · calc
      (plain.record events).story
          = plain.story ++ events.map Event.uncounted := plain.story_record events
      _ = parting.plain ++ (later ++ events.map Event.uncounted) := by
            rw [eq, List.append_assoc]
  · calc
      (lazy.record events').story
          = lazy.story ++ events'.map Event.uncounted := lazy.story_record events'
      _ = parting.lazy ++ (later ++ events.map Event.uncounted) := by
            rw [eq', same, List.append_assoc]

theorem trace (h : Alike parting staged left plain lazy) (event : TraceEvent) :
    Alike parting staged left (plain.trace event) (lazy.trace event) := by
  have sink : lazy.sink? = plain.sink? := (congrArg Context.sink? h.husk :)
  unfold Context.trace
  rw [sink]
  cases plain.sink? with
  | none => exact h
  | some sink => exact h.record rfl

theorem profile (h : Alike parting staged left plain lazy)
    (step : Profiler → Profiler × List (Event E.Mark)) :
    Alike parting staged left
      ({ plain with profiler := (step plain.profiler).1 }.record (step plain.profiler).2)
      ({ lazy with profiler := (step lazy.profiler).1 }.record (step lazy.profiler).2) := by
  have profiler : lazy.profiler = plain.profiler := (congrArg Context.profiler h.husk :)
  rw [profiler]
  let stepped (ctx : Context E) : Context E := { ctx with profiler := (step plain.profiler).1 }
  have alike : Alike parting staged left (stepped plain) (stepped lazy) :=
    { h with husk := (congrArg stepped h.husk :) }
  exact alike.record rfl

theorem pushFrame (h : Alike parting staged left plain lazy) (frame : Frame) :
    (lazy.pushFrame frame).1 = (plain.pushFrame frame).1 ∧
      Alike parting staged left (plain.pushFrame frame).2 (lazy.pushFrame frame).2 := by
  refine ⟨?_, { h with outline := ?_ }⟩
  · simp [Context.pushFrame, FrameTable.insert, h.next_eq]
  · have live := h.live_eq
    unfold FrameTable.live at live
    simp [Context.pushFrame, FrameTable.insert, FrameTable.outline, FrameTable.live, h.next_eq,
      h.fresh_eq, live]

end Alike

/-! ### Frames that are given back -/

/-- Entries of the same frames leave both queues, and entries of the same frames stay. -/
theorem Balanced.outline_releaseAll {V : Vocabulary} {table table' : FrameTable}
    {running : List FrameId} {gone rest gone' rest' : List (Entry V)}
    (h : Balanced table running (gone ++ rest)) (h' : Balanced table' running (gone' ++ rest'))
    (outline : table'.outline = table.outline)
    (goneFrames : ∀ id, id ∈ gone'.map Entry.frame ↔ id ∈ gone.map Entry.frame)
    (restFrames : ∀ id, id ∈ rest'.map Entry.frame ↔ id ∈ rest.map Entry.frame) :
    (table'.releaseAll (gone'.map Entry.frame)).outline =
      (table.releaseAll (gone.map Entry.frame)).outline := by
  rcases h.releaseAll with ⟨-, -, live⟩
  rcases h'.releaseAll with ⟨-, -, live'⟩
  rcases FrameTable.outline_eq_iff.mp outline with ⟨next, before, fresh⟩
  refine FrameTable.outline_eq_iff.mpr ⟨?_, ?_, ?_⟩
  · rw [FrameTable.next_releaseAll, FrameTable.next_releaseAll, next]
  · rw [live, live', before]
    simp only [goneFrames, restFrames, List.mem_append]
  · rw [FrameTable.fresh_releaseAll, FrameTable.fresh_releaseAll, fresh]

theorem Balanced.outline_settle {V : Vocabulary} {table table' : FrameTable} {frame : FrameId}
    {running : List FrameId} {waiting waiting' : List (Entry V)}
    (h : Balanced table (frame :: running) waiting)
    (h' : Balanced table' (frame :: running) waiting')
    (outline : table'.outline = table.outline)
    (frames : ∀ id, id ∈ waiting'.map Entry.frame ↔ id ∈ waiting.map Entry.frame) :
    (table'.release frame).sweep.outline = (table.release frame).sweep.outline := by
  rcases h.settle with ⟨-, -, live⟩
  rcases h'.settle with ⟨-, -, live'⟩
  rcases FrameTable.outline_eq_iff.mp outline with ⟨next, before, fresh⟩
  have issued (table : FrameTable) : (table.release frame).sweep.next = table.next :=
    FrameTable.next_foldl_dropUnused _ _
  -- After the sweep no frame is new any more.
  refine FrameTable.outline_eq_iff.mpr ⟨?_, ?_, rfl⟩
  · rw [issued, issued, next]
  · rw [live, live', before, fresh]
    simp only [frames, List.mem_append]

/-! ## Blind deeds -/

namespace Twin

variable {parting : Parting E} {running : List FrameId} {staged left : List (Action E)}
  {plain lazy : Context E}

theorem lazyIntact (h : Twin parting running staged left plain lazy) : lazy.overflowed = false :=
  h.overflowed_eq.trans h.intact

/-- The plain context has more entries, so there is room in the lazy one, too. -/
theorem enqueue (h : Twin parting running staged left plain lazy) (id : FrameId)
    (action : Action E) (intact : (plain.enqueue id action).overflowed = false) :
    Twin parting running staged left (plain.enqueue id action) (lazy.enqueue id action) := by
  have room : plain.queued ≤ plain.limits.maxQueueDepth := by
    refine Nat.not_lt.mp ?_
    intro full
    simp [Context.overflowed_enqueue_of_full full] at intact
  have lazyRoom : lazy.queued ≤ lazy.limits.maxQueueDepth := by
    rw [h.limits_eq]
    exact Nat.le_trans h.queued_le room
  have plainAccounted := (h.plainAccounted.enqueue id action).accounted
  have lazyAccounted := (h.lazyAccounted.enqueue id action).accounted
  refine { toAlike := ?_, intact, plainAccounted, lazyAccounted }
  -- The frame is live in both contexts or in none.
  cases live : plain.frame? id with
  | none =>
    have lazyDead : lazy.frame? id = none := (h.frame?_eq id).trans live
    rw [Context.enqueue_of_released h.intact room live,
      Context.enqueue_of_released h.lazyIntact lazyRoom lazyDead]
    exact h.toAlike.record rfl
  | some frame =>
    have lazyLive : lazy.frame? id = some frame := (h.frame?_eq id).trans live
    rcases Context.enqueue_of_room h.plainAccounted h.intact room live action with
      ⟨frames, sameLive, next, fresh, eq⟩
    rcases Context.enqueue_of_room h.lazyAccounted h.lazyIntact lazyRoom lazyLive action with
      ⟨frames', sameLive', next', fresh', eq'⟩
    rw [eq, eq']
    refine { h.toAlike with outline := ?_, staging := ?_ }
    · refine FrameTable.outline_eq_iff.mpr ⟨?_, ?_, ?_⟩
      · exact next'.trans (h.next_eq.trans next.symm)
      · exact sameLive'.trans (h.live_eq.trans sameLive.symm)
      · exact fresh'.trans (h.fresh_eq.trans fresh.symm)
    · simpa using h.staging.append [{ depth := frame.depth, frame := id, action }]

theorem enqueueAll (h : Twin parting running staged left plain lazy) (id : FrameId)
    (actions : List (Action E))
    (intact : (actions.foldl (fun ctx action => ctx.enqueue id action) plain).overflowed = false) :
    Twin parting running staged left
      (actions.foldl (fun ctx action => ctx.enqueue id action) plain)
      (actions.foldl (fun ctx action => ctx.enqueue id action) lazy) := by
  induction actions generalizing plain lazy with
  | nil => exact h
  | cons action rest ih =>
    refine ih (h.enqueue id action ?_) intact
    cases first : (plain.enqueue id action).overflowed with
    | false => rfl
    | true => simp [Context.overflowed_enqueueAll first id rest] at intact

theorem discardFrom (h : Twin parting running staged left plain lazy) (depth : Nat) :
    Alike parting staged left (plain.discardFrom depth) (lazy.discardFrom depth) := by
  rcases h.pending with ⟨kept, which, pending⟩
  rcases pending.split depth with ⟨gone, stay, fate, taken, dropped⟩
  have outline := (h.plainAccounted.balanced.perm (plain.waiting_perm_front depth)).outline_releaseAll
    (h.lazyAccounted.balanced.perm (lazy.waiting_perm_front depth)) h.outline taken.mem_frames_iff
    (by
      intro id
      simp only [List.map_append, List.mem_append, h.staging.mem_frames_iff]
      exact or_congr_right (dropped.mem_frames_iff id))
  -- The notice that is logged differs in the number of discarded entries only.
  have alike : Alike parting staged left
      { plain with
        pending := plain.pending.dropFront depth
        frames := plain.frames.releaseAll ((plain.pending.front depth).map Entry.frame) }
      { lazy with
        pending := lazy.pending.dropFront depth
        frames := lazy.frames.releaseAll ((lazy.pending.front depth).map Entry.frame) } := by
    refine { h.toAlike with outline := outline, pending := ⟨stay, ?_, dropped⟩ }
    -- What is left stays as it is, or it is gone altogether.
    rcases fate with ⟨-, rfl⟩ | ⟨-, rfl⟩
    · exact which
    · exact .inr rfl
  exact alike.record rfl

theorem clearPending (h : Twin parting running staged left plain lazy) :
    Alike parting staged left plain.clearPending lazy.clearPending := by
  rcases h.pending with ⟨kept, which, pending⟩
  have outline := (h.plainAccounted.balanced.perm plain.waiting_perm_pending).outline_releaseAll
    (h.lazyAccounted.balanced.perm lazy.waiting_perm_pending) h.outline pending.mem_frames_iff
    h.staging.mem_frames_iff
  exact { h.toAlike with outline := outline, pending := ⟨[], .inr rfl, .refl _ _⟩ }

theorem discard (h : Twin parting running staged left plain lazy) (id : FrameId) :
    Alike parting staged left (plain.discard id) (lazy.discard id) := by
  have scope : lazy.scopeOf id = plain.scopeOf id := by
    unfold Context.scopeOf
    rw [h.frame?_eq, h.depth_eq]
  unfold Context.discard Context.rollBack
  rw [scope]
  cases plain.scopeOf id with
  | clearAll => exact h.clearPending
  | discardFrom depth => exact h.discardFrom depth

theorem pushTopFrame (h : Twin parting running staged left plain lazy) (callback : Callback) :
    (lazy.pushTopFrame callback).1 = (plain.pushTopFrame callback).1 ∧
      Twin parting running staged left (plain.pushTopFrame callback).2
        (lazy.pushTopFrame callback).2 := by
  have plainAccounted := (h.plainAccounted.pushTopFrame callback).accounted
  have lazyAccounted := (h.lazyAccounted.pushTopFrame callback).accounted
  unfold Context.pushTopFrame at plainAccounted lazyAccounted ⊢
  rw [h.depth_eq] at lazyAccounted ⊢
  obtain ⟨id, alike⟩ := h.toAlike.pushFrame (if plain.depth = 0 then
      { depth := 0, callback, scope := .clearAll }
    else
      { depth := plain.depth + 1, callback, scope := .discardFrom (plain.depth + 1) })
  exact ⟨id, alike, h.intact, plainAccounted, lazyAccounted⟩

theorem answer (h : Twin parting running staged left plain lazy) {query : Query}
    (blind : query.IsBlind) : lazy.answer query = plain.answer query := by
  cases query with
  | limits => exact h.limits_eq
  | quota => exact h.quota_eq
  | overflowed => exact h.overflowed_eq
  | depth => exact h.depth_eq
  | sink => exact (congrArg Context.sink? h.husk :)
  | frame id => exact h.frame?_eq id
  | frameCount =>
    have length := congrArg List.length h.live_eq
    simp only [FrameTable.live, List.length_map] at length
    exact length
  | backlog => exact blind.elim
  | inspection => exact blind.elim

/-- Twins give the same reply to a blind effect, and they remain twins unless the plain one
overflows. -/
theorem effect (h : Twin parting running staged left plain lazy) {effect : Effect E}
    (blind : effect.IsBlind) (intact : (effect.apply plain).2.overflowed = false) :
    (effect.apply lazy).1 = (effect.apply plain).1 ∧
      Alike parting staged left (effect.apply plain).2 (effect.apply lazy).2 := by
  cases effect with
  | ask query => exact ⟨h.answer blind, h.toAlike⟩
  | enqueue frame action => exact ⟨rfl, (h.enqueue frame action intact).toAlike⟩
  | schedule frame actions =>
    simp only [Effect.apply, Context.schedule_eq_foldl] at intact ⊢
    exact ⟨trivial, (h.enqueueAll frame (fan actions) intact).toAlike⟩
  | pushFrame frame => exact h.toAlike.pushFrame frame
  | queueCommand chain source callback =>
    rcases h.pushTopFrame callback with ⟨id, pushed⟩
    simp only [Effect.apply, Context.queueCommand] at intact ⊢
    rw [id]
    exact ⟨trivial, (pushed.enqueue _ _ intact).toAlike⟩
  | queueCall function source callback =>
    rcases h.pushTopFrame callback with ⟨id, pushed⟩
    simp only [Effect.apply, Context.queueCall] at intact ⊢
    rw [id]
    exact ⟨trivial, (pushed.enqueue _ _ intact).toAlike⟩
  | discard frame => exact ⟨rfl, h.discard frame⟩
  | discardFrom depth => exact ⟨rfl, h.discardFrom depth⟩
  | charge => exact ⟨rfl, { h.toAlike with husk := (congrArg Context.charge h.husk :) }⟩
  | install sink? =>
    exact ⟨rfl, { h.toAlike with husk := (congrArg (Context.install · sink?) h.husk :) }⟩
  | trace event => exact ⟨rfl, h.toAlike.trace event⟩
  | fire callback result => exact ⟨rfl, h.toAlike.record rfl⟩
  | present source error forked => exact ⟨rfl, (h.toAlike.trace _).record rfl⟩
  | load => exact ⟨(congrArg Context.memory h.husk :), h.toAlike⟩
  | store memory =>
    let stored (ctx : Context E) : Context E := { ctx with memory }
    exact ⟨rfl, { h.toAlike with husk := (congrArg stored h.husk :) }⟩
  | mark mark => exact ⟨rfl, h.toAlike.record rfl⟩

theorem deed (h : Twin parting running staged left plain lazy) (deed : Deed E)
    (blind : deed.IsBlind) (intact : (deed.apply plain).2.overflowed = false) :
    (deed.apply lazy).1 = (deed.apply plain).1 ∧
      Twin parting running staged left (deed.apply plain).2 (deed.apply lazy).2 := by
  have plainAccounted := (h.plainAccounted.deed deed).accounted
  have lazyAccounted := (h.lazyAccounted.deed deed).accounted
  -- That both remain accounted for holds of any deed, so only the difference is looked at.
  have alike : (deed.apply lazy).1 = (deed.apply plain).1 ∧
      Alike parting staged left (deed.apply plain).2 (deed.apply lazy).2 := by
    cases deed with
    | effect effect => exact h.effect blind intact
    | record events => exact ⟨rfl, h.toAlike.record rfl⟩
    | openScope scope => exact ⟨rfl, h.toAlike.profile (Profiler.enter scope)⟩
    | closeScope => exact ⟨rfl, h.toAlike.profile Profiler.leave⟩
  exact ⟨alike.1, alike.2, intact, plainAccounted, lazyAccounted⟩

end Twin

/-! ## Blind work -/

/-- Two runs of a script stay in step if every operation keeps them in step, as long as the first
run is still good afterwards. -/
theorem Script.run?_in_step {Op : Type} {Reply : Op → Type} {α σ : Type}
    {handle : (op : Op) → σ → Option (Reply op × σ)} {p : Op → Prop} (Good : σ → Prop)
    (R : σ → σ → Prop)
    (good : ∀ op state result, handle op state = some result → Good result.2 → Good state)
    (step : ∀ op, p op → ∀ state other result, R state other → handle op state = some result →
      Good result.2 → ∃ after, handle op other = some (result.1, after) ∧ R result.2 after)
    {script : Script Op Reply α} (only : Only p script) {state other : σ} {result : α × σ}
    (h : R state other) (ran : script.run? handle state = some result) (fine : Good result.2) :
    ∃ after, script.run? handle other = some (result.1, after) ∧ R result.2 after := by
  induction only generalizing state other with
  | done value =>
    cases ran
    exact ⟨other, rfl, h⟩
  | @call op next allowed _ ih =>
    cases reply : handle op state with
    | none => simp [run?, reply] at ran
    | some first =>
      have rest : (next first.1).run? handle first.2 = some result := by
        simpa [run?, reply] using ran
      -- What is good in the end was good after the first operation.
      have early : Good first.2 := Script.run?_reflects good (next first.1) first.2 result rest fine
      rcases step op allowed state other first h reply early with ⟨mid, replied, related⟩
      rcases ih first.1 related rest with ⟨after, restRan, final⟩
      exact ⟨after, by simpa [run?, replied] using restRan, final⟩

/-- Does several pieces of work, one after another. -/
def Work.performAll (host : Host E) (fuel : Nat) : List (Work E) → Context E → Option (Context E)
  | [], ctx => some ctx
  | work :: rest, ctx => (work.perform host fuel ctx).bind (performAll host fuel rest)

theorem Work.leads_all {host : Host E} {fuel : Nat} {works : List (Work E)}
    {running : List FrameId} {ctx after : Context E}
    (performed : performAll host fuel works ctx = some after) : Leads running ctx running after := by
  induction works generalizing ctx with
  | nil =>
    cases performed
    exact .refl
  | cons work rest ih =>
    rcases Option.bind_eq_some_iff.mp performed with ⟨mid, first, later⟩
    exact (Work.leads first).trans (ih later)

namespace Twin

variable {parting : Parting E} {running : List FrameId} {staged left : List (Action E)}
  {plain lazy : Context E}

theorem procedure (h : Twin parting running staged left plain lazy) {procedure : Procedure E Unit}
    (blind : procedure.Blind) (intact : (procedure.apply plain).overflowed = false) :
    Twin parting running staged left (procedure.apply plain) (procedure.apply lazy) := by
  have good (deed : Deed E) (ctx : Context E) (result : deed.Reply × Context E)
      (handled : some (deed.apply ctx) = some result) (fine : result.2.overflowed = false) :
      ctx.overflowed = false := by
    cases handled
    exact (Leads.deed deed .refl : Leads running ctx running _).intact fine
  have step (deed : Deed E) (blind : deed.IsBlind) (ctx other : Context E)
      (result : deed.Reply × Context E) (twin : Twin parting running staged left ctx other)
      (handled : some (deed.apply ctx) = some result) (fine : result.2.overflowed = false) :
      ∃ after, some (deed.apply other) = some (result.1, after) ∧
        Twin parting running staged left result.2 after := by
    cases handled
    rcases twin.deed deed blind fine with ⟨reply, next⟩
    exact ⟨(deed.apply other).2, by rw [← reply], next⟩
  have ran := Script.run?_some Deed.apply procedure plain
  obtain ⟨after, lazyRan, twin⟩ := Script.run?_in_step (fun ctx => ctx.overflowed = false)
    (Twin parting running staged left) good step blind h ran intact
  rw [Script.run?_some] at lazyRan
  have same : procedure.apply lazy = after := congrArg Prod.snd (Option.some.inj lazyRan)
  exact same ▸ twin

/-- A blind program keeps twins if the actions do that it performs on the spot. -/
theorem program {host : Host E} {fuel : Nat}
    (actions : ∀ action frame (ctx other after : Context E),
      Twin parting running staged left ctx other →
      Context.perform host fuel action frame ctx = some after → after.overflowed = false →
        ∃ after', Context.perform host fuel action frame other = some after' ∧
          Twin parting running staged left after after')
    {program : Program E Unit} (blind : program.Only Instruction.IsBlind)
    (h : Twin parting running staged left plain lazy) {after : Context E}
    (performed : (Work.embedded program).perform host fuel plain = some after)
    (intact : after.overflowed = false) :
    ∃ after', (Work.embedded program).perform host fuel lazy = some after' ∧
      Twin parting running staged left after after' := by
  let handle := Context.instruct (Context.perform host fuel) (Context.drain host fuel)
  have good (op : Instruction E) (ctx : Context E) (result : op.Reply × Context E)
      (handled : handle op ctx = some result) (fine : result.2.overflowed = false) :
      ctx.overflowed = false := by
    have leads : Leads running ctx running result.2 := .instruct handled
    exact leads.intact fine
  have step (op : Instruction E) (blind : op.IsBlind) (ctx other : Context E)
      (result : op.Reply × Context E) (twin : Twin parting running staged left ctx other)
      (handled : handle op ctx = some result) (fine : result.2.overflowed = false) :
      ∃ after, handle op other = some (result.1, after) ∧
        Twin parting running staged left result.2 after := by
    cases op with
    | effect effect =>
      cases handled
      rcases twin.deed (.effect effect) blind fine with ⟨reply, next⟩
      exact ⟨(effect.apply other).2, congrArg (fun reply => some (reply, _)) reply, next⟩
    | perform action frame =>
      -- An action on the spot is covered by the assumption, which has less fuel.
      rcases Option.map_eq_some_iff.mp handled with ⟨after, performed, rfl⟩
      obtain ⟨after', performed', next⟩ := actions action frame ctx other after twin performed fine
      exact ⟨after', Option.map_eq_some_iff.mpr ⟨after', performed', rfl⟩, next⟩
    | run => exact blind.elim
  rcases Option.map_eq_some_iff.mp performed with ⟨result, ran, rfl⟩
  obtain ⟨after', ran', twin⟩ := Script.run?_in_step (fun ctx => ctx.overflowed = false)
    (Twin parting running staged left) good step blind h ran intact
  exact ⟨after', Option.map_eq_some_iff.mpr ⟨_, ran', rfl⟩, twin⟩

theorem work_of {host : Host E} {fuel : Nat}
    (actions : ∀ action frame (ctx other after : Context E),
      Twin parting running staged left ctx other →
      Context.perform host fuel action frame ctx = some after → after.overflowed = false →
        ∃ after', Context.perform host fuel action frame other = some after' ∧
          Twin parting running staged left after after')
    {work : Work E} (blind : work.Blind) (h : Twin parting running staged left plain lazy)
    {after : Context E} (performed : work.perform host fuel plain = some after)
    (intact : after.overflowed = false) :
    ∃ after', work.perform host fuel lazy = some after' ∧
      Twin parting running staged left after after' := by
  cases work with
  | own procedure =>
    cases performed
    exact ⟨procedure.apply lazy, rfl, h.procedure blind intact⟩
  | embedded program => exact h.program actions blind performed intact

/-- Twins remain twins by an action that is performed as part of any frame. -/
theorem perform {host : Host E} (blind : host.Blind) (fuel : Nat) (action : Action E)
    (frame : FrameId) {after : Context E} (h : Twin parting running staged left plain lazy)
    (performed : Context.perform host fuel action frame plain = some after)
    (intact : after.overflowed = false) :
    ∃ after', Context.perform host fuel action frame lazy = some after' ∧
      Twin parting running staged left after after' := by
  induction fuel generalizing action frame plain lazy after with
  | zero => simp [Context.perform] at performed
  | succ fuel ih =>
    rw [Work.perform_action] at performed ⊢
    refine h.work_of ?_ (blind.work action frame) performed intact
    intro action frame ctx other after twin performed intact
    exact ih action frame twin performed intact

/-- Blind work keeps twins. -/
theorem work {host : Host E} (blind : host.Blind) {fuel : Nat} {work : Work E}
    (blindWork : work.Blind) (h : Twin parting running staged left plain lazy) {after : Context E}
    (performed : work.perform host fuel plain = some after) (intact : after.overflowed = false) :
    ∃ after', work.perform host fuel lazy = some after' ∧
      Twin parting running staged left after after' := by
  refine h.work_of ?_ blindWork performed intact
  intro action frame ctx other after twin performed intact
  exact twin.perform blind fuel action frame performed intact

theorem workAll {host : Host E} (blind : host.Blind) {fuel : Nat} {works : List (Work E)}
    (blindWorks : ∀ work ∈ works, work.Blind)
    (h : Twin parting running staged left plain lazy) {after : Context E}
    (performed : Work.performAll host fuel works plain = some after)
    (intact : after.overflowed = false) :
    ∃ after', Work.performAll host fuel works lazy = some after' ∧
      Twin parting running staged left after after' := by
  induction works generalizing plain lazy with
  | nil =>
    cases performed
    exact ⟨lazy, rfl, h⟩
  | cons work rest ih =>
    rcases Option.bind_eq_some_iff.mp performed with ⟨mid, first, later⟩
    -- What is not overflowed in the end was not overflowed in between.
    have midIntact : mid.overflowed = false :=
      (Work.leads_all later : Leads running mid running after).intact intact
    obtain ⟨mid', first', twin⟩ := h.work blind (blindWorks work List.mem_cons_self) first midIntact
    obtain ⟨after', later', last⟩ :=
      ih (fun other mem => blindWorks other (List.mem_cons_of_mem _ mem)) twin later
    exact ⟨after', Option.bind_eq_some_iff.mpr ⟨mid', first', later'⟩, last⟩

end Twin
end CommandScheduler
