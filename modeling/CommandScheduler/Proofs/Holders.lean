import CommandScheduler.Frame.Table

/-!
# Holders — who keeps a frame in the table

A table of frames is *held* by a list of handles if it counts, for each live frame, how often its
handle occurs in the list, and if every handle of the list is live.  Every operation on tables is
described here by what it does to the list of holders and to the frames that stay live.
-/

namespace CommandScheduler
namespace FrameTable

/-! ## Slots -/

section Slots

variable {id other : FrameId} {change : FrameSlot → Option FrameSlot}

theorem slotOf_eq_none_iff {slots : List (FrameId × FrameSlot)} :
    slotOf id slots = none ↔ id ∉ slots.map Prod.fst := by
  induction slots with
  | nil => simp [slotOf]
  | cons head rest ih =>
    rcases head with ⟨key, slot⟩
    by_cases same : key = id
    · simp [slotOf, same]
    · have different : ¬ id = key := fun h => same h.symm
      simp [slotOf, same, different, ih]

theorem mem_keys_of_slotOf {slots : List (FrameId × FrameSlot)} {slot : FrameSlot}
    (h : slotOf id slots = some slot) : id ∈ slots.map Prod.fst := by
  refine Decidable.byContradiction ?_
  intro absent
  rw [slotOf_eq_none_iff.mpr absent] at h
  cases h

theorem exists_slotOf_of_mem {slots : List (FrameId × FrameSlot)}
    (h : id ∈ slots.map Prod.fst) : ∃ slot, slotOf id slots = some slot := by
  cases found : slotOf id slots with
  | none => exact absurd h (slotOf_eq_none_iff.mp found)
  | some slot => exact ⟨slot, rfl⟩

theorem slotOf_updateSlot_of_ne (h : other ≠ id) (slots : List (FrameId × FrameSlot)) :
    slotOf other (updateSlot id change slots) = slotOf other slots := by
  induction slots with
  | nil => rfl
  | cons head rest ih =>
    rcases head with ⟨key, slot⟩
    by_cases same : key = id
    · have skipped : ¬ key = other := fun eq => h (eq ▸ same)
      cases changed : change slot <;> simp [updateSlot, slotOf, same, changed, h.symm]
    · by_cases found : key = other
      · subst found
        simp [updateSlot, slotOf, h]
      · simp [updateSlot, slotOf, same, found, ih]

theorem slotOf_updateSlot_self {slots : List (FrameId × FrameSlot)}
    (distinct : (slots.map Prod.fst).Nodup) :
    slotOf id (updateSlot id change slots) = (slotOf id slots).bind change := by
  induction slots with
  | nil => rfl
  | cons head rest ih =>
    rcases head with ⟨key, slot⟩
    rcases List.nodup_cons.mp distinct with ⟨absent, distinct⟩
    by_cases same : key = id
    · subst same
      cases changed : change slot with
      | none => simp [updateSlot, slotOf, changed, slotOf_eq_none_iff.mpr absent]
      | some slot' => simp [updateSlot, slotOf, changed]
    · simp [updateSlot, slotOf, same, ih distinct]

theorem keys_updateSlot_sublist (slots : List (FrameId × FrameSlot)) :
    ((updateSlot id change slots).map Prod.fst).Sublist (slots.map Prod.fst) := by
  induction slots with
  | nil => exact List.Sublist.refl _
  | cons head rest ih =>
    rcases head with ⟨key, slot⟩
    by_cases same : key = id
    · cases changed : change slot with
      | none => simp [updateSlot, same, changed]
      | some slot' => simp [updateSlot, same, changed]
    · simpa [updateSlot, same] using ih

theorem updateSlot_eq_self {slots : List (FrameId × FrameSlot)}
    (same : ∀ slot, slotOf id slots = some slot → change slot = some slot) :
    updateSlot id change slots = slots := by
  induction slots with
  | nil => rfl
  | cons head rest ih =>
    rcases head with ⟨key, slot⟩
    by_cases found : key = id
    · simp [updateSlot, found, same slot (by simp [slotOf, found])]
    · simpa [updateSlot, found] using ih fun slot later => same slot (by simpa [slotOf, found] using later)

/-- A slot, as far as its frame goes. -/
def framed (entry : FrameId × FrameSlot) : FrameId × Frame :=
  (entry.1, entry.2.frame)

theorem framed_updateSlot_of_kept {slots : List (FrameId × FrameSlot)}
    (kept : ∀ slot, slotOf id slots = some slot →
      ∃ slot', change slot = some slot' ∧ slot'.frame = slot.frame) :
    (updateSlot id change slots).map framed = slots.map framed := by
  induction slots with
  | nil => rfl
  | cons head rest ih =>
    rcases head with ⟨key, slot⟩
    by_cases same : key = id
    · obtain ⟨slot', changed, frame⟩ := kept slot (by simp [slotOf, same])
      simp [updateSlot, same, changed, framed, frame]
    · simp only [updateSlot, same, if_false, List.map_cons, List.cons.injEq, true_and]
      exact ih fun slot found => kept slot (by simpa [slotOf, same] using found)

theorem framed_updateSlot_of_removed {slots : List (FrameId × FrameSlot)}
    (distinct : (slots.map Prod.fst).Nodup)
    (removed : ∀ slot, slotOf id slots = some slot → change slot = none) :
    (updateSlot id change slots).map framed = (slots.map framed).filter (·.1 ≠ id) := by
  induction slots with
  | nil => rfl
  | cons head rest ih =>
    rcases head with ⟨key, slot⟩
    rcases List.nodup_cons.mp distinct with ⟨absent, distinct⟩
    by_cases same : key = id
    · -- The slot is dropped here, and as handles are distinct the filter finds no other one.
      subst same
      have untouched : (rest.map framed).filter (·.1 ≠ key) = rest.map framed := by
        rw [List.filter_eq_self]
        intro entry mem
        rcases List.mem_map.mp mem with ⟨old, oldMem, rfl⟩
        have oldKey : old.1 ∈ rest.map Prod.fst := List.mem_map_of_mem oldMem
        have different : old.1 ≠ key := fun eq => absent (eq ▸ oldKey)
        exact decide_eq_true different
      have gone : change slot = none := removed slot (by simp [slotOf])
      simp only [updateSlot, if_true, gone, List.map_cons]
      rw [List.filter_cons_of_neg (by simp [framed]), untouched]
    · have rest := ih distinct fun slot found => removed slot (by simpa [slotOf, same] using found)
      simp only [updateSlot, same, if_false, List.map_cons, rest]
      rw [List.filter_cons_of_pos (by simp [framed, same])]

/-- A change that removes a slot exactly if nobody holds it. -/
theorem framed_updateSlot {slots : List (FrameId × FrameSlot)} {holders : List FrameId}
    (distinct : (slots.map Prod.fst).Nodup)
    (kept : ∀ slot, slotOf id slots = some slot → id ∈ holders →
      ∃ slot', change slot = some slot' ∧ slot'.frame = slot.frame)
    (removed : ∀ slot, slotOf id slots = some slot → id ∉ holders → change slot = none) :
    (updateSlot id change slots).map framed =
      (slots.map framed).filter fun entry => entry.1 ≠ id ∨ id ∈ holders := by
  by_cases held : id ∈ holders
  · have all : ((slots.map framed).filter fun entry => entry.1 ≠ id ∨ id ∈ holders) =
        slots.map framed :=
      List.filter_eq_self.mpr fun entry _ => decide_eq_true (.inr held)
    rw [all]
    exact framed_updateSlot_of_kept fun slot found => kept slot found held
  · simp only [held, or_false]
    exact framed_updateSlot_of_removed distinct fun slot found => removed slot found held

/-- Taking away one handle, unless `kept`, and then some more takes away all that nobody holds. -/
theorem filter_filter_holders (entries : List (FrameId × Frame)) (id : FrameId)
    (ids holders : List FrameId) {kept : Prop} [Decidable kept] (held : id ∈ holders → kept)
    (later : kept → id ∈ ids ∨ id ∈ holders) :
    (entries.filter fun entry => entry.1 ≠ id ∨ kept).filter
        (fun entry => entry.1 ∉ ids ∨ entry.1 ∈ holders) =
      entries.filter fun entry => entry.1 ∉ id :: ids ∨ entry.1 ∈ holders := by
  rw [List.filter_filter]
  refine List.filter_congr ?_
  intro entry _
  by_cases same : entry.1 = id
  · -- The handle may come again among the later ones.
    subst same
    by_cases mem : entry.1 ∈ holders
    · simp [mem, held mem]
    · have once : entry.1 ∉ ids → ¬ kept := fun absent both =>
        (later both).elim absent mem
      simpa [mem] using once
  · simp [same]

end Slots

/-! ## Live frames -/

/-- The live handles, youngest first. -/
def keys (table : FrameTable) : List FrameId :=
  table.slots.map Prod.fst

/-- The live handles with their frames, youngest first. -/
def live (table : FrameTable) : List (FrameId × Frame) :=
  table.slots.map framed

theorem map_fst_live (table : FrameTable) : table.live.map Prod.fst = table.keys := by
  simp [live, keys, framed, Function.comp_def]

theorem fresh_foldl_dropUnused (ids : List FrameId) (table : FrameTable) :
    (ids.foldl dropUnused table).fresh = table.fresh := by
  induction ids generalizing table with
  | nil => rfl
  | cons id ids ih => exact ih (table.dropUnused id)

theorem next_foldl_dropUnused (ids : List FrameId) (table : FrameTable) :
    (ids.foldl dropUnused table).next = table.next := by
  induction ids generalizing table with
  | nil => rfl
  | cons id ids ih => exact ih (table.dropUnused id)

theorem next_releaseAll (ids : List FrameId) (table : FrameTable) :
    (table.releaseAll ids).next = table.next := by
  induction ids generalizing table with
  | nil => rfl
  | cons id ids ih => exact ih (table.release id)

theorem fresh_releaseAll (ids : List FrameId) (table : FrameTable) :
    (table.releaseAll ids).fresh = table.fresh := by
  induction ids generalizing table with
  | nil => rfl
  | cons id ids ih => exact ih (table.release id)

theorem frame?_eq_lookup (table : FrameTable) (id : FrameId) :
    table.frame? id = table.live.lookup id := by
  rcases table with ⟨next, slots, fresh⟩
  induction slots with
  | nil => rfl
  | cons head rest ih =>
    rcases head with ⟨key, slot⟩
    by_cases same : key = id
    · simp [frame?, slot?, slotOf, live, framed, same]
    · have different : (id == key) = false := by simpa using fun h : id = key => same h.symm
      simpa [frame?, slot?, slotOf, live, framed, same, List.lookup_cons, different] using ih

theorem frame?_congr {table table' : FrameTable} (h : table.live = table'.live) (id : FrameId) :
    table.frame? id = table'.frame? id := by
  rw [frame?_eq_lookup, frame?_eq_lookup, h]

theorem mem_live_of_frame? {table : FrameTable} {id : FrameId} {frame : Frame}
    (h : table.frame? id = some frame) : (id, frame) ∈ table.live := by
  rw [frame?_eq_lookup] at h
  rcases List.lookup_eq_some_iff.mp h with ⟨front, back, eq, -⟩
  rw [eq]
  exact List.mem_append_right _ List.mem_cons_self

theorem frame?_of_mem_live {table : FrameTable} (distinct : table.keys.Nodup) {id : FrameId}
    {frame : Frame} (mem : (id, frame) ∈ table.live) : table.frame? id = some frame := by
  rw [frame?_eq_lookup]
  rw [← map_fst_live] at distinct
  generalize table.live = entries at distinct mem
  induction entries with
  | nil => cases mem
  | cons head rest ih =>
    rcases head with ⟨key, first⟩
    rcases List.nodup_cons.mp distinct with ⟨absent, distinct⟩
    rcases List.mem_cons.mp mem with same | mem
    · cases same
      simp
    · -- A later entry is found, because the first one has another key.
      have key_mem : id ∈ rest.map Prod.fst := List.mem_map.mpr ⟨_, mem, rfl⟩
      have different : (id == key) = false := by
        simpa using fun eq : id = key => absent (eq ▸ key_mem)
      simpa [List.lookup_cons, different] using ih distinct mem

/-- A table whose live frames are among those of another one agrees with it on them. -/
theorem frame?_of_live_subset {table table' : FrameTable} (distinct : table.keys.Nodup)
    (subset : table'.live ⊆ table.live) {id : FrameId} {frame : Frame}
    (h : table'.frame? id = some frame) : table.frame? id = some frame :=
  frame?_of_mem_live distinct (subset (mem_live_of_frame? h))

theorem exists_frame?_of_mem {table : FrameTable} {id : FrameId} (h : id ∈ table.keys) :
    ∃ frame, table.frame? id = some frame := by
  rcases exists_slotOf_of_mem h with ⟨slot, found⟩
  exact ⟨slot.frame, by simp [frame?, slot?, found]⟩

theorem mem_keys_of_frame? {table : FrameTable} {id : FrameId} {frame : Frame}
    (h : table.frame? id = some frame) : id ∈ table.keys := by
  rcases Option.map_eq_some_iff.mp h with ⟨slot, found, -⟩
  exact mem_keys_of_slotOf found

/-! ## Handles keep their frames -/

/-- No handle given out by the first table leads to another frame in the second one. -/
structure Onward (table table' : FrameTable) : Prop where
  issued : table.next ≤ table'.next
  same : ∀ id frame, id.serial < table.next → table'.frame? id = some frame →
    table.frame? id = some frame

namespace Onward

variable {table table' table'' : FrameTable}

theorem refl (table : FrameTable) : table.Onward table :=
  ⟨Nat.le_refl _, fun _ _ _ found => found⟩

theorem trans (first : table.Onward table') (second : table'.Onward table'') :
    table.Onward table'' where
  issued := Nat.le_trans first.issued second.issued
  same := by
    intro id frame old found
    exact first.same id frame old
      (second.same id frame (Nat.lt_of_lt_of_le old first.issued) found)

theorem of_live_subset (distinct : table.keys.Nodup) (next : table'.next = table.next)
    (subset : table'.live ⊆ table.live) : table.Onward table' :=
  ⟨Nat.le_of_eq next.symm, fun _ _ _ found => frame?_of_live_subset distinct subset found⟩

/-- A handle that has been given out and leads nowhere never leads anywhere again. -/
theorem frame?_eq_none (h : table.Onward table') {id : FrameId} (issued : id.serial < table.next)
    (dead : table.frame? id = none) : table'.frame? id = none := by
  cases found : table'.frame? id with
  | none => rfl
  | some frame => exact absurd (h.same id frame issued found) (by simp [dead])

theorem insert (table : FrameTable) (frame : Frame) : table.Onward (table.insert frame).2 where
  issued := Nat.le_succ _
  same := by
    intro id found old lookup
    have different : (⟨table.next⟩ : FrameId) ≠ id := by
      intro eq
      exact absurd (eq ▸ old) (Nat.lt_irrefl _)
    simpa [frame?, slot?, FrameTable.insert, slotOf, different] using lookup

end Onward

/-! ## Counting holders -/

/-- The table counts how often each live handle occurs among the holders, and all holders are live;
a live frame without holders is a new one. -/
structure Held (table : FrameTable) (holders : List FrameId) : Prop where
  distinct : table.keys.Nodup
  issued : ∀ id ∈ table.keys, id.serial < table.next
  references : ∀ id slot, table.slot? id = some slot → slot.references = holders.count id
  live : ∀ id ∈ holders, id ∈ table.keys
  fresh : ∀ id slot, table.slot? id = some slot → slot.references = 0 → id ∈ table.fresh

/-- The table without frames. -/
theorem held_empty : Held {} [] where
  distinct := List.nodup_nil
  issued := by intro id mem; cases mem
  references := by intro id slot h; cases h
  live := by intro id mem; cases mem
  fresh := by intro id slot h; cases h

namespace Held

variable {table : FrameTable} {holders holders' : List FrameId} {id : FrameId}

/-- The order of the holders does not matter. -/
theorem perm (h : table.Held holders) (p : holders.Perm holders') : table.Held holders' where
  distinct := h.distinct
  issued := h.issued
  references := by
    intro id slot found
    rw [h.references id slot found, p.count_eq]
  live := fun id mem => h.live id (p.mem_iff.mpr mem)
  fresh := h.fresh

theorem exists_frame? (h : table.Held holders) (mem : id ∈ holders) :
    ∃ frame, table.frame? id = some frame :=
  exists_frame?_of_mem (h.live id mem)

theorem issued_of_mem (h : table.Held holders) (mem : id ∈ holders) : id.serial < table.next :=
  h.issued id (h.live id mem)

/-- A holder's frame stays the same as long as the handle is held. -/
theorem frame?_eq {table' : FrameTable} (h : table.Held holders) (h' : table'.Held holders')
    (onward : table.Onward table') (mem : id ∈ holders) (mem' : id ∈ holders') :
    table'.frame? id = table.frame? id := by
  rcases h'.exists_frame? mem' with ⟨frame, found⟩
  rw [found, onward.same id frame (h.issued_of_mem mem) found]

/-- A live frame that is not new has a holder. -/
theorem mem_of_frame? (h : table.Held holders) (swept : table.fresh = []) {frame : Frame}
    (live : table.frame? id = some frame) : id ∈ holders := by
  rcases Option.map_eq_some_iff.mp live with ⟨slot, found, -⟩
  refine Decidable.byContradiction ?_
  intro absent
  have unused : slot.references = 0 := by
    rw [h.references id slot found, List.count_eq_zero_of_not_mem absent]
  have isFresh := h.fresh id slot found unused
  rw [swept] at isFresh
  cases isFresh

/-- Without holders and new frames the table is empty. -/
theorem count_eq_zero (h : table.Held []) (swept : table.fresh = []) : table.count = 0 := by
  cases slots : table.slots with
  | nil => simp [FrameTable.count, slots]
  | cons head rest =>
    rcases head with ⟨key, slot⟩
    have found : table.slot? key = some slot := by simp [slot?, slotOf, slots]
    have unused : slot.references = 0 := by simpa using h.references key slot found
    have isFresh := h.fresh key slot found unused
    rw [swept] at isFresh
    cases isFresh

/-! ### Adding a frame -/

theorem absent_next (h : table.Held holders) : (⟨table.next⟩ : FrameId) ∉ table.keys := by
  intro mem
  exact absurd (h.issued _ mem) (Nat.lt_irrefl _)

theorem insert (h : table.Held holders) (frame : Frame) :
    (table.insert frame).2.Held holders where
  distinct := List.nodup_cons.mpr ⟨h.absent_next, h.distinct⟩
  issued := by
    intro id mem
    rcases List.mem_cons.mp mem with rfl | mem
    · exact Nat.lt_succ_self _
    · exact Nat.lt_succ_of_lt (h.issued id mem)
  references := by
    intro id slot found
    by_cases new : (⟨table.next⟩ : FrameId) = id
    · -- The new handle has never been given out, so nobody holds it.
      have unheld : id ∉ holders := fun mem => h.absent_next (new ▸ h.live id mem)
      have eq : slot = { frame } := by
        simpa [slot?, FrameTable.insert, slotOf, new] using found.symm
      simp [eq, List.count_eq_zero_of_not_mem unheld]
    · have old : table.slot? id = some slot := by
        simpa [slot?, FrameTable.insert, slotOf, new] using found
      exact h.references id slot old
  live := fun id mem => List.mem_cons_of_mem _ (h.live id mem)
  fresh := by
    intro id slot found unused
    by_cases new : (⟨table.next⟩ : FrameId) = id
    · exact new ▸ List.mem_cons_self
    · have old : table.slot? id = some slot := by
        simpa [slot?, FrameTable.insert, slotOf, new] using found
      exact List.mem_cons_of_mem _ (h.fresh id slot old unused)

/-! ### Changing one slot -/

/-- A change of one slot that keeps step with a change of the holders. -/
theorem update (h : table.Held holders) {change : FrameSlot → Option FrameSlot}
    (kept : ∀ slot slot', table.slot? id = some slot → change slot = some slot' →
      slot'.references = holders'.count id ∧ (slot'.references = 0 → id ∈ table.fresh))
    (gone : ∀ slot, table.slot? id = some slot → change slot = none → id ∉ holders')
    (live : id ∈ holders' → id ∈ table.keys)
    (others : ∀ other, other ≠ id → holders'.count other = holders.count other) :
    FrameTable.Held { table with slots := updateSlot id change table.slots } holders' where
  distinct := h.distinct.sublist (keys_updateSlot_sublist _)
  issued := fun other mem => h.issued other ((keys_updateSlot_sublist _).subset mem)
  references := by
    intro other slot' found
    by_cases same : other = id
    · subst same
      have bound := (slotOf_updateSlot_self h.distinct).symm.trans found
      rcases Option.bind_eq_some_iff.mp bound with ⟨slot, old, changed⟩
      exact (kept slot slot' old changed).1
    · have old : table.slot? other = some slot' :=
        (slotOf_updateSlot_of_ne same _).symm.trans found
      rw [others other same]
      exact h.references other slot' old
  live := by
    intro other mem
    by_cases same : other = id
    · -- A slot that the change removes would have no holder.
      subst same
      rcases exists_slotOf_of_mem (live mem) with ⟨slot, old⟩
      cases changed : change slot with
      | none => exact absurd mem (gone slot old changed)
      | some slot' =>
        have found : slotOf other (updateSlot other change table.slots) = some slot' := by
          rw [slotOf_updateSlot_self h.distinct, old]
          exact changed
        exact mem_keys_of_slotOf found
    · -- The other slots and their counts are as before.
      have counted : 0 < holders.count other := by
        rw [← others other same]
        exact List.count_pos_iff.mpr mem
      rcases exists_slotOf_of_mem (h.live other (List.count_pos_iff.mp counted)) with ⟨slot, old⟩
      have found : slotOf other (updateSlot id change table.slots) = some slot :=
        (slotOf_updateSlot_of_ne same _).trans old
      exact mem_keys_of_slotOf found
  fresh := by
    intro other slot' found unused
    by_cases same : other = id
    · subst same
      have bound := (slotOf_updateSlot_self h.distinct).symm.trans found
      rcases Option.bind_eq_some_iff.mp bound with ⟨slot, old, changed⟩
      exact (kept slot slot' old changed).2 unused
    · have old : table.slot? other = some slot' :=
        (slotOf_updateSlot_of_ne same _).symm.trans found
      exact h.fresh other slot' old unused

/-- A frame can be retained while it is live; its handle is one of the holders from then on. -/
theorem retain (h : table.Held holders) {frame : Frame} (live : table.frame? id = some frame) :
    ∃ table', table.retain? id = some (frame.depth, table') ∧ table'.Held (id :: holders) ∧
      table'.live = table.live ∧ table'.next = table.next ∧ table'.fresh = table.fresh := by
  rcases Option.map_eq_some_iff.mp live with ⟨slot, found, rfl⟩
  let change : FrameSlot → Option FrameSlot :=
    fun slot => some { slot with references := slot.references + 1 }
  refine ⟨{ table with slots := updateSlot id change table.slots }, by simp [retain?, found, change],
    h.update ?_ ?_ ?_ ?_, ?_, rfl, rfl⟩
  · rintro slot slot' old ⟨⟩
    exact ⟨by simp [h.references id slot old], fun unused => absurd unused (Nat.succ_ne_zero _)⟩
  · intro slot old impossible
    cases impossible
  · exact fun _ => mem_keys_of_slotOf found
  · exact fun other ne => List.count_cons_of_ne ne.symm
  · exact framed_updateSlot_of_kept fun slot _ => ⟨_, rfl, rfl⟩

/-- Releasing takes one occurrence of the handle from the holders.  The frame stays live exactly if
there is another one. -/
theorem release (h : table.Held (id :: holders)) :
    (table.release id).Held holders ∧
      (table.release id).live = table.live.filter fun entry => entry.1 ≠ id ∨ id ∈ holders := by
  have references (slot : FrameSlot) (old : table.slot? id = some slot) :
      slot.references = holders.count id + 1 := by
    simpa using h.references id slot old
  refine ⟨h.update ?_ ?_ (fun _ => h.live id List.mem_cons_self) ?_, ?_⟩
  · -- The slot is kept: it was counted at least twice.
    intro slot slot' old changed
    have count := references slot old
    by_cases last : slot.references ≤ 1
    · simp [last] at changed
    · simp only [last, if_false, Option.some.injEq] at changed
      subst changed
      refine ⟨by simp [count], ?_⟩
      intro unused
      simp only at unused
      omega
  · -- The slot is removed: it was the last reference, so the handle is not held any more.
    intro slot old changed mem
    have count := references slot old
    have held := List.count_pos_iff.mpr mem
    by_cases last : slot.references ≤ 1
    · omega
    · simp [last] at changed
  · intro other ne
    exact (List.count_cons_of_ne ne.symm).symm
  · refine framed_updateSlot h.distinct ?_ ?_
    · intro slot old held
      have count := references slot old
      have positive := List.count_pos_iff.mpr held
      have shared : ¬ slot.references ≤ 1 := by omega
      exact ⟨_, if_neg shared, rfl⟩
    · intro slot old unheld
      have count := references slot old
      rw [List.count_eq_zero_of_not_mem unheld] at count
      exact if_pos (by omega)

/-- Releasing a list of handles takes all of them from the holders. -/
theorem releaseAll {ids : List FrameId} (h : table.Held (ids ++ holders)) :
    (table.releaseAll ids).Held holders ∧
      (table.releaseAll ids).live =
        table.live.filter fun entry => entry.1 ∉ ids ∨ entry.1 ∈ holders := by
  induction ids generalizing table with
  | nil => exact ⟨h, (List.filter_eq_self.mpr (by simp)).symm⟩
  | cons id ids ih =>
    rcases h.release with ⟨released, live⟩
    rcases ih released with ⟨rest, restLive⟩
    refine ⟨rest, ?_⟩
    change ((table.release id).releaseAll ids).live = _
    rw [restLive, live]
    exact filter_filter_holders table.live id ids holders (List.mem_append_right _)
      List.mem_append.mp

/-! ### Sweeping -/

theorem dropUnused (h : table.Held holders) (id : FrameId) :
    (table.dropUnused id).Held holders ∧
      (table.dropUnused id).live = table.live.filter fun entry => entry.1 ≠ id ∨ id ∈ holders := by
  refine ⟨h.update ?_ ?_ (h.live id) (fun _ _ => rfl), ?_⟩
  · intro slot slot' old changed
    by_cases unused : slot.references = 0
    · simp [unused] at changed
    · simp only [unused, if_false, Option.some.injEq] at changed
      subst changed
      exact ⟨h.references id slot old, fun none => absurd none unused⟩
  · intro slot old changed mem
    have count := h.references id slot old
    have held := List.count_pos_iff.mpr mem
    have used : slot.references ≠ 0 := by omega
    simp [used] at changed
  · refine framed_updateSlot h.distinct ?_ ?_
    · intro slot old held
      have count := h.references id slot old
      have positive := List.count_pos_iff.mpr held
      have used : slot.references ≠ 0 := by omega
      exact ⟨slot, if_neg used, rfl⟩
    · intro slot old unheld
      have count := h.references id slot old
      rw [List.count_eq_zero_of_not_mem unheld] at count
      exact if_pos count

/-- A frame that is held or gone is not dropped. -/
theorem dropUnused_eq_self (h : table.Held holders) (used : id ∈ table.keys → id ∈ holders) :
    table.dropUnused id = table := by
  have same : updateSlot id (fun slot => if slot.references = 0 then none else some slot)
      table.slots = table.slots := by
    refine updateSlot_eq_self ?_
    intro slot found
    have count := h.references id slot found
    have positive := List.count_pos_iff.mpr (used (mem_keys_of_slotOf found))
    exact if_neg (by omega)
  simp only [FrameTable.dropUnused, same]

theorem foldl_dropUnused (h : table.Held holders) (ids : List FrameId) :
    (ids.foldl FrameTable.dropUnused table).Held holders ∧
      (ids.foldl FrameTable.dropUnused table).live =
        table.live.filter fun entry => entry.1 ∉ ids ∨ entry.1 ∈ holders := by
  induction ids generalizing table with
  | nil => exact ⟨h, (List.filter_eq_self.mpr (by simp)).symm⟩
  | cons id ids ih =>
    rcases h.dropUnused id with ⟨dropped, live⟩
    rcases ih dropped with ⟨rest, restLive⟩
    refine ⟨rest, ?_⟩
    rw [List.foldl_cons, restLive, live]
    exact filter_filter_holders table.live id ids holders (fun held => held) .inr

/-- A sweep removes exactly the new frames without holders. -/
theorem sweep (h : table.Held holders) :
    table.sweep.Held holders ∧
      table.sweep.live = table.live.filter fun entry => entry.1 ∉ table.fresh ∨ entry.1 ∈ holders := by
  rcases h.foldl_dropUnused table.fresh with ⟨held, live⟩
  refine ⟨⟨held.distinct, held.issued, held.references, held.live, ?_⟩, live⟩
  -- A frame without references would have been new, and so it would have been removed.
  intro id slot found unused
  have isFresh : id ∈ table.fresh := by
    rw [← fresh_foldl_dropUnused table.fresh table]
    exact held.fresh id slot found unused
  have kept : id ∈ (table.fresh.foldl FrameTable.dropUnused table).live.map Prod.fst := by
    rw [map_fst_live]
    exact mem_keys_of_slotOf found
  rw [live] at kept
  rcases List.mem_map.mp kept with ⟨entry, mem, rfl⟩
  have isHeld : entry.1 ∈ holders := by simpa [isFresh] using (List.mem_filter.mp mem).2
  have count := held.references entry.1 slot found
  have positive := List.count_pos_iff.mpr isHeld
  omega

end Held
end FrameTable
end CommandScheduler
