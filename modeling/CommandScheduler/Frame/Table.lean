import CommandScheduler.Frame.Basic

/-!
# FrameTable — the live frames of a context

Each queued entry holds one reference to its frame, and so does the entry being executed.  A frame
leaves the table with its last reference; one that never got a reference is swept at the end of the
step that created it.
-/

namespace CommandScheduler

/-- A live frame and how many entries hold it. -/
structure FrameSlot where
  frame : Frame
  references : Nat := 0

/-- The live frames, youngest first. -/
structure FrameTable where
  /-- The serial number of the next handle. -/
  next : Nat := 0
  slots : List (FrameId × FrameSlot) := []
  /-- The handles given out since the last sweep. -/
  fresh : List FrameId := []

namespace FrameTable

/-! ## Looking up -/

def count (table : FrameTable) : Nat :=
  table.slots.length

/-- The first slot of a handle. -/
def slotOf (id : FrameId) : List (FrameId × FrameSlot) → Option FrameSlot
  | [] => none
  | (other, slot) :: rest => if other = id then some slot else slotOf id rest

def slot? (table : FrameTable) (id : FrameId) : Option FrameSlot :=
  slotOf id table.slots

def frame? (table : FrameTable) (id : FrameId) : Option Frame :=
  (table.slot? id).map FrameSlot.frame

/-! ## Changing -/

/-- Replaces the slot of a handle, or removes it where the function gives nothing. -/
def updateSlot (id : FrameId) (change : FrameSlot → Option FrameSlot) :
    List (FrameId × FrameSlot) → List (FrameId × FrameSlot)
  | [] => []
  | (other, slot) :: rest =>
    if other = id then
      match change slot with
      | some slot => (other, slot) :: rest
      | none => rest
    else
      (other, slot) :: updateSlot id change rest

def insert (table : FrameTable) (frame : Frame) : FrameId × FrameTable :=
  let id : FrameId := ⟨table.next⟩
  (id, { next := table.next + 1
         slots := (id, { frame }) :: table.slots
         fresh := id :: table.fresh })

/-- Adds a reference to a live frame and tells its depth. -/
def retain? (table : FrameTable) (id : FrameId) : Option (Nat × FrameTable) :=
  (table.slot? id).map fun slot =>
    (slot.frame.depth,
      { table with
        slots := updateSlot id
          (fun slot => some { slot with references := slot.references + 1 }) table.slots })

/-- Gives back a reference; the frame leaves the table with its last one. -/
def release (table : FrameTable) (id : FrameId) : FrameTable :=
  { table with
    slots := updateSlot id
      (fun slot =>
        if slot.references ≤ 1 then none
        else some { slot with references := slot.references - 1 })
      table.slots }

/-- Gives back one reference for each handle of a list. -/
def releaseAll (table : FrameTable) (ids : List FrameId) : FrameTable :=
  ids.foldl release table

/-- Removes a frame that nothing refers to. -/
def dropUnused (table : FrameTable) (id : FrameId) : FrameTable :=
  { table with
    slots := updateSlot id
      (fun slot => if slot.references = 0 then none else some slot) table.slots }

/-- Removes the new frames that got no reference. -/
def sweep (table : FrameTable) : FrameTable :=
  { table.fresh.foldl dropUnused table with fresh := [] }

end FrameTable
end CommandScheduler
