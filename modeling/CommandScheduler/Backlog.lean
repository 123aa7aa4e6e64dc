import CommandScheduler.Action

/-!
# Backlog — the entries waiting to run

A list of entries that knows its own length, so that the bound on the queue is checked in constant
time.
-/

namespace CommandScheduler

/-- The pending entries, next one first. -/
structure Backlog (V : Vocabulary) where
  entries : List (Entry V) := []
  size : Nat := entries.length
  size_eq : size = entries.length := by rfl

namespace Backlog

variable {V : Vocabulary}

def empty : Backlog V := {}

def pop? (backlog : Backlog V) : Option (Entry V × Backlog V) :=
  match h : backlog.entries with
  | [] => none
  | entry :: rest =>
    some (entry, { entries := rest
                   size := backlog.size - 1
                   size_eq := by simp [backlog.size_eq, h] })

/-- Puts entries in front, in their order. -/
def prepend (entries : Array (Entry V)) (backlog : Backlog V) : Backlog V :=
  { entries := entries.toList ++ backlog.entries
    size := entries.size + backlog.size
    size_eq := by simp [backlog.size_eq] }

/-- The entries at the front that are at `depth` or deeper, up to the first shallower one. -/
def front (depth : Nat) (backlog : Backlog V) : List (Entry V) :=
  backlog.entries.takeWhile (depth ≤ ·.depth)

/-- What is left without the entries at the front that are at `depth` or deeper. -/
def dropFront (depth : Nat) (backlog : Backlog V) : Backlog V :=
  { entries := backlog.entries.dropWhile (depth ≤ ·.depth)
    size := backlog.size - (backlog.front depth).length
    size_eq := by
      have h := congrArg List.length
        (List.takeWhile_append_dropWhile (p := fun e : Entry V => decide (depth ≤ e.depth))
          (l := backlog.entries))
      rw [List.length_append] at h
      rw [backlog.size_eq, front]
      omega }

end Backlog
end CommandScheduler
