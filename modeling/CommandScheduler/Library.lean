import CommandScheduler.Chain

/-!
# Library — functions registered by name

A library holds at most one function of each name, in the order of the names.  Names are compared
character by character, which is also the order of their UTF-8 bytes.
-/

namespace CommandScheduler

/-- Whether the names of functions are in strictly ascending order. -/
def Ascending {V : Vocabulary} (functions : List (Function V)) : Prop :=
  functions.Pairwise (·.id < ·.id)

/-- Functions in the order of their names. -/
structure Library (V : Vocabulary) where
  functions : List (Function V) := []
  ascending : Ascending functions := by exact List.Pairwise.nil

namespace Library

variable {V : Vocabulary}

def empty : Library V := {}

def get? (library : Library V) (id : String) : Option (Function V) :=
  library.functions.find? (·.id == id)

/-! ## Registering -/

/-- Puts a function at its place, instead of one of the same name. -/
def insertSorted (function : Function V) : List (Function V) → List (Function V)
  | [] => [function]
  | other :: rest =>
    if function.id < other.id then function :: other :: rest
    else if function.id = other.id then function :: rest
    else other :: insertSorted function rest

theorem mem_insertSorted {function other : Function V} {functions : List (Function V)}
    (h : other ∈ insertSorted function functions) : other = function ∨ other ∈ functions := by
  induction functions with
  | nil => simpa [insertSorted] using h
  | cons first rest ih =>
    unfold insertSorted at h
    split at h
    · simpa using h
    · split at h
      · rcases List.mem_cons.mp h with rfl | h
        · exact .inl rfl
        · exact .inr (List.mem_cons_of_mem _ h)
      · rcases List.mem_cons.mp h with rfl | h
        · exact .inr List.mem_cons_self
        · exact (ih h).imp_right (List.mem_cons_of_mem _)

theorem ascending_insertSorted (function : Function V) {functions : List (Function V)}
    (h : Ascending functions) : Ascending (insertSorted function functions) := by
  induction functions with
  | nil => exact List.pairwise_singleton _ _
  | cons first rest ih =>
    obtain ⟨above, tail⟩ := List.pairwise_cons.mp h
    unfold insertSorted
    split
    · -- The new name is the smallest one.
      rename_i below
      refine List.pairwise_cons.mpr ⟨fun other mem => ?_, h⟩
      rcases List.mem_cons.mp mem with rfl | mem
      · exact below
      · exact String.lt_trans below (above other mem)
    · split
      · -- The new function takes the place of one of the same name.
        rename_i same
        exact List.pairwise_cons.mpr ⟨fun other mem => same ▸ above other mem, tail⟩
      · -- The new name comes later.
        rename_i notBelow notSame
        have later : first.id < function.id :=
          Std.lt_of_le_of_ne (String.not_lt.mp notBelow) (Ne.symm notSame)
        refine List.pairwise_cons.mpr ⟨fun other mem => ?_, ih tail⟩
        rcases mem_insertSorted mem with rfl | mem
        · exact later
        · exact above other mem

/-- Registers a function and gives back the one it replaces. -/
def register (library : Library V) (function : Function V) : Option (Function V) × Library V :=
  (library.get? function.id,
    { functions := insertSorted function library.functions
      ascending := ascending_insertSorted function library.ascending })

/-! ## Listing -/

def size (library : Library V) : Nat :=
  library.functions.length

def ids (library : Library V) : List String :=
  library.functions.map Function.id

end Library
end CommandScheduler
