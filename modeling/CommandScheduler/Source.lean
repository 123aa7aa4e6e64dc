import CommandScheduler.Inspect

/-!
# Source — who a command runs for, and who hears how it went

A source is the subject that a command is resolved and executed for.  It carries a callback, the
ordered list of listeners that are told each result reported to it.
-/

namespace CommandScheduler

/-! ## Results -/

/-- What is reported when a command or a frame ends. -/
structure Result where
  ok : Bool
  value : Int32
  deriving DecidableEq

namespace Result

def success (value : Int32) : Result :=
  { ok := true, value }

/-- A failure; it always carries the value zero. -/
def failure : Result :=
  { ok := false, value := 0 }

/-- A success if there is a value, a failure otherwise. -/
def ofOption : Option Int32 → Result
  | some value => success value
  | none => failure

end Result

/-! ## Callbacks -/

/-- One receiver of results. -/
inductive Listener where
  /-- The source of this name listens to its own results. -/
  | source (name : String)
  /-- A receiver outside of all sources, known by a label. -/
  | label (text : String)
  deriving DecidableEq

/-- The listeners of one result, in the order in which they are told. -/
structure Callback where
  listeners : List Listener := []
  deriving DecidableEq

namespace Callback

def empty : Callback := {}

def single (listener : Listener) : Callback :=
  { listeners := [listener] }

/-- Tells the listeners of the first callback and then those of the second. -/
def chain (first second : Callback) : Callback :=
  { listeners := first.listeners ++ second.listeners }

def isEmpty (callback : Callback) : Bool :=
  callback.listeners.isEmpty

/-- Only whether somebody listens is shown. -/
def inspect (callback : Callback) : String :=
  Inspect.tuple "ResultCallback" [Inspect.quoted (if callback.isEmpty then "empty" else "set")]

@[simp]
theorem empty_chain (callback : Callback) : empty.chain callback = callback := rfl

@[simp]
theorem chain_empty (callback : Callback) : callback.chain empty = callback := by
  simp [chain, empty]

theorem chain_assoc (a b c : Callback) : (a.chain b).chain c = a.chain (b.chain c) := by
  simp [chain]

@[simp]
theorem isEmpty_chain (a b : Callback) : (a.chain b).isEmpty = (a.isEmpty && b.isEmpty) := by
  obtain ⟨listeners⟩ := a
  cases listeners <;> rfl

end Callback

/-! ## Sources -/

/-- The subject of a command. -/
structure Source where
  name : String
  callback : Callback := {}
  deriving DecidableEq

namespace Source

/-- A source that listens to its own results. -/
def named (name : String) : Source :=
  { name, callback := .single (.source name) }

/-- The same subject, reporting to another callback. -/
def withCallback (source : Source) (callback : Callback) : Source :=
  { source with callback }

/-- The same subject, whose results nobody hears. -/
def silenced (source : Source) : Source :=
  source.withCallback .empty

end Source
end CommandScheduler
