/-!
# Vocabulary — what the embedding program contributes

The scheduler is used by a program that brings its own kinds of work.  Chains, functions and queued
actions refer to that work by codes, and a host gives the codes their meaning.  A vocabulary fixes
the codes; an embedding adds the state that the program keeps beside the queue and the marks that it
leaves in the log.
-/

namespace CommandScheduler

/-- The codes for work that the scheduler does not know itself. -/
structure Vocabulary where
  /-- Work that needs no source. -/
  Task : Type
  /-- Reusable work that is given a source, such as a line of a function. -/
  Line : Type
  /-- Terminal commands that take over scheduling for their source. -/
  Executor : Type
  /-- Stages that take over the resolution of the rest of their chain. -/
  Redirector : Type

/-- A vocabulary together with the state and the marks of the embedding program. -/
structure Embedding extends Vocabulary where
  /-- What the program remembers between its own pieces of work. -/
  Memory : Type
  /-- What the program writes into the log. -/
  Mark : Type

instance : Coe Embedding Vocabulary := ⟨Embedding.toVocabulary⟩

end CommandScheduler
