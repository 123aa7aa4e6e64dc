import Mathlib.Data.List.Induction
import CommandScheduler.Chain

/-!
# Track — a chain as an array and a position

A chain is a cursor between two lists of stages.  It can also be kept as a *track*: the array of all
its links, the terminal one last, and the position of the current link.  Looking up that link can
miss the array, so it is a checked operation.

A builder adds redirect stages one by one and is finished by a terminal; the track that comes out of
it is then moved on stage by stage.  The tracks made in this way are exactly those of cursors, and
both answer every question alike.
-/

namespace CommandScheduler

/-! ## Checked operations -/

/-- What goes wrong where the scheduler relies on something that it does not look at. -/
inductive Fault where
  /-- The position of a track is beyond its links. -/
  | noLink
  /-- The index of a fan-out is beyond its arguments. -/
  | noArgument
  /-- The first of no sources is asked for. -/
  | noSource
  /-- Nothing follows a stage that was resolved. -/
  | noNext
  /-- As many stages were resolved as there are links, and the terminal is still not reached. -/
  | endless
  /-- The terminal is asked for at a redirect stage. -/
  | unresolved
  /-- The scheduler runs a link in a way that the link does not support. -/
  | unsupported
  /-- The embedding program is handed a track that no chain has. -/
  | misbuilt
  /-- Something waits in the queue that the scheduler has not put there. -/
  | stray

/-- Why a checked operation gives no value. -/
inductive Halt where
  | outOfFuel
  | fault (fault : Fault)

/-- A value, or the reason why there is none. -/
abbrev Checked (α : Type) := Except Halt α

/-- A value that is relied on to be there. -/
def Checked.ofOption {α : Type} (fault : Fault) : Option α → Checked α
  | some value => pure value
  | none => throw (.fault fault)

variable {V : Vocabulary}

/-! ## Links and tracks -/

/-- One stage of a track, the terminal included. -/
inductive Link (V : Vocabulary) where
  | redirect (stage : Stage V)
  | terminal (terminal : Terminal V)

namespace Link

def isTerminal : Link V → Bool
  | redirect _ => false
  | terminal _ => true

def isForked : Link V → Bool
  | redirect stage => stage.forked
  | terminal _ => false

/-- The stages before a terminal, if there is one at the end and nowhere else. -/
def split? : List (Link V) → Option (List (Stage V) × Terminal V)
  | [terminal last] => some ([], last)
  | redirect stage :: rest => (split? rest).map fun (stages, last) => (stage :: stages, last)
  | _ => none

theorem split?_append (stages : List (Stage V)) (last : Terminal V) :
    split? (stages.map redirect ++ [terminal last]) = some (stages, last) := by
  induction stages with
  | nil => rfl
  | cons stage rest ih => simp [split?, ih]

end Link

/-- The links of one command and the position of the current one. -/
structure Track (V : Vocabulary) where
  input : String
  links : Array (Link V)
  position : Nat

namespace Track

/-- The link at the position. -/
def link (track : Track V) : Checked (Link V) :=
  .ofOption .noLink track.links[track.position]?

def isTerminal (track : Track V) : Checked Bool :=
  return (← track.link).isTerminal

def isForked (track : Track V) : Checked Bool :=
  return (← track.link).isForked

/-- The track at the next position, if there is a link. -/
def next? (track : Track V) : Option (Track V) :=
  if track.position + 1 < track.links.size then
    some { track with position := track.position + 1 }
  else
    none

def clone (track : Track V) : Track V :=
  { input := track.input, links := track.links, position := track.position }

/-- Runs the redirect at the position for one source; nothing if the link does not support that. -/
def runModifier? {Mark : Type} (track : Track V) (source : Source) :
    Checked (Option (Except CommandError (List Source) × List (Event Mark))) := do
  match ← track.link with
  | .redirect { redirect := .passthrough, .. } => return some (.ok [source], [])
  | .redirect { redirect := .modifier apply, .. } =>
    return some (apply source, [.applied source.name])
  | .redirect { redirect := .returnRun, .. } | .redirect { redirect := .custom _, .. }
  | .terminal _ => return none

/-- Runs the command at the position for one source; nothing if the link is not a command. -/
def runExecutable? {Mark : Type} (track : Track V) (source : Source) :
    Checked (Option (Except CommandError Int32 × List (Event Mark))) := do
  match ← track.link with
  | .terminal (.command command) => return some (command.execute source)
  | _ => return none

end Track

/-! ## Building -/

/-- The links added so far. -/
structure Builder (V : Vocabulary) where
  input : String
  links : Array (Link V) := #[]

namespace Builder

def start (input : String) : Builder V := { input }

def stage (builder : Builder V) (forked : Bool) (redirect : Redirect V) : Builder V :=
  { builder with links := builder.links.push (.redirect { forked, redirect }) }

/-- Adds a stage that passes its sources through. -/
def redirect (builder : Builder V) : Builder V :=
  { builder with links := builder.links.push (.redirect { redirect := .passthrough }) }

def modify (builder : Builder V) (apply : Modifier) : Builder V :=
  builder.stage false (.modifier apply)

/-- Adds a modifier stage that forks. -/
def fork (builder : Builder V) (apply : Modifier) : Builder V :=
  builder.stage true (.modifier apply)

def custom (builder : Builder V) (forked : Bool) (code : V.Redirector) : Builder V :=
  builder.stage forked (.custom code)

/-- Adds the terminal; the track starts at the first link. -/
def finish (builder : Builder V) (terminal : Terminal V) : Track V :=
  { input := builder.input, links := builder.links.push (.terminal terminal), position := 0 }

def execute (builder : Builder V) (command : Command) : Track V :=
  builder.finish (.command command)

def executeCustom (builder : Builder V) (code : V.Executor) : Track V :=
  builder.finish (.custom code)

/-- The builders that any sequence of calls leads to. -/
inductive Begun : Builder V → Prop where
  | start (input : String) : Begun (start input)
  | stage {builder : Builder V} (forked : Bool) (redirect : Redirect V) :
      Begun builder → Begun (builder.stage forked redirect)
  | redirect {builder : Builder V} : Begun builder → Begun builder.redirect
  | modify {builder : Builder V} (apply : Modifier) : Begun builder → Begun (builder.modify apply)
  | fork {builder : Builder V} (apply : Modifier) : Begun builder → Begun (builder.fork apply)
  | custom {builder : Builder V} (forked : Bool) (code : V.Redirector) :
      Begun builder → Begun (builder.custom forked code)

/-- A builder holds redirect stages only. -/
theorem Begun.exists_stages {builder : Builder V} (begun : builder.Begun) :
    ∃ stages : List (Stage V), builder.links = (stages.map Link.redirect).toArray := by
  have push {builder : Builder V} (stage : Stage V)
      (h : ∃ stages : List (Stage V), builder.links = (stages.map Link.redirect).toArray) :
      ∃ stages : List (Stage V),
        builder.links.push (.redirect stage) = (stages.map Link.redirect).toArray := by
    rcases h with ⟨stages, eq⟩
    exact ⟨stages ++ [stage], by simp [eq]⟩
  induction begun with
  | start input => exact ⟨[], rfl⟩
  | stage | redirect | modify | fork | custom => exact push _ ‹_›

/-- Redirect stages can be added in any order. -/
theorem begun_of_stages (input : String) (stages : List (Stage V)) :
    ({ input, links := (stages.map Link.redirect).toArray } : Builder V).Begun := by
  induction stages using List.reverseRecOn with
  | nil => exact .start input
  | append_singleton stages stage ih =>
    have added := ih.stage stage.forked stage.redirect
    simpa [Builder.stage] using added

end Builder

/-- The tracks that come out of a builder and are then moved on and copied any number of times. -/
inductive Track.Obtained : Track V → Prop where
  | finish {builder : Builder V} (terminal : Terminal V) :
      builder.Begun → Obtained (builder.finish terminal)
  | execute {builder : Builder V} (command : Command) :
      builder.Begun → Obtained (builder.execute command)
  | executeCustom {builder : Builder V} (code : V.Executor) :
      builder.Begun → Obtained (builder.executeCustom code)
  | next {track next : Track V} : Obtained track → track.next? = some next → Obtained next
  | clone {track : Track V} : Obtained track → Obtained track.clone

/-! ## The track of a cursor -/

namespace Chain

/-- All stages of a chain, wherever its cursor is. -/
def stages (chain : Chain V) : List (Stage V) :=
  chain.passed.reverse ++ chain.ahead

/-- The link that the cursor is at. -/
def link (chain : Chain V) : Link V :=
  match chain.ahead with
  | [] => .terminal chain.terminal
  | stage :: _ => .redirect stage

/-- The same chain as an array and a position. -/
def track (chain : Chain V) : Track V where
  input := chain.input
  links := (chain.stages.map Link.redirect ++ [Link.terminal chain.terminal]).toArray
  position := chain.position

/-- The cursor as many stages into the chain as the position says. -/
def ofTrack? (track : Track V) : Option (Chain V) :=
  match Link.split? track.links.toList with
  | some (stages, terminal) =>
    if track.position ≤ stages.length then
      some ((ofStages track.input stages terminal).skip track.position)
    else
      none
  | none => none

theorem size_links_track (chain : Chain V) :
    chain.track.links.size = chain.position + chain.ahead.length + 1 := by
  simp only [track, stages, position, List.size_toArray, List.length_append, List.length_map,
    List.length_reverse, List.length_singleton]

theorem position_lt_size (chain : Chain V) : chain.track.position < chain.track.links.size := by
  rw [size_links_track]
  exact Nat.lt_succ_of_le (Nat.le_add_right _ _)

/-- The last link is a terminal, and no other one is. -/
theorem isTerminal_iff_last (chain : Chain V) {i : Nat} {link : Link V}
    (found : chain.track.links[i]? = some link) :
    link.isTerminal = true ↔ i + 1 = chain.track.links.size := by
  simp only [track, List.getElem?_toArray, List.getElem?_append, List.size_toArray,
    List.length_append, List.length_map, List.length_singleton] at found ⊢
  split at found
  · rename_i before
    rw [List.getElem?_map, Option.map_eq_some_iff] at found
    rcases found with ⟨stage, -, rfl⟩
    simp only [Link.isTerminal, Bool.false_eq_true, false_iff]
    omega
  · rw [List.getElem?_singleton] at found
    split at found
    · cases found
      simp only [Link.isTerminal, true_iff]
      omega
    · cases found

@[simp]
theorem input_track (chain : Chain V) : chain.track.input = chain.input := rfl

@[simp]
theorem link_track (chain : Chain V) : chain.track.link = pure chain.link := by
  rcases chain with ⟨input, passed, _ | ⟨stage, rest⟩, terminal⟩ <;>
    simp [track, stages, Track.link, link, position, Checked.ofOption]

@[simp]
theorem isTerminal_track (chain : Chain V) : chain.track.isTerminal = pure chain.isTerminal := by
  rcases chain with ⟨input, passed, _ | ⟨stage, rest⟩, terminal⟩ <;>
    simp [Track.isTerminal, link, Link.isTerminal, isTerminal]

@[simp]
theorem isForked_track (chain : Chain V) : chain.track.isForked = pure chain.isForked := by
  rcases chain with ⟨input, passed, _ | ⟨stage, rest⟩, terminal⟩ <;>
    simp [Track.isForked, link, Link.isForked, isForked]

@[simp]
theorem next?_track (chain : Chain V) : chain.track.next? = chain.next?.map track := by
  rcases chain with ⟨input, passed, _ | ⟨stage, rest⟩, terminal⟩
  · simp [Track.next?, next?, track, stages, position]
  · simp [Track.next?, next?, track, stages, position]

/-- A redirect is run as it is at the cursor, and where it is not supported, both say so.  A
modifier supports it. -/
theorem runModifier?_track {Mark : Type} (chain : Chain V) (source : Source) :
    ∃ answer?, chain.track.runModifier? source = pure answer? ∧
      answer?.getD (.error .unsupported, []) = (chain.runModifier source :
        Except CommandError (List Source) × List (Event Mark)) ∧
      ((∃ forked apply, chain.link = .redirect ⟨forked, .modifier apply⟩) →
        answer?.isSome = true) := by
  rcases chain with ⟨input, passed, _ | ⟨⟨forked, redirect⟩, rest⟩, terminal⟩
  · exact ⟨none, by simp [Track.runModifier?, link], rfl, by simp [link]⟩
  · cases redirect <;>
      exact ⟨_, by simp [Track.runModifier?, link]; rfl, rfl, by simp [link]⟩

/-- So is a terminal. -/
theorem runExecutable?_track {Mark : Type} (chain : Chain V) (source : Source) :
    ∃ answer?, chain.track.runExecutable? source = pure answer? ∧
      answer?.getD (.error .unsupported, []) = (chain.runExecutable source :
        Except CommandError Int32 × List (Event Mark)) ∧
      (chain.isTerminal = true → chain.terminal.isCommand = true → answer?.isSome = true) := by
  rcases chain with ⟨input, passed, _ | ⟨stage, rest⟩, terminal⟩
  · cases terminal <;>
      exact ⟨_, by simp [Track.runExecutable?, link]; rfl, rfl, by simp [Terminal.isCommand]⟩
  · exact ⟨none, by simp [Track.runExecutable?, link], rfl, by simp [isTerminal]⟩

/-- Moving over the first stages puts them behind the cursor. -/
theorem skip_append (input : String) (passed stages ahead : List (Stage V))
    (terminal : Terminal V) :
    skip stages.length { input, passed, ahead := stages ++ ahead, terminal } =
      { input, passed := stages.reverse ++ passed, ahead, terminal } := by
  induction stages generalizing passed with
  | nil => rfl
  | cons stage rest ih => simpa [skip, next?] using ih (stage :: passed)

@[simp]
theorem ofTrack?_track (chain : Chain V) : ofTrack? chain.track = some chain := by
  rcases chain with ⟨input, passed, ahead, terminal⟩
  have split := Link.split?_append (passed.reverse ++ ahead) terminal
  have within : passed.length ≤ (passed.reverse ++ ahead).length := by simp
  have skipped : skip passed.length (ofStages input (passed.reverse ++ ahead) terminal) =
      { input, passed, ahead, terminal } := by
    simpa [ofStages] using skip_append input [] passed.reverse ahead terminal
  simp only [ofTrack?, track, stages, position, split, within, if_true, skipped]

theorem track_injective : Function.Injective (track : Chain V → Track V) := by
  intro chain chain' same
  have eq : some chain = some chain' := by
    rw [← ofTrack?_track, ← ofTrack?_track, same]
  exact Option.some.inj eq

/-! ## What a builder gives -/

/-- The track of each cursor can be obtained: its stages are added, and then those behind the cursor
are passed. -/
theorem obtained_track (chain : Chain V) : chain.track.Obtained := by
  rcases chain with ⟨input, passed, ahead, terminal⟩
  induction passed generalizing ahead with
  | nil =>
    have finished := Track.Obtained.finish terminal (Builder.begun_of_stages input ahead)
    simpa [track, stages, position, Builder.finish] using finished
  | cons stage passed ih =>
    refine (ih (stage :: ahead)).next ?_
    rw [next?_track]
    rfl

end Chain

namespace Track

/-- What comes out of a builder is the track of a cursor. -/
theorem Obtained.exists_chain {track : Track V} (obtained : track.Obtained) :
    ∃ chain : Chain V, chain.track = track := by
  have finished {builder : Builder V} (terminal : Terminal V) (begun : builder.Begun) :
      ∃ chain : Chain V, chain.track = builder.finish terminal := by
    rcases begun.exists_stages with ⟨stages, eq⟩
    refine ⟨.ofStages builder.input stages terminal, ?_⟩
    simp [Chain.track, Chain.stages, Chain.ofStages, Chain.position, Builder.finish, eq]
  induction obtained with
  | finish terminal begun => exact finished terminal begun
  | execute command begun => exact finished (.command command) begun
  | executeCustom code begun => exact finished (.custom code) begun
  | @next track next _ moved ih =>
    rcases ih with ⟨chain, rfl⟩
    rw [Chain.next?_track] at moved
    rcases Option.map_eq_some_iff.mp moved with ⟨after, -, rfl⟩
    exact ⟨after, rfl⟩
  | clone _ ih => exact ih

theorem obtained_iff {track : Track V} :
    track.Obtained ↔ ∃ chain : Chain V, chain.track = track := by
  refine ⟨Obtained.exists_chain, ?_⟩
  rintro ⟨chain, rfl⟩
  exact chain.obtained_track

end Track
end CommandScheduler
