import CommandScheduler.Proofs.Confined
import CommandScheduler.Proofs.Echo

/-!
# Hearing — what a callback hears of a step

A callback that is given to a root invocation travels with the frames and sources of a returning
chain.  If no source of a program brings it along by itself, the resolution of a chain can do only a
few things for it: tell it a result for each source at a returning terminal, hand it to one
execution, hand it to the calls of a function, or leave it with the frame.
-/

namespace CommandScheduler

/-! ## What a callback hears -/

namespace Callback

variable {Mark : Type} {watched other first second : Callback}

/-- Whether the event tells a listener of the callback. -/
def hears (watched : Callback) : Event Mark → Bool
  | .fired listener _ => decide (listener ∈ watched.listeners)
  | _ => false

/-- What the callback hears. -/
def heard (watched : Callback) (events : List (Event Mark)) : List (Event Mark) :=
  events.filter watched.hears

/-- No listener is one of the watched callback. -/
def Excludes (other watched : Callback) : Prop :=
  ∀ listener ∈ other.listeners, listener ∉ watched.listeners

/-- The watched callback is a part, and the other listeners are not from it. -/
def Includes (other watched : Callback) : Prop :=
  other.listeners.filter (· ∈ watched.listeners) = watched.listeners

theorem heard_append (watched : Callback) (events events' : List (Event Mark)) :
    watched.heard (events ++ events') = watched.heard events ++ watched.heard events' :=
  List.filter_append _ _

/-- All that a callback hears is observable. -/
theorem heard_observable (watched : Callback) (events : List (Event Mark)) :
    watched.heard (events.filter Event.isObservable) = watched.heard events := by
  rw [heard, List.filter_filter]
  refine List.filter_congr ?_
  intro event _
  cases event <;> simp [hears, Event.isObservable]

theorem heard_fire (watched other : Callback) (result : Result) :
    watched.heard (other.fire result : List (Event Mark)) =
      (other.listeners.filter (· ∈ watched.listeners)).map (Event.fired · result) := by
  rw [heard, fire, List.filter_map]
  rfl

theorem Excludes.filter_eq_nil (h : other.Excludes watched) :
    other.listeners.filter (· ∈ watched.listeners) = [] :=
  List.filter_eq_nil_iff.mpr fun listener mem => by simpa using h listener mem

theorem Excludes.heard_fire (h : other.Excludes watched) (result : Result) :
    watched.heard (other.fire result : List (Event Mark)) = [] := by
  rw [Callback.heard_fire, h.filter_eq_nil, List.map_nil]

theorem Includes.heard_fire (h : other.Includes watched) (result : Result) :
    watched.heard (other.fire result : List (Event Mark)) = watched.fire result := by
  rw [Callback.heard_fire, h]
  rfl

theorem Excludes.chain (h : first.Excludes watched) (h' : second.Excludes watched) :
    (first.chain second).Excludes watched := by
  intro listener mem
  exact (List.mem_append.mp mem).elim (h listener) (h' listener)

theorem Excludes.chain_includes (h : first.Excludes watched) (h' : second.Includes watched) :
    (first.chain second).Includes watched := by
  rw [Includes, Callback.chain, List.filter_append, h.filter_eq_nil, List.nil_append]
  exact h'

theorem includes_self (watched : Callback) : watched.Includes watched :=
  List.filter_eq_self.mpr fun listener mem => by simpa using mem

end Callback

/-- The source does not bring the callback along by itself. -/
def Source.Avoids (watched : Callback) (source : Source) : Prop :=
  source.callback.Excludes watched

/-! ## Programs that do not bring a callback along -/

/-- Sources that avoid a callback are replaced by such sources. -/
def Modifier.Avoids (watched : Callback) (apply : Modifier) : Prop :=
  ∀ source sources, source.Avoids watched → apply source = .ok sources →
    ∀ yielded ∈ sources, yielded.Avoids watched

def Redirect.Avoids {V : Vocabulary} (watched : Callback) : Redirect V → Prop
  | .modifier apply => Modifier.Avoids watched apply
  | .passthrough | .returnRun | .custom _ => True

section Avoids

variable {V : Vocabulary}

mutual

def Terminal.Avoids (watched : Callback) : Terminal V → Prop
  | .call function => function.Avoids watched
  | .command _ | .returnValue _ | .returnFailure | .custom _ => True

def Function.Avoids (watched : Callback) : Function V → Prop
  | ⟨_, lines⟩ => linesAvoid watched lines

/-- All lines avoid the callback. -/
def linesAvoid (watched : Callback) : List (Line V) → Prop
  | [] => True
  | line :: rest => line.Avoids watched ∧ linesAvoid watched rest

def Line.Avoids (watched : Callback) : Line V → Prop
  | .chain chain => chain.Avoids watched
  | .custom _ => True

/-- No stage of the chain, from its cursor on, yields a source that brings the callback along. -/
def Chain.Avoids (watched : Callback) : Chain V → Prop
  | ⟨_, _, ahead, terminal⟩ =>
    (∀ stage ∈ ahead, stage.redirect.Avoids watched) ∧ terminal.Avoids watched

end

theorem Function.Avoids.line {watched : Callback} {function : Function V}
    (h : function.Avoids watched) : ∀ line ∈ function.lines, line.Avoids watched := by
  rcases function with ⟨id, lines⟩
  replace h : linesAvoid watched lines := h
  induction lines with
  | nil => simp
  | cons first rest ih =>
    intro line mem
    rcases List.mem_cons.mp mem with rfl | mem
    · exact h.1
    · exact ih h.2 line mem

end Avoids

/-! ## What is written on the tape -/

section Tapes

variable {Mark : Type} {watched : Callback} {setting : Setting}

/-- What a callback has heard so far. -/
def Tape.heard (watched : Callback) (tape : Tape Mark) : List (Event Mark) :=
  watched.heard tape.events

theorem Tape.heard_write (watched : Callback) (tape : Tape Mark) (events : List (Event Mark)) :
    (tape.write events).heard watched = tape.heard watched ++ watched.heard events := by
  rw [heard, write, Callback.heard_append, Callback.heard_observable]
  rfl

theorem Setting.heard_traced (watched : Callback) (setting : Setting) (event : TraceEvent) :
    watched.heard (setting.traced event : List (Event Mark)) = [] := by
  unfold traced
  cases setting.sink? <;> rfl

theorem Setting.heard_presented (watched : Callback) (setting : Setting) (source : Source)
    (error : CommandError) (forked : Bool) :
    watched.heard (setting.presented source error forked : List (Event Mark)) = [] := by
  rw [presented, Callback.heard_append, heard_traced]
  rfl

/-- Modifiers tell the callback nothing and yield sources that avoid it. -/
theorem Setting.modify_avoids {apply : Modifier} (avoids : Modifier.Avoids watched apply)
    (origin : Source) (forked : Bool) {yielded sources : List Source}
    (old : ∀ source ∈ yielded, source.Avoids watched)
    (new : ∀ source ∈ sources, source.Avoids watched) (tape : Tape Mark) :
    (setting.modify apply origin forked yielded sources tape).2.heard watched =
        tape.heard watched ∧
      ∀ result, (setting.modify apply origin forked yielded sources tape).1 = some result →
        ∀ source ∈ result, source.Avoids watched := by
  -- What has been yielded so far avoids the callback, and so does every source still to come.
  induction sources generalizing yielded tape with
  | nil =>
    refine ⟨rfl, ?_⟩
    rintro result ⟨⟩
    exact old
  | cons source rest ih =>
    have later : ∀ source ∈ rest, source.Avoids watched := fun other mem =>
      new other (List.mem_cons_of_mem _ mem)
    have silent (tape : Tape Mark) (source : Source) (error : CommandError) :
        (tape.write (setting.presented source error forked)).heard watched =
          tape.heard watched := by
      rw [Tape.heard_write, heard_presented, List.append_nil]
    have applied : (tape.write [.applied source.name]).heard watched = tape.heard watched :=
      (Tape.heard_write ..).trans (List.append_nil _)
    simp only [modify]
    cases outcome : apply source with
    | ok sources =>
      dsimp only
      split
      · exact ⟨(silent _ _ _).trans applied, by simp⟩
      · have both : ∀ other ∈ yielded ++ sources, other.Avoids watched := by
          intro other mem
          rcases List.mem_append.mp mem with mem | mem
          · exact old other mem
          · exact avoids source sources (new source List.mem_cons_self) outcome other mem
        rcases ih both later (tape.write [.applied source.name]) with ⟨heard, free⟩
        exact ⟨heard.trans applied, free⟩
    | error error =>
      dsimp only
      split
      · rcases ih old later
          ((tape.write [.applied source.name]).write (setting.presented source error forked)) with
          ⟨heard, free⟩
        exact ⟨heard.trans ((silent _ _ _).trans applied), free⟩
      · exact ⟨(silent _ _ _).trans applied, by simp⟩

/-- At a returning terminal the body's callback is told the result once for each source. -/
theorem Body.heard_giveBack (body : Body) (result : Result) {sources : List Source}
    (free : ∀ source ∈ sources, source.Avoids watched) (tape : Tape Mark) :
    (body.giveBack result sources tape).1.heard watched = tape.heard watched ++
      (List.replicate sources.length (watched.heard (body.callback.fire result))).flatten := by
  unfold giveBack
  induction sources generalizing tape with
  | nil => simp
  | cons source rest ih =>
    have first : watched.heard (source.callback.fire result : List (Event Mark)) = [] :=
      (free source List.mem_cons_self).heard_fire result
    rw [List.foldl_cons, ih fun other mem => free other (List.mem_cons_of_mem _ mem)]
    simp [Tape.heard_write, first, List.replicate_succ]

/-- An execution tells the source's callback one result. -/
theorem Setting.heard_execute (watched : Callback) (setting : Setting) (body : Body) (input : String)
    (command : Command) (flags : Flags) (source : Source) (tape : Tape Mark) :
    ∃ result, (setting.execute body input command flags source tape).1.heard watched =
      tape.heard watched ++ watched.heard (source.callback.fire result) := by
  have charged (events : List (Event Mark)) :
      (tape.charge.write events).heard watched = tape.heard watched ++ watched.heard events :=
    Tape.heard_write watched tape.charge events
  have started : watched.heard (if command.quiet then [] else [.executed source.name] :
      List (Event Mark)) = [] := by
    cases command.quiet <;> rfl
  cases outcome : command.run source with
  | ok value =>
    refine ⟨.success value, ?_⟩
    simp [execute, Command.execute, outcome, Tape.heard_write, charged, Callback.heard_append,
      started, heard_traced]
  | error error =>
    refine ⟨.failure, ?_⟩
    simp [execute, Command.execute, outcome, Tape.heard_write, charged, Callback.heard_append,
      started, heard_presented]

end Tapes

end CommandScheduler
