import Mathlib.Data.List.Infix
import Mathlib.Logic.Function.Iterate
import CommandScheduler.Proofs.Sketch

/-!
# Resolution — what the stages of a chain make of its sources

A chain whose stages only replace sources is resolved without queueing anything.  What comes of it
can be said stage by stage: the flag in force at a stage is what all stages up to it have raised,
and a modifier turns its sources into all that it yields for them, unless there is a first part of
them after which the stage has to be aborted.
-/

namespace CommandScheduler

/-- Whether the redirect does no more than replace the sources. -/
def Redirect.isPlain {V : Vocabulary} : Redirect V → Bool
  | passthrough | modifier _ => true
  | returnRun | custom _ => false

/-! ## One modifier -/

/-- All that a modifier yields for the sources, from left to right.  A failure adds nothing. -/
def Modifier.yields (apply : Modifier) (sources : List Source) : List Source :=
  sources.flatMap fun source => (apply source).toOption.getD []

namespace Modifier

variable (apply : Modifier)

theorem yields_append (before after : List Source) :
    yields apply (before ++ after) = yields apply before ++ yields apply after :=
  List.flatMap_append

theorem yields_singleton_of_ok {source : Source} {sources : List Source}
    (yielded : apply source = .ok sources) : yields apply [source] = sources := by
  simp [yields, yielded, Except.toOption]

theorem yields_singleton_of_error {source : Source} {error : CommandError}
    (failed : apply source = .error error) : yields apply [source] = [] := by
  simp [yields, failed, Except.toOption]

theorem yields_length_le {before sources : List Source} (part : before <+: sources) :
    (yields apply before).length ≤ (yields apply sources).length := by
  rcases part with ⟨after, rfl⟩
  rw [yields_append, List.length_append]
  exact Nat.le_add_right _ _

end Modifier

namespace Setting

variable {Mark : Type} (setting : Setting) (apply : Modifier) (origin : Source) (forked : Bool)

/-- Whether the last of these sources succeeds, and all of them together yield too many. -/
def limitedAfter (reached : List Source) : Bool :=
  reached.getLast?.any (fun last => (apply last).isOk) &&
    setting.forkLimit ≤ (Modifier.yields apply reached).length

/-- Whether a stage goes no further than these sources: they yield too many, or the last of them
fails outside of a fork. -/
def abortsAfter (reached : List Source) : Bool :=
  setting.limitedAfter apply reached ||
    (!forked && reached.getLast?.any fun last => !(apply last).isOk)

/-- The shortest first part of the sources after which the stage is aborted. -/
def abort? (sources : List Source) : Option (List Source) :=
  sources.inits.find? (setting.abortsAfter apply forked)

/-- What shows of applying the modifier to a source: a failure is presented to that source. -/
def shown (source : Source) : List (Event Mark) :=
  .applied source.name ::
    match apply source with
    | .ok _ => []
    | .error error => setting.presented source error forked

/-- What shows once the fork limit is reached. -/
def limited : List (Event Mark) :=
  .notice (.forkLimitReached setting.forkLimit) ::
    setting.presented origin (.forkLimitReached setting.forkLimit) forked

/-- What shows of these sources, at the last of which the fork limit may be reached. -/
def shownUpTo (reached : List Source) : List (Event Mark) :=
  reached.flatMap (setting.shown apply forked) ++
    if setting.limitedAfter apply reached then setting.limited origin forked else []

/-! ### One source more -/

@[simp]
theorem abortsAfter_nil : setting.abortsAfter apply forked [] = false := by
  simp [abortsAfter, limitedAfter]

variable {setting apply origin forked} {before : List Source} {source : Source}

theorem limitedAfter_concat_of_ok {sources : List Source} (yielded : apply source = .ok sources) :
    setting.limitedAfter apply (before ++ [source]) =
      decide (setting.forkLimit ≤ (Modifier.yields apply before).length + sources.length) := by
  simp [limitedAfter, yielded, Except.isOk, Except.toBool, Modifier.yields_append,
    Modifier.yields_singleton_of_ok apply yielded]

theorem limitedAfter_concat_of_error {error : CommandError} (failed : apply source = .error error) :
    setting.limitedAfter apply (before ++ [source]) = false := by
  simp [limitedAfter, failed, Except.isOk, Except.toBool]

theorem abortsAfter_concat_of_ok {sources : List Source} (yielded : apply source = .ok sources) :
    setting.abortsAfter apply forked (before ++ [source]) =
      setting.limitedAfter apply (before ++ [source]) := by
  simp [abortsAfter, yielded, Except.isOk, Except.toBool]

theorem abortsAfter_concat_of_error {error : CommandError} (failed : apply source = .error error) :
    setting.abortsAfter apply forked (before ++ [source]) = !forked := by
  simp [abortsAfter, limitedAfter_concat_of_error failed, failed, Except.isOk, Except.toBool]

/-! ### The first part -/

theorem abort?_eq_none_iff {sources : List Source} :
    setting.abort? apply forked sources = none ↔
      ∀ part, part <+: sources → setting.abortsAfter apply forked part = false := by
  simp [abort?, List.find?_eq_none]

theorem abortsAfter_of_abort?_eq_some {sources part : List Source}
    (aborted : setting.abort? apply forked sources = some part) :
    part <+: sources ∧ setting.abortsAfter apply forked part = true :=
  ⟨(List.mem_inits _ _).mp (List.mem_of_find?_eq_some aborted), List.find?_some aborted⟩

theorem limitedAfter_of_abort?_eq_none {sources : List Source}
    (intact : setting.abort? apply forked sources = none) :
    setting.limitedAfter apply sources = false := by
  have fits := abort?_eq_none_iff.mp intact sources (List.prefix_refl _)
  simp only [abortsAfter, Bool.or_eq_false_iff] at fits
  exact fits.1

theorem mem_of_limitedAfter {reached : List Source}
    (limits : setting.limitedAfter apply reached = true) :
    (∃ source ∈ reached, (apply source).isOk = true) ∧
      setting.forkLimit ≤ (Modifier.yields apply reached).length := by
  simp only [limitedAfter, Bool.and_eq_true, decide_eq_true_eq, Option.any_eq_true] at limits
  rcases limits with ⟨⟨last, eq, ok⟩, many⟩
  exact ⟨⟨last, List.mem_of_getLast? eq, ok⟩, many⟩

/-- If the sources yield too many in total, they do so right after a success. -/
theorem exists_limitedAfter {sources : List Source}
    (succeeds : ∃ source ∈ sources, (apply source).isOk = true)
    (many : setting.forkLimit ≤ (Modifier.yields apply sources).length) :
    ∃ part, part <+: sources ∧ setting.limitedAfter apply part = true := by
  -- Failures at the end change nothing, so they can be taken off one by one.
  induction sources using List.reverseRecOn with
  | nil => simp at succeeds
  | append_singleton before source ih =>
    cases applied : apply source with
    | ok sources =>
      refine ⟨_, List.prefix_refl _, ?_⟩
      rw [Modifier.yields_append, Modifier.yields_singleton_of_ok apply applied,
        List.length_append] at many
      rw [limitedAfter_concat_of_ok applied]
      exact decide_eq_true many
    | error error =>
      have earlier : ∃ source ∈ before, (apply source).isOk = true := by
        simpa [applied, Except.isOk, Except.toBool] using succeeds
      rw [Modifier.yields_append, Modifier.yields_singleton_of_error apply applied,
        List.append_nil] at many
      rcases ih earlier many with ⟨part, first, limits⟩
      exact ⟨part, first.trans (List.prefix_append _ _), limits⟩

/-- A stage is aborted exactly if something succeeds and the sources yield too many in total, or if
something fails outside of a fork. -/
theorem abort?_isSome_iff (setting : Setting) (apply : Modifier) (forked : Bool)
    (sources : List Source) :
    (setting.abort? apply forked sources).isSome = true ↔
      ((∃ source ∈ sources, (apply source).isOk = true) ∧
        setting.forkLimit ≤ (Modifier.yields apply sources).length) ∨
      (forked = false ∧ ∃ source ∈ sources, (apply source).isOk = false) := by
  constructor
  · intro aborted
    rcases Option.isSome_iff_exists.mp aborted with ⟨part, found⟩
    rcases abortsAfter_of_abort?_eq_some found with ⟨first, aborts⟩
    rcases (Bool.or_eq_true _ _).mp aborts with limits | fails
    · rcases mem_of_limitedAfter limits with ⟨⟨source, mem, ok⟩, many⟩
      exact .inl ⟨⟨source, first.subset mem, ok⟩,
        many.trans (Modifier.yields_length_le apply first)⟩
    · simp only [Bool.and_eq_true, Bool.not_eq_true', Option.any_eq_true] at fails
      rcases fails with ⟨unforked, last, eq, fails⟩
      exact .inr ⟨unforked, last, first.subset (List.mem_of_getLast? eq), fails⟩
  · intro h
    -- Any part after which the stage is aborted will do, as the shortest one comes no later.
    have part : ∃ part, part <+: sources ∧ setting.abortsAfter apply forked part = true := by
      rcases h with ⟨succeeds, many⟩ | ⟨rfl, source, mem, fails⟩
      · rcases exists_limitedAfter succeeds many with ⟨part, first, limits⟩
        exact ⟨part, first, by simp [abortsAfter, limits]⟩
      · rcases List.append_of_mem mem with ⟨before, after, rfl⟩
        exact ⟨before ++ [source], by simp, by simp [abortsAfter, fails]⟩
    rcases part with ⟨part, first, aborts⟩
    refine Option.isSome_iff_ne_none.mpr fun intact => ?_
    exact Bool.noConfusion (aborts.symm.trans (abort?_eq_none_iff.mp intact part first))

end Setting

namespace Context

variable {E : Embedding} {ctx : Context E} {apply : Modifier} {origin : Source} {forked : Bool}

/-- Applying a modifier to one more source. -/
theorem applyModifier_cons (before : List Source) (source : Source) (rest : List Source)
    (yielded : Array Source) (done : yielded.toList = Modifier.yields apply before) :
    ctx.applyModifier apply origin forked yielded (source :: rest) =
      let after := ctx.record (ctx.setting.shown apply forked source)
      if ctx.setting.abortsAfter apply forked (before ++ [source]) then
        (none, after.record (if ctx.setting.limitedAfter apply (before ++ [source]) then
          ctx.setting.limited origin forked else []))
      else
        after.applyModifier apply origin forked (yielded ++ Modifier.yields apply [source])
          rest := by
  have size : yielded.size = (Modifier.yields apply before).length := by
    rw [← done, Array.length_toList]
  cases applied : apply source with
  | ok sources =>
    have shown : ctx.setting.shown apply forked source =
        ([.applied source.name] : List (Event E.Mark)) := by
      simp [Setting.shown, applied]
    rw [Setting.abortsAfter_concat_of_ok applied, Setting.limitedAfter_concat_of_ok applied, shown,
      Modifier.yields_singleton_of_ok apply applied, ← size]
    let after := ctx.record [.applied source.name]
    have limits : after.limits = ctx.limits := rfl
    by_cases reached : ctx.limits.forkLimit ≤ yielded.size + sources.length
    · have presented :
          (after.notify (.forkLimitReached ctx.limits.forkLimit)).present origin
              (.forkLimitReached ctx.limits.forkLimit) forked =
            after.record (ctx.setting.limited origin forked) := by
        rw [present_eq, notify, ← record_append]
        rfl
      simp [applyModifier, applied, reached, setting, after, limits, presented]
    · simp [applyModifier, applied, reached, setting, after, limits]
  | error error =>
    have shown : ctx.record (ctx.setting.shown apply forked source) =
        (ctx.record [.applied source.name]).present source error forked := by
      rw [present_eq, ← record_append]
      simp only [Setting.shown, applied]
      rfl
    rw [Setting.abortsAfter_concat_of_error applied,
      Setting.limitedAfter_concat_of_error applied, shown,
      Modifier.yields_singleton_of_error apply applied]
    cases forked <;> simp [applyModifier, applied]

/-- Applying a modifier to some sources after others. -/
theorem applyModifier_after (before rest : List Source) (yielded : Array Source)
    (done : yielded.toList = Modifier.yields apply before)
    (goesOn : ctx.setting.abortsAfter apply forked before = false) :
    ctx.applyModifier apply origin forked yielded rest =
      match rest.inits.find? (ctx.setting.abortsAfter apply forked <| before ++ ·) with
      | none =>
        (some (Modifier.yields apply (before ++ rest)),
          ctx.record (rest.flatMap (ctx.setting.shown apply forked)))
      | some part =>
        (none, ctx.record (part.flatMap (ctx.setting.shown apply forked) ++
          if ctx.setting.limitedAfter apply (before ++ part) then
            ctx.setting.limited origin forked
          else [])) := by
  induction rest generalizing before yielded ctx with
  | nil => simp [applyModifier, goesOn, done]
  | cons source rest ih =>
    have along : (ctx.setting.abortsAfter apply forked <| before ++ ·) ∘ (source :: ·) =
        (ctx.setting.abortsAfter apply forked <| (before ++ [source]) ++ ·) := by
      funext part
      rw [Function.comp_apply, List.append_assoc, List.singleton_append]
    have find : (source :: rest).inits.find? (ctx.setting.abortsAfter apply forked <| before ++ ·) =
        (rest.inits.find? (ctx.setting.abortsAfter apply forked <| (before ++ [source]) ++ ·)).map
          (source :: ·) := by
      simp only [List.inits_cons, List.find?_cons, List.append_nil, goesOn, List.find?_map, along]
    rw [find, applyModifier_cons before source rest yielded done]
    cases aborts : ctx.setting.abortsAfter apply forked (before ++ [source]) with
    | true =>
      have first : rest.inits.find?
          (ctx.setting.abortsAfter apply forked <| (before ++ [source]) ++ ·) = some [] := by
        cases rest <;> simp [aborts]
      simp only [first, if_true, Option.map_some, List.flatMap_singleton, record_append]
    | false =>
      have same : (ctx.record (ctx.setting.shown apply forked source)).setting = ctx.setting := rfl
      have done' : (yielded ++ Modifier.yields apply [source]).toList =
          Modifier.yields apply (before ++ [source]) := by
        simp [Modifier.yields_append, done]
      simp only [Bool.false_eq_true, if_false]
      rw [ih (before ++ [source]) _ done' (same ▸ aborts), same]
      cases rest.inits.find?
        (ctx.setting.abortsAfter apply forked <| (before ++ [source]) ++ ·) with
      | none => simp [record_append]
      | some part => simp [record_append]

/-- A modifier is applied up to the first source at which the stage has to be aborted. -/
theorem applyModifier_eq (sources : List Source) :
    ctx.applyModifier apply origin forked #[] sources =
      let part? := ctx.setting.abort? apply forked sources
      (if part?.isSome then none else some (Modifier.yields apply sources),
        ctx.record (ctx.setting.shownUpTo apply origin forked (part?.getD sources))) := by
  have find : sources.inits.find? (ctx.setting.abortsAfter apply forked <| [] ++ ·) =
      ctx.setting.abort? apply forked sources := rfl
  rw [applyModifier_after [] sources #[] rfl (Setting.abortsAfter_nil ..), find]
  cases aborted : ctx.setting.abort? apply forked sources with
  | none =>
    have fits := Setting.limitedAfter_of_abort?_eq_none aborted
    simp [Setting.shownUpTo, fits]
  | some part => simp [Setting.shownUpTo]

end Context

/-! ## All stages -/

/-- What a resolution has come to. -/
structure Resolved (Mark : Type) where
  /-- The sources of the next stage, unless the resolution has been aborted. -/
  sources? : Option (List Source)
  /-- The units it has been charged. -/
  charges : Nat := 0
  events : List (Event Mark) := []

section Resolved

variable {V : Vocabulary} {Mark : Type}

/-- What a resolution comes to with the given stages, the latest of them first.  The flag in force
at a stage is raised at the start, by the stage itself or by one before it. -/
def Setting.resolved (setting : Setting) (origin : Source) (initial : Flags)
    (sources : List Source) : List (Stage V) → Resolved Mark
  | [] => { sources? := some sources }
  | stage :: passed =>
    let before := setting.resolved origin initial sources passed
    match before.sources?, stage.redirect with
    | some reached, .modifier apply =>
      let forked := initial.isForked || (stage :: passed).any (·.forked)
      let part? := setting.abort? apply forked reached
      { sources? := if part?.isSome then none else some (Modifier.yields apply reached)
        charges := before.charges + 1
        events := before.events ++ setting.shownUpTo apply origin forked (part?.getD reached) }
    | _, _ => before

/-- No stage counts after the one that has aborted the resolution. -/
theorem Setting.resolved_append {setting : Setting} {origin : Source} {initial : Flags}
    {sources : List Source} {passed : List (Stage V)} {resolved : Resolved Mark}
    (before : setting.resolved origin initial sources passed = resolved)
    (aborted : resolved.sources? = none) (later : List (Stage V)) :
    setting.resolved origin initial sources (later ++ passed) = resolved := by
  induction later with
  | nil => exact before
  | cons stage later ih => simp [Setting.resolved, ih, aborted]

/-- The stages behind some others go on with what these have made of the sources and the flag. -/
theorem Setting.resolved_after {setting : Setting} {origin : Source} {initial flags : Flags}
    {sources reached : List Source} {passed : List (Stage V)} {first : Resolved Mark}
    (before : setting.resolved origin initial sources passed = first)
    (goesOn : first.sources? = some reached)
    (raised : flags.isForked = (initial.isForked || passed.any (·.forked)))
    (later : List (Stage V)) :
    setting.resolved origin initial sources (later ++ passed) =
      let second : Resolved Mark := setting.resolved origin flags reached later
      { sources? := second.sources?
        charges := first.charges + second.charges
        events := first.events ++ second.events } := by
  induction later with
  | nil =>
    rw [List.nil_append, before]
    simp [Setting.resolved, ← goesOn]
  | cons stage later ih =>
    -- The flag in force is the same, wherever the stages are taken apart.
    have forked : (initial.isForked || (stage :: (later ++ passed)).any (·.forked)) =
        (flags.isForked || (stage :: later).any (·.forked)) := by
      rw [raised, List.any_cons, List.any_append, List.any_cons, Bool.or_assoc,
        Bool.or_comm (passed.any _), Bool.or_assoc]
    simp only [List.cons_append, Setting.resolved, ih, forked]
    split <;> simp [Nat.add_assoc]

end Resolved

namespace Context

variable {E : Embedding}

/-- What a resolution comes to in this context with the stages passed, the latest of them first. -/
def resolution (ctx : Context E) (origin : Source) (initial : Flags) (sources : List Source)
    (passed : List (Stage E)) : Resolved E.Mark :=
  ctx.setting.resolved origin initial sources passed

/-- The context after a resolution. -/
def resolvedBy (ctx : Context E) (resolved : Resolved E.Mark) : Context E :=
  { ctx with
    quota := Quota.charge^[resolved.charges] ctx.quota
    log := ctx.log ++ resolved.events }

section Walk

variable {ctx : Context E} {origin : Source} {initial : Flags} {sources : List Source}
  {stage : Stage E} {passed : List (Stage E)} {reached : List Source}

theorem resolution_passthrough (plain : stage.redirect = .passthrough) :
    ctx.resolution origin initial sources (stage :: passed) =
      ctx.resolution origin initial sources passed := by
  simp [resolution, Setting.resolved, plain]

/-- One charge more, and the events of the modifier after those before. -/
theorem charge_record_resolvedBy (resolved : Resolved E.Mark) (events : List (Event E.Mark))
    (sources? : Option (List Source)) :
    (ctx.resolvedBy resolved).charge.record events =
      ctx.resolvedBy
        { sources?, charges := resolved.charges + 1, events := resolved.events ++ events } := by
  have log : ctx.log ++ resolved.events ++ events = ctx.log ++ (resolved.events ++ events) :=
    Array.toList_inj.mp (by simp)
  simp only [resolvedBy, charge, record, Function.iterate_succ_apply', log]

theorem resolution_modifier
    (goesOn : (ctx.resolution origin initial sources passed).sources? = some reached)
    {apply : Modifier} (modifier : stage.redirect = .modifier apply) :
    ctx.resolution origin initial sources (stage :: passed) =
      let forked := initial.isForked || (stage :: passed).any (·.forked)
      let part? := ctx.setting.abort? apply forked reached
      { sources? := if part?.isSome then none else some (Modifier.yields apply reached)
        charges := (ctx.resolution origin initial sources passed).charges + 1
        events := (ctx.resolution origin initial sources passed).events ++
          ctx.setting.shownUpTo apply origin forked (part?.getD reached) } := by
  unfold resolution at goesOn ⊢
  simp only [Setting.resolved, goesOn, modifier]

theorem applyModifier_resolvedBy
    (goesOn : (ctx.resolution origin initial sources passed).sources? = some reached)
    {apply : Modifier} (modifier : stage.redirect = .modifier apply) :
    (ctx.resolvedBy (ctx.resolution origin initial sources passed)).charge.applyModifier apply
        origin (initial.isForked || (stage :: passed).any (·.forked)) #[] reached =
      ((ctx.resolution origin initial sources (stage :: passed)).sources?,
        ctx.resolvedBy (ctx.resolution origin initial sources (stage :: passed))) := by
  -- Both sides name the same sources, so only the charge and the events are left to compare.
  rw [applyModifier_eq, resolution_modifier goesOn modifier]
  exact Prod.ext rfl (charge_record_resolvedBy ..)

/-- A walk goes on after the stages passed so far, of which the latest is the first. -/
theorem prepare_after (ctx : Context E) (host : Host E) (origin : Source) (initial : Flags)
    (frame : FrameId) (input : String) (terminal : Terminal E)
    (ahead later walked passed : List (Stage E)) (plain : ahead.all (·.redirect.isPlain) = true)
    (goesOn : (ctx.resolution origin initial sources walked).sources? = some reached) :
    (ctx.resolvedBy (ctx.resolution origin initial sources walked)).prepare host origin frame
        input terminal passed (ahead ++ later) reached
        (initial.forkedIf (walked.any (·.forked))) =
      let resolved := ctx.resolution origin initial sources (ahead.reverse ++ walked)
      match resolved.sources? with
      | some left =>
        (ctx.resolvedBy resolved).prepare host origin frame input terminal
          (ahead.reverse ++ passed) later left
          (initial.forkedIf ((ahead.reverse ++ walked).any (·.forked)))
      | none => (none, ctx.resolvedBy resolved) := by
  -- The stages passed only grow, and with them the flag, so the induction is on those ahead.
  induction ahead generalizing walked passed reached with
  | nil => simp [goesOn]
  | cons stage rest ih =>
    simp only [List.all_cons, Bool.and_eq_true] at plain
    have flags : (initial.forkedIf (walked.any (·.forked))).forkedIf stage.forked =
        initial.forkedIf ((stage :: walked).any (·.forked)) := by
      rw [Flags.forkedIf_forkedIf, List.any_cons, Bool.or_comm]
    simp only [List.reverse_cons, List.append_assoc, List.cons_append, List.nil_append]
    rcases stage with ⟨forked, redirect⟩
    cases redirect with
    | passthrough =>
      have same : ctx.resolution origin initial sources (⟨forked, .passthrough⟩ :: walked) =
          ctx.resolution origin initial sources walked := resolution_passthrough rfl
      have onward := ih (⟨forked, .passthrough⟩ :: walked) (⟨forked, .passthrough⟩ :: passed)
        plain.2 (same ▸ goesOn)
      rw [same, ← flags] at onward
      exact onward
    | modifier apply =>
      have modified := applyModifier_resolvedBy goesOn
        (rfl : (⟨forked, .modifier apply⟩ : Stage E).redirect = .modifier apply)
      have isForked : ((initial.forkedIf (walked.any (·.forked))).forkedIf forked).isForked =
          (initial.isForked || (⟨forked, .modifier apply⟩ :: walked : List (Stage E)).any
            (·.forked)) := by
        rw [flags, Flags.isForked_forkedIf]
      simp only [prepare]
      rw [isForked, modified, flags]
      cases left : (ctx.resolution origin initial sources
          (⟨forked, .modifier apply⟩ :: walked)).sources? with
      | none =>
        have aborted : ctx.resolution origin initial sources
              (rest.reverse ++ ⟨forked, .modifier apply⟩ :: walked) =
            ctx.resolution origin initial sources (⟨forked, .modifier apply⟩ :: walked) :=
          Setting.resolved_append rfl left rest.reverse
        simp only [aborted, left]
      | some reached =>
        exact ih (⟨forked, .modifier apply⟩ :: walked) (⟨forked, .modifier apply⟩ :: passed)
          plain.2 left
    | returnRun => simp [Redirect.isPlain] at plain
    | custom code => simp [Redirect.isPlain] at plain

/-- A walk over stages that only replace sources, and over others behind them. -/
theorem prepare_append (ctx : Context E) (host : Host E) (origin : Source) (initial : Flags)
    (sources : List Source) (frame : FrameId) (input : String) (terminal : Terminal E)
    (ahead later passed : List (Stage E)) (plain : ahead.all (·.redirect.isPlain) = true) :
    ctx.prepare host origin frame input terminal passed (ahead ++ later) sources initial =
      let last := ctx.resolution origin initial sources ahead.reverse
      match last.sources? with
      | some left =>
        (ctx.resolvedBy last).prepare host origin frame input terminal (ahead.reverse ++ passed)
          later left (initial.forkedIf (ahead.any (·.forked)))
      | none => (none, ctx.resolvedBy last) := by
  have new : ctx.resolvedBy (ctx.resolution origin initial sources []) = ctx := by
    simp [resolution, Setting.resolved, resolvedBy]
  have walked := ctx.prepare_after host origin initial frame input terminal ahead later []
    passed plain (rfl : _ = some sources)
  simpa [new, Flags.forkedIf] using walked

theorem prepare_eq (ctx : Context E) (host : Host E) {chain : Chain E}
    (plain : chain.ahead.all (·.redirect.isPlain) = true) (origin : Source) (sources : List Source)
    (initial : Flags) (frame : FrameId) :
    ctx.prepare host origin frame chain.input chain.terminal chain.passed chain.ahead sources
        initial =
      ((ctx.resolution origin initial sources chain.ahead.reverse).sources?.map
          (·, initial.forkedIf (chain.ahead.any (·.forked))),
        ctx.resolvedBy (ctx.resolution origin initial sources chain.ahead.reverse)) := by
  have walked := ctx.prepare_append host origin initial sources frame chain.input chain.terminal
    chain.ahead [] chain.passed plain
  rw [List.append_nil] at walked
  rw [walked]
  cases left : (ctx.resolution origin initial sources chain.ahead.reverse).sources? with
  | none => simp only [left, Option.map_none]
  | some reached => simp only [left, Option.map_some, prepare]

/-- Whether a modifier aborts the resolution depends on the flag in force, the failures among its
sources and what they yield in total. -/
theorem resolution_aborts_iff
    (goesOn : (ctx.resolution origin initial sources passed).sources? = some reached)
    {apply : Modifier} (modifier : stage.redirect = .modifier apply) :
    (ctx.resolution origin initial sources (stage :: passed)).sources? = none ↔
      ((∃ source ∈ reached, (apply source).isOk = true) ∧
        ctx.limits.forkLimit ≤ (Modifier.yields apply reached).length) ∨
      ((initial.isForked || (stage :: passed).any (·.forked)) = false ∧
        ∃ source ∈ reached, (apply source).isOk = false) := by
  rw [resolution_modifier goesOn modifier]
  refine Iff.trans ?_ (ctx.setting.abort?_isSome_iff apply _ reached)
  simp only [ite_eq_left_iff, reduceCtorEq, imp_false, Decidable.not_not]

end Walk

end Context

/-- A chain whose stages only replace sources is resolved stage by stage: what its resolution gives,
charges and shows is what its stages come to one after another.  Its terminal is scheduled for the
sources that are left, unless the resolution has been aborted.  A modifier stage aborts it exactly
if one of its sources succeeds and all of them together would yield too many, or if one of them
fails and the chain is not forked by then. -/
theorem resolved_by_stages (host : Host E) {chain : Chain E}
    (plain : chain.ahead.all (·.redirect.isPlain) = true) (origin : Source) (sources : List Source)
    (initial : Flags) (frame : FrameId) (ctx : Context E) :
    let resolution := ctx.resolution origin initial sources
    let last := resolution chain.ahead.reverse
    let flags := initial.forkedIf (chain.ahead.any (·.forked))
    ctx.prepare host origin frame chain.input chain.terminal chain.passed chain.ahead sources
        initial = (last.sources?.map (·, flags), ctx.resolvedBy last) ∧
    (chain.isTerminal = false →
      let prepared := ((ctx.openScope ("prepare " ++ chain.input)).resolvedBy last).closeScope
      ctx.resolve host chain origin sources initial frame =
        match last.sources? with
        | some left => prepared.launch host chain.atTerminal left flags frame
        | none => prepared) ∧
    ∀ before stage apply reached, before ++ [stage] <+: chain.ahead →
      stage.redirect = .modifier apply → (resolution before.reverse).sources? = some reached →
      ((resolution (before ++ [stage]).reverse).sources? = none ↔
        ((∃ source ∈ reached, (apply source).isOk = true) ∧
          ctx.limits.forkLimit ≤ (Modifier.yields apply reached).length) ∨
        ((initial.isForked || (before ++ [stage]).any (·.forked)) = false ∧
          ∃ source ∈ reached, (apply source).isOk = false)) := by
  intro resolution last flags
  refine ⟨ctx.prepare_eq host plain origin sources initial frame, ?_, ?_⟩
  · intro ahead prepared
    simp only [Context.resolve, ahead, Bool.false_eq_true, if_false]
    rw [Context.prepare_eq _ host plain]
    -- Opening a scope of the profiler changes nothing that the stages look at.
    have same : (ctx.openScope ("prepare " ++ chain.input)).resolution origin initial sources
        chain.ahead.reverse = last := rfl
    rw [same]
    cases last.sources? with
    | none => rfl
    | some left => rfl
  · intro before stage apply reached _ modifier goesOn
    have raised : (before ++ [stage]).any (·.forked) =
        (stage :: before.reverse).any (·.forked) := by
      simp [Bool.or_comm]
    rw [List.reverse_concat, raised]
    exact Context.resolution_aborts_iff goesOn modifier

/-- The second modifier fails for one of two sources, which an earlier stage has forked, and reaches
the limit at the other one. -/
theorem resolved_by_stages_of_limit :
    ∃ (chain : Chain Embedding.bare) (ctx : Context .bare) (last : Resolved Embedding.bare.Mark),
      ctx.prepare .bare { name := "alex" } ⟨0⟩ chain.input chain.terminal chain.passed chain.ahead
          [{ name := "alex" }] .initial = (none, ctx.resolvedBy last) ∧
      last.charges = 2 ∧
      last.events = [
        .applied "alex", .applied "bo", .presented "bo" (.failed "no") true, .applied "cy",
        .notice (.forkLimitReached 3), .presented "alex" (.forkLimitReached 3) true] := by
  let bo : Source := { name := "bo" }
  let cy : Source := { name := "cy" }
  let split : Stage Embedding.bare := { redirect := .modifier fun _ => .ok [bo, cy] }
  let fork : Stage Embedding.bare := { forked := true, redirect := .passthrough }
  let more : Modifier := fun source =>
    if source.name = "cy" then .ok [cy, cy, cy] else .error (.failed "no")
  let last : Stage Embedding.bare := { redirect := .modifier more }
  let chain : Chain Embedding.bare :=
    .ofStages "split fork more" [split, fork, last] (.returnValue 1)
  let ctx : Context .bare := .create { forkLimit := 3 } () .off
  have plain : chain.ahead.all (·.redirect.isPlain) = true := rfl
  obtain ⟨prepared, -, aborts⟩ :=
    resolved_by_stages .bare plain { name := "alex" } [{ name := "alex" }] .initial ⟨0⟩ ctx
  have aborted : (ctx.resolution { name := "alex" } .initial [{ name := "alex" }]
      chain.ahead.reverse).sources? = none :=
    (aborts [split, fork] last more [bo, cy] (List.prefix_refl _) rfl rfl).mpr
      (.inl ⟨⟨cy, by simp, rfl⟩, by decide⟩)
  rw [aborted] at prepared
  exact ⟨chain, ctx, _, prepared, rfl, rfl⟩

end CommandScheduler
