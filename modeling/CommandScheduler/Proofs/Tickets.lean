import CommandScheduler.Proofs.Reachable

/-!
# Tickets — what becomes of every action that is queued

Every call that queues an action is numbered.  A ledger kept beside the context says which calls
were refused, gives the others tickets, and follows each ticket from the queue to where it ends: its
entry is executed, or removed by a rollback, or removed by the overflow.

The ledger is moved by the same operations as the context, so it says for each moment of a root
invocation where every entry is.
-/

namespace CommandScheduler

/-! ## Ledgers -/

/-- How an entry leaves the queue. -/
inductive Fate where
  | executed
  /-- Removed by a rollback. -/
  | discarded
  /-- Removed by the overflow. -/
  | spilled
  deriving DecidableEq

/-- An accepted entry, with the number of the call that queued it. -/
structure Ticket (V : Vocabulary) where
  number : Nat
  entry : Entry V

/-- All calls so far that queued an action, and what has become of them. -/
structure Ledger (V : Vocabulary) where
  /-- The number of calls, which is the number of the next one. -/
  calls : Nat := 0
  refused : List Nat := []
  accepted : List (Ticket V) := []
  staging : List (Ticket V) := []
  pending : List (Ticket V) := []
  /-- The tickets that have left the queue, in the order in which they left. -/
  departed : List (Ticket V × Fate) := []

namespace Ledger

section Moves

variable {V : Vocabulary} (ledger : Ledger V)

/-- The tickets of everything that waits to be executed. -/
def waiting : List (Ticket V) :=
  ledger.staging ++ ledger.pending

def refuse : Ledger V :=
  { ledger with
    calls := ledger.calls + 1
    refused := ledger.refused ++ [ledger.calls] }

def accept (entry : Entry V) : Ledger V :=
  { ledger with
    calls := ledger.calls + 1
    accepted := ledger.accepted ++ [⟨ledger.calls, entry⟩]
    staging := ledger.staging ++ [⟨ledger.calls, entry⟩] }

def spill : Ledger V :=
  { ledger with
    staging := []
    pending := []
    departed := ledger.departed ++ ledger.waiting.map (·, .spilled) }

def promote : Ledger V :=
  { ledger with
    staging := []
    pending := ledger.waiting }

def execute : Ledger V :=
  { ledger with
    pending := ledger.pending.drop 1
    departed := ledger.departed ++ (ledger.pending.take 1).map (·, .executed) }

/-- Only pending entries are rolled back, never staged ones. -/
def rollBack : Scope → Ledger V
  | .clearAll =>
    { ledger with
      pending := []
      departed := ledger.departed ++ ledger.pending.map (·, .discarded) }
  | .discardFrom depth =>
    { ledger with
      pending := ledger.pending.dropWhile (depth ≤ ·.entry.depth)
      departed := ledger.departed ++
        (ledger.pending.takeWhile (depth ≤ ·.entry.depth)).map (·, .discarded) }

end Moves

variable {E : Embedding}

/-- Books a call that queues an action: it is refused if the context has overflowed by then or if
the frame was released, and accepted otherwise. -/
def queue (ledger : Ledger E) (ctx : Context E) (id : FrameId) (action : Action E) : Ledger E :=
  if (ctx.enqueue id action).overflowed then
    ledger.spill.refuse
  else
    match ctx.frame? id with
    | some frame => ledger.accept { depth := frame.depth, frame := id, action }
    | none => ledger.refuse

end Ledger

variable {E : Embedding}

/-- Any number of operations on a context, with the ledger kept beside it.  An operation that leaves
the queue alone leaves the ledger alone. -/
inductive Books (ctx : Context E) (ledger : Ledger E) : Context E → Ledger E → Prop where
  | refl : Books ctx ledger ctx ledger
  | queue {ctx' : Context E} {ledger' : Ledger E} (id : FrameId) (action : Action E) :
      Books ctx ledger ctx' ledger' →
        Books ctx ledger (ctx'.enqueue id action) (ledger'.queue ctx' id action)
  | rollBack {ctx' : Context E} {ledger' : Ledger E} (scope : Scope) :
      Books ctx ledger ctx' ledger' →
        Books ctx ledger (ctx'.rollBack scope) (ledger'.rollBack scope)
  | promote {ctx' : Context E} {ledger' : Ledger E} :
      Books ctx ledger ctx' ledger' → Books ctx ledger ctx'.promote ledger'.promote
  | execute {ctx' started : Context E} {ledger' : Ledger E} {entry : Entry E} :
      Books ctx ledger ctx' ledger' → ctx'.pop? = some (entry, started) →
        Books ctx ledger started ledger'.execute
  | aside {ctx' ctx'' : Context E} {ledger' : Ledger E} :
      Books ctx ledger ctx' ledger' → ctx''.staging = ctx'.staging →
        ctx''.pending = ctx'.pending → ctx''.overflowed = ctx'.overflowed →
          Books ctx ledger ctx'' ledger'

/-! ## Every ticket is in one place -/

namespace Ledger

/-- The ledger agrees with the queue, and accounts for every call and every ticket once. -/
structure Balances (ledger : Ledger E) (ctx : Context E) : Prop where
  staging : ledger.staging.map Ticket.entry = ctx.staging.toList
  pending : ledger.pending.map Ticket.entry = ctx.pending.entries
  calls : (ledger.accepted.map Ticket.number ++ ledger.refused).Perm (List.range ledger.calls)
  tickets : ledger.accepted.Perm (ledger.waiting ++ ledger.departed.map Prod.fst)
  cleared : ctx.overflowed = true → ledger.waiting = []

/-- Tickets that leave the queue are counted among the departed ones. -/
theorem perm_depart {V : Vocabulary} {accepted waiting gone kept : List (Ticket V)}
    {departed : List (Ticket V × Fate)} (h : accepted.Perm (waiting ++ departed.map Prod.fst))
    (split : waiting.Perm (gone ++ kept)) (fate : Fate) :
    accepted.Perm (kept ++ (departed ++ gone.map (·, fate)).map Prod.fst) := by
  have forget : (gone.map (·, fate)).map Prod.fst = gone := by
    simp [Function.comp_def]
  rw [List.map_append, forget]
  calc
    List.Perm accepted (waiting ++ departed.map Prod.fst) := h
    List.Perm _ ((gone ++ kept) ++ departed.map Prod.fst) := split.append_right _
    List.Perm _ (kept ++ (gone ++ departed.map Prod.fst)) := by
      rw [List.append_assoc]
      exact List.perm_append_comm_assoc _ _ _
    List.Perm _ (kept ++ (departed.map Prod.fst ++ gone)) :=
      List.perm_append_comm.append_left kept

namespace Balances

variable {ledger : Ledger E} {ctx : Context E}

theorem create (limits : Limits) (memory : E.Memory) (profiler : Profiler) :
    ({} : Ledger E).Balances (Context.create limits memory profiler) where
  staging := rfl
  pending := rfl
  calls := List.Perm.refl _
  tickets := List.Perm.refl _
  cleared := fun _ => rfl

/-- Only the queue and the overflow mark matter. -/
theorem aside (h : ledger.Balances ctx) {ctx' : Context E} (staging : ctx'.staging = ctx.staging)
    (pending : ctx'.pending = ctx.pending) (overflowed : ctx'.overflowed = ctx.overflowed) :
    ledger.Balances ctx' where
  staging := staging ▸ h.staging
  pending := pending ▸ h.pending
  calls := h.calls
  tickets := h.tickets
  cleared := overflowed ▸ h.cleared

/-- The numbers of calls are used up one by one. -/
theorem calls_succ (h : ledger.Balances ctx) :
    (ledger.accepted.map Ticket.number ++ (ledger.refused ++ [ledger.calls])).Perm
      (List.range (ledger.calls + 1)) := by
  rw [List.range_succ, ← List.append_assoc]
  exact h.calls.append_right _

theorem refuse (h : ledger.Balances ctx) : ledger.refuse.Balances ctx :=
  { h with calls := h.calls_succ }

theorem accept (h : ledger.Balances ctx) (intact : ctx.overflowed = false) (frames : FrameTable)
    (entry : Entry E) :
    (ledger.accept entry).Balances { ctx with frames, staging := ctx.staging.push entry } where
  staging := by simp [Ledger.accept, h.staging]
  pending := h.pending
  calls := by
    have last : ((ledger.accepted.map Ticket.number ++ [ledger.calls]) ++ ledger.refused).Perm
        (ledger.accepted.map Ticket.number ++ (ledger.refused ++ [ledger.calls])) := by
      rw [List.append_assoc]
      exact List.perm_append_comm.append_left _
    simpa [Ledger.accept] using last.trans h.calls_succ
  tickets := by
    let ticket : Ticket E := ⟨ledger.calls, entry⟩
    calc
      List.Perm (ledger.accepted ++ [ticket]) ([ticket] ++ ledger.accepted) :=
        List.perm_append_comm
      List.Perm _ ([ticket] ++ (ledger.waiting ++ ledger.departed.map Prod.fst)) :=
        h.tickets.append_left _
      -- The new ticket stands between the staged and the pending ones.
      List.Perm _ ((ledger.staging ++ [ticket] ++ ledger.pending) ++ ledger.departed.map Prod.fst) := by
        simp only [waiting, List.append_assoc]
        exact List.perm_append_comm_assoc _ _ _
  cleared := fun overflowed => Bool.noConfusion (intact.symm.trans overflowed)

/-- After an overflow nothing waits. -/
theorem spill (h : ledger.Balances ctx) : ledger.spill.Balances ctx.overflow where
  staging := rfl
  pending := rfl
  calls := h.calls
  tickets := perm_depart h.tickets (List.append_nil _ ▸ List.Perm.refl _) .spilled
  cleared := fun _ => rfl

/-- A ledger with nothing waiting has nothing to spill. -/
theorem spill_eq (h : ledger.Balances ctx) (overflowed : ctx.overflowed = true) :
    ledger.spill = ledger := by
  have none := h.cleared overflowed
  rcases List.append_eq_nil_iff.mp none with ⟨staging, pending⟩
  cases ledger
  simp_all [Ledger.spill, waiting]

theorem promote (h : ledger.Balances ctx) : ledger.promote.Balances ctx.promote where
  staging := rfl
  pending := by
    rw [Ledger.promote, waiting, List.map_append, h.staging, h.pending]
    rfl
  calls := h.calls
  tickets := h.tickets
  cleared := h.cleared

theorem execute (h : ledger.Balances ctx) {entry : Entry E} {started : Context E}
    (popped : ctx.pop? = some (entry, started)) :
    ∃ ticket rest, ledger.pending = ticket :: rest ∧ ticket.entry = entry ∧
      ledger.execute.Balances started := by
  obtain ⟨pending, front, rfl⟩ := Context.pop?_eq_some popped
  have tickets := h.pending
  rw [front] at tickets
  rcases List.map_eq_cons_iff.mp tickets with ⟨ticket, rest, eq, same, others⟩
  refine ⟨ticket, rest, eq, same, ?_⟩
  have split : ledger.waiting.Perm ([ticket] ++ (ledger.staging ++ rest)) := by
    rw [waiting, eq]
    exact List.perm_middle
  refine ⟨h.staging, by simp [Ledger.execute, eq, others], h.calls, ?_, ?_⟩
  · have moved := perm_depart h.tickets split .executed
    simpa [Ledger.execute, waiting, eq] using moved
  · intro overflowed
    have none := h.cleared overflowed
    simp [waiting, eq] at none

theorem rollBack (h : ledger.Balances ctx) (scope : Scope) :
    (ledger.rollBack scope).Balances (ctx.rollBack scope) := by
  have pending := h.pending
  cases scope with
  | clearAll =>
    refine ⟨h.staging, rfl, h.calls, ?_, ?_⟩
    · have split : ledger.waiting.Perm (ledger.pending ++ (ledger.staging ++ [])) := by
        rw [List.append_nil]
        exact List.perm_append_comm
      exact perm_depart h.tickets split .discarded
    · intro overflowed
      have none := h.cleared overflowed
      simpa [Ledger.rollBack, waiting] using (List.append_eq_nil_iff.mp none).1
  | discardFrom depth =>
    let gone := ledger.pending.takeWhile (depth ≤ ·.entry.depth)
    let kept := ledger.pending.dropWhile (depth ≤ ·.entry.depth)
    have split : ledger.waiting.Perm (gone ++ (ledger.staging ++ kept)) := by
      calc
        ledger.waiting = ledger.staging ++ (gone ++ kept) :=
          congrArg (ledger.staging ++ ·) List.takeWhile_append_dropWhile.symm
        List.Perm _ (gone ++ (ledger.staging ++ kept)) := List.perm_append_comm_assoc _ _ _
    refine ⟨h.staging, ?_, h.calls, perm_depart h.tickets split .discarded, ?_⟩
    · change _ = ctx.pending.entries.dropWhile _
      rw [← pending, List.dropWhile_map]
      rfl
    · intro overflowed
      rw [h.cleared overflowed] at split
      exact (List.append_eq_nil_iff.mp (List.nil_perm.mp split)).2

/-- No number is in two places. -/
theorem nodup (h : ledger.Balances ctx) :
    ((ledger.waiting ++ ledger.departed.map Prod.fst).map Ticket.number).Nodup := by
  have all : (ledger.accepted.map Ticket.number ++ ledger.refused).Nodup :=
    h.calls.nodup_iff.mpr List.nodup_range
  have accepted := all.sublist (List.sublist_append_left _ _)
  exact (h.tickets.map _).nodup_iff.mp accepted

end Balances

section Departed

variable {V : Vocabulary} {waiting : List (Ticket V)} {departed : List (Ticket V × Fate)}
  {ticket : Ticket V} {fate fate' : Fate}

theorem number_mem (h : (ticket, fate) ∈ departed) :
    ticket.number ∈ (departed.map Prod.fst).map Ticket.number :=
  List.mem_map_of_mem (List.mem_map_of_mem (f := Prod.fst) h)

/-- A ticket departs in one way only. -/
theorem fate_unique (distinct : ((departed.map Prod.fst).map Ticket.number).Nodup)
    (h : (ticket, fate) ∈ departed) (h' : (ticket, fate') ∈ departed) : fate' = fate := by
  induction departed with
  | nil => cases h
  | cons first rest ih =>
    rcases List.nodup_cons.mp distinct with ⟨absent, distinct⟩
    rcases List.mem_cons.mp h with rfl | mem
    · rcases List.mem_cons.mp h' with same | mem'
      · exact (Prod.mk.inj same).2
      · exact absurd (number_mem mem') absent
    · rcases List.mem_cons.mp h' with rfl | mem'
      · exact absurd (number_mem mem) absent
      · exact ih distinct mem mem'

theorem not_mem_waiting (distinct : ((waiting ++ departed.map Prod.fst).map Ticket.number).Nodup)
    (h : (ticket, fate) ∈ departed) : ticket ∉ waiting := by
  rw [List.map_append] at distinct
  intro waits
  exact (List.nodup_append.mp distinct).2.2 _ (List.mem_map_of_mem waits) _ (number_mem h) rfl

end Departed

/-- What a call does to the context, and what the ledger says of it. -/
theorem queue_cases (ledger : Ledger E) (ctx : Context E) (id : FrameId) (action : Action E) :
    ((ctx.enqueue id action).overflowed = true ∧
      (ctx.enqueue id action = ctx.overflow ∨ ctx.enqueue id action = ctx) ∧
      ledger.queue ctx id action = ledger.spill.refuse) ∨
    (ctx.frame? id = none ∧ ctx.enqueue id action = ctx.notify .frameReleased ∧
      ledger.queue ctx id action = ledger.refuse) ∨
    ∃ frame frames, ctx.frame? id = some frame ∧ ctx.overflowed = false ∧
      ctx.enqueue id action =
        { ctx with
          frames
          staging := ctx.staging.push { depth := frame.depth, frame := id, action } } ∧
      ledger.queue ctx id action = ledger.accept { depth := frame.depth, frame := id, action } := by
  rcases ctx.enqueue_cases id action with
    ⟨full, eq⟩ | ⟨overflowed, eq⟩ | ⟨intact, dead, eq⟩ | ⟨intact, -, depth, frames, retained, eq⟩
  · have overflowed : (ctx.enqueue id action).overflowed = true :=
      Context.overflowed_enqueue_of_full full id action
    exact .inl ⟨overflowed, .inl eq, if_pos overflowed⟩
  · have after : (ctx.enqueue id action).overflowed = true :=
      (congrArg Context.overflowed eq).trans overflowed
    exact .inl ⟨after, .inr eq, if_pos after⟩
  · have after : (ctx.enqueue id action).overflowed = false :=
      (congrArg Context.overflowed eq).trans intact
    exact .inr (.inl ⟨dead, eq, by simp [queue, after, dead]⟩)
  · rcases Option.map_eq_some_iff.mp retained with ⟨slot, found, held⟩
    cases held
    have live : ctx.frame? id = some slot.frame :=
      Option.map_eq_some_iff.mpr ⟨slot, found, rfl⟩
    have after : (ctx.enqueue id action).overflowed = false :=
      (congrArg Context.overflowed eq).trans intact
    exact .inr (.inr ⟨slot.frame, _, live, intact, eq, by simp [queue, after, live]⟩)

theorem Balances.queue {ledger : Ledger E} {ctx : Context E} (h : ledger.Balances ctx)
    (id : FrameId) (action : Action E) :
    (ledger.queue ctx id action).Balances (ctx.enqueue id action) := by
  rcases ledger.queue_cases ctx id action with
    ⟨overflowed, spilled | same, eq⟩ | ⟨-, dropped, eq⟩ | ⟨frame, frames, -, intact, staged, eq⟩
  · rw [eq, spilled]
    exact h.spill.refuse
  · rw [same] at overflowed
    rw [eq, same, h.spill_eq overflowed]
    exact h.refuse
  · rw [eq, dropped]
    exact h.refuse.aside rfl rfl rfl
  · rw [eq, staged]
    exact h.accept intact frames _

/-! ## Nothing is taken back -/

/-- The second ledger goes on from the first one: what has been written stays, and the tickets that
still wait do so in their old order. -/
structure Continues {V : Vocabulary} (ledger ledger' : Ledger V) : Prop where
  calls : ledger.calls ≤ ledger'.calls
  refused : ledger.refused <+: ledger'.refused
  accepted : ledger.accepted <+: ledger'.accepted
  departed : ledger.departed <+: ledger'.departed
  order : (ledger'.waiting.filter (·.number < ledger.calls)).Sublist ledger.waiting

namespace Continues

variable {V : Vocabulary} {ledger ledger' ledger'' : Ledger V}

theorem refl (ledger : Ledger V) : ledger.Continues ledger :=
  ⟨Nat.le_refl _, List.prefix_refl _, List.prefix_refl _, List.prefix_refl _, List.filter_sublist⟩

theorem trans (first : ledger.Continues ledger') (second : ledger'.Continues ledger'') :
    ledger.Continues ledger'' where
  calls := Nat.le_trans first.calls second.calls
  refused := first.refused.trans second.refused
  accepted := first.accepted.trans second.accepted
  departed := first.departed.trans second.departed
  order := by
    -- Tickets that the first ledger knows are known to the second one, too.
    have known : ledger''.waiting.filter (·.number < ledger.calls) =
        (ledger''.waiting.filter (·.number < ledger'.calls)).filter (·.number < ledger.calls) := by
      rw [List.filter_filter]
      refine List.filter_congr ?_
      intro ticket _
      have le := first.calls
      by_cases old : ticket.number < ledger.calls
      · have later : ticket.number < ledger'.calls := Nat.lt_of_lt_of_le old le
        simp [old, later]
      · simp [old]
    rw [known]
    exact (second.order.filter _).trans first.order

/-- Tickets that only leave the queue keep their order. -/
theorem of_sublist (calls : ledger.calls ≤ ledger'.calls)
    (refused : ledger.refused <+: ledger'.refused)
    (accepted : ledger'.accepted = ledger.accepted)
    (departed : ledger.departed <+: ledger'.departed)
    (waiting : ledger'.waiting.Sublist ledger.waiting) : ledger.Continues ledger' :=
  ⟨calls, refused, accepted ▸ List.prefix_refl _, departed, List.filter_sublist.trans waiting⟩

theorem refuse (ledger : Ledger V) : ledger.Continues ledger.refuse :=
  .of_sublist (Nat.le_succ _) (List.prefix_append _ _) rfl (List.prefix_refl _)
    (List.Sublist.refl _)

theorem spill (ledger : Ledger V) : ledger.Continues ledger.spill :=
  .of_sublist (Nat.le_refl _) (List.prefix_refl _) rfl (List.prefix_append _ _)
    (List.nil_sublist _)

theorem accept (ledger : Ledger V) (entry : Entry V) : ledger.Continues (ledger.accept entry) := by
  refine ⟨Nat.le_succ _, List.prefix_refl _, List.prefix_append _ _, List.prefix_refl _, ?_⟩
  -- The new ticket has the number of this call, so it is not among the old ones.
  simp only [Ledger.accept, waiting, List.filter_append, List.filter_cons, Nat.lt_irrefl,
    decide_false, Bool.false_eq_true, if_false, List.filter_nil, List.append_nil]
  exact List.filter_sublist.append List.filter_sublist

theorem promote (ledger : Ledger V) : ledger.Continues ledger.promote :=
  .of_sublist (Nat.le_refl _) (List.prefix_refl _) rfl (List.prefix_refl _) (List.Sublist.refl _)

theorem execute (ledger : Ledger V) : ledger.Continues ledger.execute :=
  .of_sublist (Nat.le_refl _) (List.prefix_refl _) rfl (List.prefix_append _ _)
    ((List.drop_sublist 1 _).append_left _)

theorem rollBack (ledger : Ledger V) (scope : Scope) :
    ledger.Continues (ledger.rollBack scope) := by
  cases scope with
  | clearAll =>
    exact .of_sublist (Nat.le_refl _) (List.prefix_refl _) rfl (List.prefix_append _ _)
      ((List.nil_sublist _).append_left _)
  | discardFrom depth =>
    exact .of_sublist (Nat.le_refl _) (List.prefix_refl _) rfl (List.prefix_append _ _)
      ((List.dropWhile_sublist _).append_left _)

theorem queue (ledger : Ledger E) (ctx : Context E) (id : FrameId) (action : Action E) :
    ledger.Continues (ledger.queue ctx id action) := by
  rcases ledger.queue_cases ctx id action with ⟨-, -, eq⟩ | ⟨-, -, eq⟩ | ⟨frame, -, -, -, -, eq⟩
  · rw [eq]
    exact (spill ledger).trans (refuse _)
  · rw [eq]
    exact refuse ledger
  · rw [eq]
    exact accept ledger _

end Continues
end Ledger

namespace Books

variable {ctx ctx' ctx'' : Context E} {ledger ledger' ledger'' : Ledger E}

theorem trans (first : Books ctx ledger ctx' ledger')
    (second : Books ctx' ledger' ctx'' ledger'') : Books ctx ledger ctx'' ledger'' := by
  induction second with
  | refl => exact first
  | queue id action _ ih => exact ih.queue id action
  | rollBack scope _ ih => exact ih.rollBack scope
  | promote _ ih => exact ih.promote
  | execute _ popped ih => exact ih.execute popped
  | aside _ staging pending overflowed ih => exact ih.aside staging pending overflowed

/-- A balanced ledger stays balanced. -/
theorem balances (books : Books ctx ledger ctx' ledger') (h : ledger.Balances ctx) :
    ledger'.Balances ctx' := by
  induction books with
  | refl => exact h
  | queue id action _ ih => exact ih.queue id action
  | rollBack scope _ ih => exact ih.rollBack scope
  | promote _ ih => exact ih.promote
  | execute _ popped ih =>
    rcases ih.execute popped with ⟨_, _, _, _, balances⟩
    exact balances
  | aside _ staging pending overflowed ih => exact ih.aside staging pending overflowed

theorem continues (books : Books ctx ledger ctx' ledger') : ledger.Continues ledger' := by
  induction books with
  | refl => exact .refl ledger
  | queue id action _ ih => exact ih.trans (.queue _ _ id action)
  | rollBack scope _ ih => exact ih.trans (.rollBack _ scope)
  | promote _ ih => exact ih.trans (.promote _)
  | execute _ _ ih => exact ih.trans (.execute _)
  | aside _ _ _ _ ih => exact ih

/-! ## Books of a run -/

theorem record (books : Books ctx ledger ctx' ledger') (events : List (Event E.Mark)) :
    Books ctx ledger (ctx'.record events) ledger' :=
  books.aside rfl rfl rfl

theorem trace (books : Books ctx ledger ctx' ledger') (event : TraceEvent) :
    Books ctx ledger (ctx'.trace event) ledger' := by
  rcases ctx'.exists_trace_eq event with ⟨events, eq⟩
  rw [eq]
  exact books.record events

theorem enqueueAll (books : Books ctx ledger ctx' ledger') (id : FrameId)
    (actions : List (Action E)) :
    ∃ ledger'',
      Books ctx ledger (actions.foldl (fun ctx action => ctx.enqueue id action) ctx') ledger'' := by
  induction actions generalizing ctx' ledger' with
  | nil => exact ⟨ledger', books⟩
  | cons action rest ih => exact ih (books.queue id action)

/-- Each deed is a sequence of booked operations. -/
theorem deed (books : Books ctx ledger ctx' ledger') (deed : Deed E) :
    ∃ ledger'', Books ctx ledger (deed.apply ctx').2 ledger'' := by
  cases deed with
  | record events => exact ⟨ledger', books.record events⟩
  | openScope scope => exact ⟨ledger', books.aside rfl rfl rfl⟩
  | closeScope => exact ⟨ledger', books.aside rfl rfl rfl⟩
  | effect effect =>
    cases effect with
    | enqueue id action => exact ⟨_, books.queue id action⟩
    | schedule id actions =>
      simp only [Deed.apply, Effect.apply]
      rw [Context.schedule_eq_foldl]
      exact books.enqueueAll id (fan actions)
    | queueCommand chain source callback =>
      -- The frame is pushed first, which leaves the queue alone.
      have pushed : Books ctx ledger (ctx'.pushTopFrame callback).2 ledger' :=
        books.aside rfl rfl rfl
      exact ⟨_, pushed.queue _ _⟩
    | queueCall function source callback =>
      have pushed : Books ctx ledger (ctx'.pushTopFrame callback).2 ledger' :=
        books.aside rfl rfl rfl
      exact ⟨_, pushed.queue _ _⟩
    | discard id => exact ⟨_, books.rollBack _⟩
    | discardFrom depth => exact ⟨_, books.rollBack (.discardFrom depth)⟩
    | trace event => exact ⟨ledger', books.trace event⟩
    | present source error forked => exact ⟨ledger', (books.trace _).record _⟩
    | ask | pushFrame | charge | install | fire | load | store | mark =>
      exact ⟨ledger', books.aside rfl rfl rfl⟩

/-- Books can be kept from any moment of a root invocation to any later one. -/
theorem of_leads {running running' : List FrameId} (leads : Leads running ctx running' ctx')
    (ledger : Ledger E) : ∃ ledger', Books ctx ledger ctx' ledger' := by
  induction leads with
  | refl => exact ⟨ledger, .refl⟩
  | deed deed _ ih =>
    rcases ih with ⟨_, books⟩
    exact books.deed deed
  | promote _ ih =>
    rcases ih with ⟨_, books⟩
    exact ⟨_, books.promote⟩
  | pop _ popped ih =>
    rcases ih with ⟨_, books⟩
    exact ⟨_, books.execute popped⟩
  | settle _ ih =>
    rcases ih with ⟨_, books⟩
    exact ⟨_, books.aside rfl rfl rfl⟩
  | finish outcome _ ih =>
    rcases ih with ⟨_, books⟩
    exact ⟨_, books.aside rfl rfl rfl⟩

end Books

/-! ## The main result -/

/-- Every call that queues an action is refused at once or gets a ticket, and each ticket is in
exactly one place at every later moment: it waits, or its entry has left the queue once and in one
way.  So no entry is lost, or executed twice, or executed after it was discarded, and entries that
go on waiting keep their order. -/
theorem tickets_conserved {limits : Limits} {memory : E.Memory} {profiler : Profiler}
    {ctx : Context E} {ledger : Ledger E}
    (books : Books (.create limits memory profiler) {} ctx ledger) :
    ledger.staging.map Ticket.entry = ctx.staging.toList ∧
    ledger.pending.map Ticket.entry = ctx.pending.entries ∧
    (ledger.accepted.map Ticket.number ++ ledger.refused).Perm (List.range ledger.calls) ∧
    ledger.accepted.Perm (ledger.waiting ++ ledger.departed.map Prod.fst) ∧
    ((ledger.waiting ++ ledger.departed.map Prod.fst).map Ticket.number).Nodup ∧
    (∀ id action,
      ((ctx.enqueue id action).overflowed = true ∧
        ledger.queue ctx id action = ledger.spill.refuse) ∨
      (ctx.frame? id = none ∧ ledger.queue ctx id action = ledger.refuse ∧
        (ctx.enqueue id action).staging = ctx.staging ∧
        (ctx.enqueue id action).pending = ctx.pending ∧
        (ctx.enqueue id action).frames = ctx.frames) ∨
      ∃ frame, ctx.frame? id = some frame ∧
        ledger.queue ctx id action = ledger.accept { depth := frame.depth, frame := id, action } ∧
        (ctx.enqueue id action).staging =
          ctx.staging.push { depth := frame.depth, frame := id, action } ∧
        (ctx.enqueue id action).pending = ctx.pending) ∧
    (∀ ctx' ledger', Books ctx ledger ctx' ledger' → ledger.Continues ledger' ∧
      ∀ ticket fate, (ticket, fate) ∈ ledger.departed →
        ticket ∉ ledger'.waiting ∧ ∀ fate', (ticket, fate') ∈ ledger'.departed → fate' = fate) ∧
    (∀ running running' ctx', Leads running ctx running' ctx' →
      ∃ ledger', Books ctx ledger ctx' ledger') ∧
    (∀ host fuel entry started after, ctx.pop? = some (entry, started) →
      Context.perform host fuel entry.action entry.frame started = some after →
      ∃ ticket rest ledger', ledger.pending = ticket :: rest ∧ ticket.entry = entry ∧
        Books ctx ledger after ledger' ∧
        ledger.departed ++ [(ticket, .executed)] <+: ledger'.departed) := by
  have balances := books.balances (.create limits memory profiler)
  refine ⟨balances.staging, balances.pending, balances.calls, balances.tickets, balances.nodup,
    ?_, ?_, ?_, ?_⟩
  · intro id action
    rcases ledger.queue_cases ctx id action with
      ⟨overflowed, -, eq⟩ | ⟨dead, dropped, eq⟩ | ⟨frame, frames, live, -, staged, eq⟩
    · exact .inl ⟨overflowed, eq⟩
    · rw [dropped]
      exact .inr (.inl ⟨dead, eq, rfl, rfl, rfl⟩)
    · rw [staged]
      exact .inr (.inr ⟨frame, live, eq, rfl, rfl⟩)
  · intro ctx' ledger' later
    refine ⟨later.continues, ?_⟩
    intro ticket fate before
    have departed := later.continues.departed.subset before
    have distinct := (later.balances balances).nodup
    refine ⟨Ledger.not_mem_waiting distinct departed, ?_⟩
    rw [List.map_append] at distinct
    exact fun fate' again =>
      Ledger.fate_unique (List.nodup_append.mp distinct).2.1 departed again
  · intro running running' ctx' leads
    exact Books.of_leads leads ledger
  · intro host fuel entry started after popped performed
    rcases balances.execute popped with ⟨ticket, rest, front, same, -⟩
    have leads : Leads [] started [] after := .perform performed
    rcases Books.of_leads leads ledger.execute with ⟨ledger', during⟩
    refine ⟨ticket, rest, ledger', front, same, (Books.refl.execute popped).trans during, ?_⟩
    have written : ledger.execute.departed = ledger.departed ++ [(ticket, .executed)] := by
      simp [Ledger.execute, front]
    exact written ▸ during.continues.departed

/-- Of two entries of a frame, the first one is executed and rolls the frame back. -/
theorem tickets_conserved_of_rollback :
    ∃ (ctx : Context .bare) (ledger : Ledger Embedding.bare),
      Books (.create {} () .off) {} ctx ledger ∧ ledger.calls = 3 ∧ ledger.refused = [2] ∧
      ledger.departed.map (fun departure => (departure.1.number, departure.2)) =
        [(0, .executed), (1, .discarded)] ∧
      ledger.accepted.Perm (ledger.waiting ++ ledger.departed.map Prod.fst) := by
  let new : Context .bare := .create {} () .off
  let framed : Context .bare := (new.pushFrame { depth := 0, scope := .clearAll }).2
  let queued : Context .bare :=
    ((framed.enqueue ⟨0⟩ .fallthrough).enqueue ⟨0⟩ .fallthrough).promote
  let started : Context .bare :=
    { queued with pending := { entries := [⟨0, ⟨0⟩, .fallthrough⟩] }, depth := 0 }
  have popped : queued.pop? = some (⟨0, ⟨0⟩, .fallthrough⟩, started) := rfl
  have start : Books new {} framed {} := .aside .refl rfl rfl rfl
  -- The last call is for a frame that was never there.
  have books := ((((start.queue ⟨0⟩ .fallthrough).queue ⟨0⟩ .fallthrough).promote.execute
    popped).rollBack .clearAll).queue ⟨1⟩ .fallthrough
  refine ⟨_, _, books, ?_, ?_, ?_, (tickets_conserved books).2.2.2.1⟩
  · decide +kernel
  · decide +kernel
  · decide +kernel

end CommandScheduler
