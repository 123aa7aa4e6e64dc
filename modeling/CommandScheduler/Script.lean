/-!
# Script — work as a sequence of operations

Work that the embedding program contributes is a script: it ends with a value, or it calls one
operation and goes on with the reply.  A script says nothing about how its operations act on a
state; a handler does, and `run` threads the state through.  Handlers that may give up are run by
`run?`.
-/

namespace CommandScheduler

/-- A sequence of operations, each choosing by its reply what comes next. -/
inductive Script (Op : Type) (Reply : Op → Type) (α : Type) where
  | done (value : α)
  /-- Calls an operation and goes on with its reply. -/
  | call (op : Op) (next : Reply op → Script Op Reply α)

namespace Script

variable {Op : Type} {Reply : Op → Type} {α β σ : Type}

/-- Runs one script and then another that knows the first one's value. -/
def bind : Script Op Reply α → (α → Script Op Reply β) → Script Op Reply β
  | done value, f => f value
  | call op next, f => call op fun reply => bind (next reply) f

instance : Monad (Script Op Reply) where
  pure := done
  bind := bind

def perform (op : Op) : Script Op Reply (Reply op) :=
  call op done

/-! ## Running -/

def run (handle : (op : Op) → σ → Reply op × σ) : Script Op Reply α → σ → α × σ
  | done value, state => (value, state)
  | call op next, state =>
    match handle op state with
    | (reply, state) => run handle (next reply) state

/-- Runs a script on a state with a handler that may give up. -/
def run? (handle : (op : Op) → σ → Option (Reply op × σ)) :
    Script Op Reply α → σ → Option (α × σ)
  | done value, state => some (value, state)
  | call op next, state =>
    match handle op state with
    | some (reply, state) => run? handle (next reply) state
    | none => none

/-! ## Laws -/

@[simp]
theorem run_pure (handle : (op : Op) → σ → Reply op × σ) (value : α) (state : σ) :
    (pure value : Script Op Reply α).run handle state = (value, state) := rfl

@[simp]
theorem run_perform (handle : (op : Op) → σ → Reply op × σ) (op : Op) (state : σ) :
    (perform op : Script Op Reply (Reply op)).run handle state = handle op state := rfl

@[simp]
theorem run_bind (handle : (op : Op) → σ → Reply op × σ) (script : Script Op Reply α)
    (f : α → Script Op Reply β) (state : σ) :
    (script >>= f).run handle state =
      (f (script.run handle state).1).run handle (script.run handle state).2 := by
  induction script generalizing state with
  | done value => rfl
  | call op next ih => exact ih (handle op state).1 (handle op state).2

@[simp]
theorem run?_pure (handle : (op : Op) → σ → Option (Reply op × σ)) (value : α) (state : σ) :
    (pure value : Script Op Reply α).run? handle state = some (value, state) := rfl

@[simp]
theorem run?_bind (handle : (op : Op) → σ → Option (Reply op × σ)) (script : Script Op Reply α)
    (f : α → Script Op Reply β) (state : σ) :
    (script >>= f).run? handle state =
      (script.run? handle state).bind fun (value, state) => (f value).run? handle state := by
  induction script generalizing state with
  | done value => rfl
  | call op next ih =>
    have unfolded : (call op next >>= f) = call op fun reply => next reply >>= f := rfl
    rw [unfolded]
    simp only [run?]
    cases handle op state with
    | none => rfl
    | some result => exact ih result.1 result.2

theorem bind_assoc {γ : Type} (script : Script Op Reply α) (f : α → Script Op Reply β)
    (g : β → Script Op Reply γ) : (script >>= f) >>= g = script >>= fun value => f value >>= g := by
  induction script with
  | done value => rfl
  | call op next ih => exact congrArg (call op) (funext ih)

theorem bind_pure (script : Script Op Reply α) : script >>= pure = script := by
  induction script with
  | done value => rfl
  | call op next ih => exact congrArg (call op) (funext ih)

instance : LawfulMonad (Script Op Reply) :=
  LawfulMonad.mk' (Script Op Reply) bind_pure (fun _ _ => rfl) bind_assoc

end Script
end CommandScheduler
