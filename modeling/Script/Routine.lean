/-!
# Routines

A program that calls itself is written here as a *body*: a function from a task to a `Routine`,
which does the task's own work on a state and asks for other tasks by name where it would call
itself.  The body is not recursive, and so it can be run in two ways.

* `Routine.run` keeps the waiting routines on a stack of its own, `Pending`.  How deeply tasks nest
  is bounded by memory only, and a task that is asked for last waits for nothing and leaves nothing
  on the stack.
* `resolve` calls itself where the body asks.  It nests as the tasks do, and it is what statements
  about a body are made of: a property that every task's own work keeps, given that the tasks it
  asks for keep it, holds of every task.

Both take a bound, on the number of steps and on the depth, and give nothing when it is not enough.
-/

namespace Script

/-- Work on a state `σ` towards a result of type `α`.  A task `t : τ` has the result type `ρ t`. -/
inductive Routine (τ : Type) (ρ : τ → Type) (σ : Type) : Type → Type 1 where
  /-- The work is over, with a result and the state that it leaves. -/
  | done {α : Type} (result : α) (state : σ) : Routine τ ρ σ α
  /-- The result is that of another task. -/
  | call (task : τ) (state : σ) : Routine τ ρ σ (ρ task)
  /-- Another task is needed before the work can go on. -/
  | ask {α : Type} (task : τ) (state : σ) (next : ρ task → σ → Routine τ ρ σ α) : Routine τ ρ σ α

namespace Routine

variable {τ : Type} {ρ : τ → Type} {σ β ω : Type}

/-- One routine after another. -/
def bind : {α : Type} → Routine τ ρ σ α → (α → σ → Routine τ ρ σ β) → Routine τ ρ σ β
  | _, done result state, next => next result state
  | _, call task state, next => ask task state next
  | _, ask task state first, next =>
    ask task state fun result state => (first result state).bind next

/-- What waits for a result of type `α` to reach a final result of type `ω`: the routines that
asked, the last one on top, each with the task it asked for. -/
inductive Pending (τ : Type) (ρ : τ → Type) (σ : Type) (ω : Type) : Type → Type 1 where
  | nothing : Pending τ ρ σ ω ω
  | waiting {β : Type} (task : τ) (next : ρ task → σ → Routine τ ρ σ β)
      (rest : Pending τ ρ σ ω β) : Pending τ ρ σ ω (ρ task)

/-- The tasks that have been asked for and are not yet over, the last one first. -/
def Pending.tasks : {α : Type} → Pending τ ρ σ ω α → List τ
  | _, nothing => []
  | _, waiting task _ rest => task :: rest.tasks

/-- Runs a routine on a stack, for at most so many steps. -/
def run (body : (task : τ) → σ → Routine τ ρ σ (ρ task)) :
    (steps : Nat) → {α : Type} → Routine τ ρ σ α → Pending τ ρ σ ω α → Option (ω × σ)
  | 0, _, _, _ => none
  | _ + 1, _, done result state, .nothing => some (result, state)
  | steps + 1, _, done result state, .waiting _ next rest =>
    run body steps (next result state) rest
  | steps + 1, _, call task state, pending => run body steps (body task state) pending
  | steps + 1, _, ask task state next, pending =>
    run body steps (body task state) (.waiting task next pending)

/-- Does a task from the start, on an empty stack. -/
def perform (body : (task : τ) → σ → Routine τ ρ σ (ρ task)) (steps : Nat) (task : τ)
    (state : σ) : Option (ρ task × σ) :=
  run body steps (call task state) .nothing

/-- Runs a routine with an answer for the tasks that it asks for. -/
def answer (reply : (task : τ) → σ → Option (ρ task × σ)) :
    {α : Type} → Routine τ ρ σ α → Option (α × σ)
  | _, done result state => some (result, state)
  | _, call task state => reply task state
  | _, ask task state next =>
    match reply task state with
    | none => none
    | some (result, state) => answer reply (next result state)

/-- Does a task, with at most so many tasks inside one another. -/
def resolve (body : (task : τ) → σ → Routine τ ρ σ (ρ task)) :
    (depth : Nat) → (task : τ) → σ → Option (ρ task × σ)
  | 0, _, _ => none
  | depth + 1, task, state => (body task state).answer (resolve body depth)

end Routine

/-- Work that can also fail.  A failure of a task that was asked for is a failure of the one that
asked, unless that one looks at the outcome. -/
def Action (τ : Type) (ρ : τ → Type) (ε σ : Type) (α : Type) : Type 1 :=
  σ → Routine τ (fun task => Except ε (ρ task)) σ (Except ε α)

namespace Action

variable {τ : Type} {ρ : τ → Type} {ε σ α β : Type}

instance : Monad (Action τ ρ ε σ) where
  pure a := fun state => .done (.ok a) state
  bind first next := fun state => (first state).bind fun outcome state =>
    match outcome with
    | .ok a => next a state
    | .error e => .done (.error e) state

instance : MonadExceptOf ε (Action τ ρ ε σ) where
  throw e := fun state => .done (.error e) state
  tryCatch first handle := fun state => (first state).bind fun outcome state =>
    match outcome with
    | .ok a => .done (.ok a) state
    | .error e => handle e state

instance : MonadStateOf σ (Action τ ρ ε σ) where
  get := fun state => .done (.ok state) state
  set state := fun _ => .done (.ok ⟨⟩) state
  modifyGet f := fun state => let (a, state) := f state; .done (.ok a) state

/-- Has a task done. -/
def call (task : τ) : Action τ ρ ε σ (ρ task) := fun state => .call task state

/-- The outcome of some work, be it a result or a failure. -/
def outcome (work : Action τ ρ ε σ α) : Action τ ρ ε σ (Except ε α) := fun state =>
  (work state).bind fun outcome state => .done (.ok outcome) state

end Action

end Script
