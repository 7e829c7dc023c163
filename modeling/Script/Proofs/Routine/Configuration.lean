import Script.Proofs.Routine

/-!
# The configurations of a run

`Routine.run` only says how a run ends.  What holds while it lasts is said about its
*configurations*: the routine at work and the stack that waits for it.  `Configuration.next` is one
step of the stack, `Configuration.after` some number of them, and a run ends with a result exactly
when one of its configurations is that result on an empty stack (`run_eq_some_iff`).
-/

namespace Script.Routine

variable {τ : Type} {ρ : τ → Type} {σ ω : Type}

/-- The state that a routine has reached. -/
def state : {α : Type} → Routine τ ρ σ α → σ
  | _, done _ state => state
  | _, call _ state => state
  | _, ask _ state _ => state

/-- The task that a routine is about to begin, if any. -/
def asked : {α : Type} → Routine τ ρ σ α → List τ
  | _, done _ _ => []
  | _, call task _ => [task]
  | _, ask task _ _ => [task]

/-- A moment of a run with a final result of type `ω`. -/
structure Configuration (τ : Type) (ρ : τ → Type) (σ ω : Type) : Type 1 where
  {type : Type}
  /-- What is at work. -/
  routine : Routine τ ρ σ type
  /-- What waits for it. -/
  pending : Pending τ ρ σ ω type

namespace Configuration

variable (body : (task : τ) → σ → Routine τ ρ σ (ρ task))

/-- The state at this moment. -/
def state (c : Configuration τ ρ σ ω) : σ := c.routine.state

/-- The tasks that have been asked for and are not yet over, the last one first. -/
def active (c : Configuration τ ρ σ ω) : List τ := c.routine.asked ++ c.pending.tasks

/-- One step of the stack.  There is none from a result that nothing waits for. -/
def next : Configuration τ ρ σ ω → Option (Configuration τ ρ σ ω)
  | ⟨done _ _, .nothing⟩ => none
  | ⟨done result state, .waiting _ next rest⟩ => some ⟨next result state, rest⟩
  | ⟨call task state, pending⟩ => some ⟨body task state, pending⟩
  | ⟨ask task state next, pending⟩ => some ⟨body task state, .waiting task next pending⟩

/-- So many steps of the stack. -/
def after : Nat → Configuration τ ρ σ ω → Option (Configuration τ ρ σ ω)
  | 0, c => some c
  | n + 1, c => (c.next body).bind (after n)

/-- The beginning of a task, on an empty stack. -/
def start (task : τ) (state : σ) : Configuration τ ρ σ (ρ task) := ⟨call task state, .nothing⟩

variable {body}

theorem after_of_none {n : Nat} {c : Configuration τ ρ σ ω} (h : c.next body = none) :
    c.after body (n + 1) = none := by
  show (c.next body).bind (after body n) = _
  rw [h]
  rfl

theorem after_of_next {n : Nat} {c c₁ : Configuration τ ρ σ ω} (h : c.next body = some c₁) :
    c.after body (n + 1) = c₁.after body n := by
  show (c.next body).bind (after body n) = _
  rw [h]
  rfl

end Configuration

variable {body : (task : τ) → σ → Routine τ ρ σ (ρ task)}

/-- **A run ends where its configurations do**, if it has more steps than it takes to get there. -/
theorem run_eq_some_iff {steps : Nat} {α : Type} {c : Routine τ ρ σ α} {p : Pending τ ρ σ ω α}
    {result : ω} {s : σ} : run body steps c p = some (result, s) ↔
      ∃ n < steps, Configuration.after body n ⟨c, p⟩ = some ⟨done result s, .nothing⟩ := by
  constructor
  · intro h
    fun_induction run body steps c p with
    | case1 => cases h
    | case2 =>
      cases h
      exact ⟨0, Nat.succ_pos _, rfl⟩
    | case3 _ _ _ _ _ _ _ ih =>
      obtain ⟨n, hn, hafter⟩ := ih h
      exact ⟨n + 1, Nat.succ_lt_succ hn, hafter⟩
    | case4 _ _ _ _ ih =>
      obtain ⟨n, hn, hafter⟩ := ih h
      exact ⟨n + 1, Nat.succ_lt_succ hn, hafter⟩
    | case5 _ _ _ _ _ ih =>
      obtain ⟨n, hn, hafter⟩ := ih h
      exact ⟨n + 1, Nat.succ_lt_succ hn, hafter⟩
  · rintro ⟨n, hn, hafter⟩
    obtain ⟨more, rfl⟩ := Nat.exists_eq_add_of_lt hn
    rw [show n + more + 1 = (n + 1) + more from by omega]
    refine run_mono ?_ more
    clear hn
    induction n generalizing α with
    | zero =>
      cases hafter
      rfl
    | succ n ih =>
      cases c with
      | done a s =>
        cases p with
        | nothing => cases hafter
        | waiting task next rest => exact ih hafter
      | call task s => exact ih hafter
      | ask task s next => exact ih hafter

end Script.Routine
