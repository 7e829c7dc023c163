import Script.Proofs.Routine.Trace

/-!
# Asking for less and less

`Asks body c task s` says that the routine `c`, at some point of its work, asks for the task in the
state `s`.  It says nothing about whether `c` ends.  But if a weight can be put on tasks and states
so that each task asks for lighter ones only, then all tasks end, and the weight of a task bounds
how deeply others nest in it (`exists_resolve_of_lighter`).
-/

namespace Script

namespace Routine

variable {τ : Type} {ρ : τ → Type} {σ α β : Type}
  {body : (task : τ) → σ → Routine τ ρ σ (ρ task)}

/-- `c` asks for the task in the state.  What it asked for before has come to an end. -/
def Asks (body : (task : τ) → σ → Routine τ ρ σ (ρ task)) :
    {α : Type} → Routine τ ρ σ α → τ → σ → Prop
  | _, done _ _, _, _ => False
  | _, call task s, task', s' => task' = task ∧ s' = s
  | _, ask task s next, task', s' => task' = task ∧ s' = s ∨
      ∃ r s₁ k, Ends body (body task s) r s₁ k ∧ Asks body (next r s₁) task' s'

/-- A sequence asks for what its first part asks for, and then for what its second part does. -/
theorem Asks.of_bind {c : Routine τ ρ σ α} {next : α → σ → Routine τ ρ σ β} {task : τ} {s : σ}
    (h : Asks body (c.bind next) task s) :
    Asks body c task s ∨ ∃ a s₁ k, Ends body c a s₁ k ∧ Asks body (next a s₁) task s := by
  induction c with
  | done a s₁ => exact .inr ⟨a, s₁, 0, .done a s₁, h⟩
  | call task' s' =>
    rcases h with h | ⟨r, s₁, k, hends, hnext⟩
    · exact .inl h
    · exact .inr ⟨r, s₁, k + 1, .call hends, hnext⟩
  | ask task' s' first ih =>
    rcases h with h | ⟨r, s₁, k, hends, hrest⟩
    · exact .inl (.inl h)
    · rcases ih r s₁ hrest with hfirst | ⟨a, s₂, k', hends', hnext⟩
      · exact .inl (.inr ⟨r, s₁, k, hends, hfirst⟩)
      · exact .inr ⟨a, s₂, k + k' + 2, .ask hends hends', hnext⟩

/-- A routine is answered if all that it asks for is. -/
theorem exists_answer_of_asks {depth : Nat} {c : Routine τ ρ σ α}
    (h : ∀ task s, Asks body c task s → ∃ x, resolve body depth task s = some x) :
    ∃ x, c.answer (resolve body depth) = some x := by
  induction c with
  | done a s => exact ⟨(a, s), rfl⟩
  | call task s => exact h task s ⟨rfl, rfl⟩
  | ask task s next ih =>
    obtain ⟨⟨r, s₁⟩, hr⟩ := h task s (.inl ⟨rfl, rfl⟩)
    obtain ⟨steps, hperform⟩ := perform_eq_some_iff.mpr ⟨depth, hr⟩
    obtain ⟨k, hends⟩ := ends_of_perform hperform
    obtain ⟨x, hx⟩ := ih r s₁ fun task' s' hasks => h task' s' (.inr ⟨r, s₁, k, hends, hasks⟩)
    refine ⟨x, ?_⟩
    rw [answer, hr]
    exact hx

/-- **Where tasks ask for lighter ones only, the weight of a task is deep enough for it.** -/
theorem exists_resolve_of_lighter {weight : τ → σ → Nat}
    (lighter : ∀ task s task' s', Asks body (body task s) task' s' →
      weight task' s' < weight task s)
    {depth : Nat} {task : τ} {s : σ} (h : weight task s < depth) :
    ∃ x, resolve body depth task s = some x := by
  induction depth generalizing task s with
  | zero => exact absurd h (Nat.not_lt_zero _)
  | succ depth ih =>
    refine exists_answer_of_asks (c := body task s) fun task' s' hasks => ih ?_
    exact Nat.lt_of_lt_of_le (lighter task s task' s' hasks) (Nat.le_of_lt_succ h)

end Routine

/-- Work that fails in its first part asks for nothing after that. -/
theorem Action.asks_bind {τ : Type} {ρ : τ → Type} {ε σ α β : Type}
    {body : (task : τ) → Action τ ρ ε σ (ρ task)} {first : Action τ ρ ε σ α}
    {next : α → Action τ ρ ε σ β} {task : τ} {s s' : σ}
    (h : Routine.Asks body ((first >>= next) s) task s') :
    Routine.Asks body (first s) task s' ∨ ∃ a s₁ k, Routine.Ends body (first s) (.ok a) s₁ k ∧
      Routine.Asks body (next a s₁) task s' := by
  rcases Routine.Asks.of_bind h with hfirst | ⟨outcome, s₁, k, hends, hnext⟩
  · exact .inl hfirst
  · cases outcome with
    | ok a => exact .inr ⟨a, s₁, k, hends, hnext⟩
    | error e => cases hnext

end Script
