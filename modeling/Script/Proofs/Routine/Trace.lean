import Script.Proofs.Routine.Configuration

/-!
# The trace of a run

The configurations that a run goes through, one after another, and what the stack does meanwhile.
While a task is under way, the stack never gets below where the task began (`Ends.tasks_le`); and if
its own work never passes on to another task, whatever else begins meanwhile begins higher up
(`Ends.tasks_lt`).
-/

namespace Script.Routine

variable {τ : Type} {ρ : τ → Type} {σ ω : Type}
  {body : (task : τ) → σ → Routine τ ρ σ (ρ task)}

namespace Configuration

variable {c x y : Configuration τ ρ σ ω} {n i : Nat}

theorem after_add (m n : Nat) (c : Configuration τ ρ σ ω) :
    c.after body (m + n) = (c.after body m).bind (after body n) := by
  induction m generalizing c with
  | zero => rw [Nat.zero_add]; rfl
  | succ m ih =>
    rw [Nat.succ_add]
    show (c.next body).bind (after body (m + n)) = ((c.next body).bind (after body m)).bind _
    rw [Option.bind_assoc]
    exact Option.bind_congr fun c₁ _ => ih c₁

theorem after_of_after {m n : Nat} (h : c.after body m = some x) :
    c.after body (m + n) = x.after body n := by
  rw [after_add, h]
  rfl

theorem after_succ (h : c.after body n = some x) : c.after body (n + 1) = x.next body := by
  rw [after_of_after h]
  show (x.next body).bind some = _
  cases x.next body <;> rfl

/-- Where nothing comes next, the run is over. -/
theorem le_of_over (hx : c.after body n = some x) (hover : x.next body = none)
    (hy : c.after body i = some y) : i ≤ n := by
  refine Nat.le_of_not_lt fun hlt => ?_
  obtain ⟨k, rfl⟩ := Nat.exists_eq_add_of_lt hlt
  rw [Nat.add_assoc, after_of_after hx, after_of_none hover] at hy
  cases hy

/-- There is a last one among so many configurations. -/
theorem exists_last (body : (task : τ) → σ → Routine τ ρ σ (ρ task))
    (c : Configuration τ ρ σ ω) (n : Nat) : ∃ k x, c.after body k = some x ∧
      ∀ i < n, ∀ y, c.after body i = some y → i ≤ k := by
  induction n with
  | zero => exact ⟨0, c, rfl, fun i hi => absurd hi (Nat.not_lt_zero i)⟩
  | succ n ih =>
    cases hn : c.after body n with
    | some x => exact ⟨n, x, hn, fun i hi _ _ => Nat.le_of_lt_succ hi⟩
    | none =>
      obtain ⟨k, x, hx, hlast⟩ := ih
      refine ⟨k, x, hx, fun i hi y hy => hlast i ?_ y hy⟩
      have hne : i ≠ n := by
        rintro rfl
        rw [hn] at hy
        cases hy
      omega

/-- The first configurations of a run, so many of them unless it is over before. -/
def trace (body : (task : τ) → σ → Routine τ ρ σ (ρ task)) (n : Nat)
    (c : Configuration τ ρ σ ω) : List (Configuration τ ρ σ ω) :=
  (List.range n).filterMap fun i => c.after body i

theorem mem_trace : x ∈ c.trace body n ↔ ∃ i < n, c.after body i = some x := by
  simp only [trace, List.mem_filterMap, List.mem_range]

/-- Two configurations of a trace are some steps apart. -/
theorem pairwise_trace {R : Configuration τ ρ σ ω → Configuration τ ρ σ ω → Prop}
    (h : ∀ i x, c.after body i = some x → ∀ d y, x.after body (d + 1) = some y → R x y) :
    (c.trace body n).Pairwise R := by
  rw [trace, List.pairwise_filterMap]
  refine List.pairwise_lt_range.imp fun {i j} hij x hx y hy => ?_
  obtain ⟨d, rfl⟩ := Nat.exists_eq_add_of_lt hij
  refine h i x hx d y ?_
  rw [← hy, Nat.add_assoc]
  exact (after_of_after hx).symm

end Configuration

open Script.Routine.Configuration

/-! ## Tasks that end -/

/-- A routine whose tasks are answered ends. -/
theorem ends_of_answer {depth : Nat}
    (hends : ∀ task s r s', resolve body depth task s = some (r, s') →
      ∃ k, Ends body (body task s) r s' k)
    {α : Type} (c : Routine τ ρ σ α) {a : α} {s' : σ}
    (h : c.answer (resolve body depth) = some (a, s')) : ∃ k, Ends body c a s' k := by
  induction c with
  | done =>
    cases h
    exact ⟨0, .done _ _⟩
  | call task s =>
    obtain ⟨k, hk⟩ := hends task s a s' h
    exact ⟨k + 1, .call hk⟩
  | ask task s next ih =>
    rw [answer] at h
    split at h
    · cases h
    · next r s₁ hr =>
      obtain ⟨k₁, hk₁⟩ := hends task s r s₁ hr
      obtain ⟨k₂, hk₂⟩ := ih r s₁ h
      exact ⟨k₁ + k₂ + 2, .ask hk₁ hk₂⟩

/-- **A task that is performed ends.** -/
theorem ends_of_perform {steps : Nat} {task : τ} {s s' : σ} {a : ρ task}
    (h : perform body steps task s = some (a, s')) : ∃ k, Ends body (body task s) a s' k := by
  obtain ⟨depth, hresolve⟩ := perform_eq_some_iff.mp ⟨steps, h⟩
  clear h
  induction depth generalizing task s s' with
  | zero => cases hresolve
  | succ depth ih => exact ends_of_answer (fun _ _ _ _ h => ih h) _ hresolve

/-! ## The stack meanwhile -/

section Stack

variable {α : Type} {c : Routine τ ρ σ α} {a : α} {s : σ} {k l : Nat} {p : Pending τ ρ σ ω α}
  {x y : Configuration τ ρ σ ω}

/-- When the task that a routine has asked for is over, the routine goes on. -/
theorem after_ask {task : τ} {s₁ : σ} {r : ρ task} {next : ρ task → σ → Routine τ ρ σ α} {k₁ : Nat}
    (h : Configuration.after body k₁ ⟨body task s, .waiting task next p⟩ =
      some ⟨.done r s₁, .waiting task next p⟩) (l : Nat) :
    Configuration.after body (k₁ + l + 2) ⟨.ask task s next, p⟩ =
      Configuration.after body l ⟨next r s₁, p⟩ := by
  have hk : k₁ + l + 2 = k₁ + (l + 1) + 1 := by omega
  rw [hk]
  exact after_of_after h

/-- A routine that ends leaves the stack as it was. -/
theorem Ends.after (h : Ends body c a s k) (p : Pending τ ρ σ ω α) :
    Configuration.after body k ⟨c, p⟩ = some ⟨.done a s, p⟩ := by
  induction h with
  | done => rfl
  | call _ ih => exact ih p
  | ask _ _ ih₁ ih₂ => rw [after_ask (ih₁ _), ih₂]

/-- Until it ends, all that waited for it goes on waiting. -/
theorem Ends.tasks_le (h : Ends body c a s k) (hl : l ≤ k)
    (hx : Configuration.after body l ⟨c, p⟩ = some x) :
    p.tasks.length ≤ x.pending.tasks.length := by
  induction h generalizing l with
  | done =>
    obtain rfl : l = 0 := by omega
    cases hx
    exact Nat.le_refl _
  | call _ ih =>
    cases l with
    | zero =>
      cases hx
      exact Nat.le_refl _
    | succ l => exact ih (by omega) hx
  | @ask _ task _ _ _ next _ _ k₁ k₂ h₁ _ ih₁ ih₂ =>
    cases l with
    | zero =>
      cases hx
      exact Nat.le_refl _
    | succ l =>
      by_cases hlt : l ≤ k₁
      · have hle : (Pending.waiting task next p).tasks.length ≤ x.pending.tasks.length :=
          ih₁ hlt hx
        exact Nat.le_of_succ_le hle
      · obtain ⟨d, rfl⟩ := Nat.exists_eq_add_of_lt (Nat.lt_of_not_le hlt)
        rw [after_ask (h₁.after _)] at hx
        exact ih₂ (by omega) hx

/-- The routine never passes on to another task, it waits for each one that it asks for.  And what
it comes to is related to the state in which it was taken up the last time, at first `s₀`. -/
inductive Returns (post : σ → α → σ → Prop) : σ → Routine τ ρ σ α → Prop
  | done {s₀ : σ} {a : α} {s : σ} (h : post s₀ a s) : Returns post s₀ (.done a s)
  | ask {s₀ : σ} {task : τ} {s : σ} {next : ρ task → σ → Routine τ ρ σ α}
      (goes : ∀ r s, Returns post s (next r s)) : Returns post s₀ (.ask task s next)

/-- The configuration right before the end has the state that the result is related to. -/
theorem Ends.returns {post : σ → α → σ → Prop} (h : Ends body c a s k)
    (hx : x.next body = some ⟨c, p⟩) (hc : Returns post x.state c) :
    ∃ y, x.after body k = some y ∧ post y.state a s := by
  induction h generalizing x with
  | done =>
    cases hc with
    | done h => exact ⟨x, rfl, h⟩
  | call => cases hc
  | @ask _ task s₀ s₁ s₂ next r _ k₁ k₂ h₁ _ _ ih₂ =>
    cases hc with
    | ask goes =>
      have hdone : x.after body (k₁ + 2) = some ⟨.done r s₁, .waiting task next p⟩ := by
        rw [after_of_next hx]
        exact h₁.after _
      obtain ⟨y, hy, hpost⟩ := ih₂ (x := ⟨.done r s₁, .waiting task next p⟩) rfl (goes r s₁)
      have hk : k₁ + k₂ + 2 = k₁ + 2 + k₂ := by omega
      rw [hk, after_of_after hdone]
      exact ⟨y, hy, hpost⟩

/-- **What begins meanwhile begins higher up.** -/
theorem Ends.tasks_lt {post : σ → α → σ → Prop} {s' : σ} (h : Ends body c a s k)
    (hc : Returns post s' c) (hl : l < k)
    (hx : Configuration.after body l ⟨c, p⟩ = some x) (hasked : x.routine.asked ≠ [])
    (hy : x.next body = some y) : p.tasks.length < y.pending.tasks.length := by
  induction h generalizing l s' with
  | done => omega
  | call => cases hc
  | @ask _ task s₀ _ _ next _ _ k₁ k₂ h₁ _ _ ih₂ =>
    cases hc with
    | ask goes =>
      cases l with
      | zero =>
        cases hx
        cases hy
        exact Nat.lt_succ_self _
      | succ l =>
        by_cases hlt : l < k₁
        · -- The next configuration still belongs to the task that was asked for.
          have hnext : Configuration.after body (l + 1)
              ⟨body task s₀, .waiting task next p⟩ = some y := (after_succ hx).trans hy
          exact h₁.tasks_le hlt hnext
        · by_cases heq : l = k₁
          · subst heq
            have hdone : x = ⟨.done _ _, .waiting task next p⟩ :=
              Option.some.inj (hx.symm.trans (h₁.after _))
            subst hdone
            exact absurd rfl hasked
          · obtain ⟨d, rfl⟩ := Nat.exists_eq_add_of_lt (show k₁ < l by omega)
            rw [after_ask (h₁.after _)] at hx
            exact ih₂ (goes _ _) (by omega) hx

end Stack

end Script.Routine
