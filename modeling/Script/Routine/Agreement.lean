import Script.Routine

/-!
# The two ways to run a routine agree

`perform_eq_some_iff`: a task finishes on the stack, within some number of steps, exactly when it
resolves at some depth, and with the same result and state.  Both bounds are only bounds: more steps
and more depth keep what is there (`run_mono`, `resolve_mono`).
-/

namespace Script.Routine

variable {τ : Type} {ρ : τ → Type} {σ ω : Type}
variable {body : (task : τ) → σ → Routine τ ρ σ (ρ task)}

/-! ## Bounds are only bounds -/

/-- More steps keep what was reached with fewer. -/
theorem run_mono {steps : Nat} {α : Type} {c : Routine τ ρ σ α} {p : Pending τ ρ σ ω α}
    {x : ω × σ} (h : run body steps c p = some x) (more : Nat) :
    run body (steps + more) c p = some x := by
  fun_induction run body steps c p with
  | case1 => cases h
  | case2 => rw [Nat.succ_add]; exact h
  | case3 _ _ _ _ _ _ _ ih => rw [Nat.succ_add]; exact ih h
  | case4 _ _ _ _ ih => rw [Nat.succ_add]; exact ih h
  | case5 _ _ _ _ _ ih => rw [Nat.succ_add]; exact ih h

/-- Better replies keep what was found with fewer. -/
theorem answer_mono {f g : (task : τ) → σ → Option (ρ task × σ)}
    (better : ∀ task state x, f task state = some x → g task state = some x)
    {α : Type} (c : Routine τ ρ σ α) {x : α × σ} (h : c.answer f = some x) :
    c.answer g = some x := by
  induction c with
  | done => exact h
  | call task state => exact better task state x h
  | ask task state next ih =>
    simp only [answer] at h ⊢
    cases hf : f task state with
    | none => rw [hf] at h; cases h
    | some y =>
      rw [hf] at h
      rw [better task state y hf]
      exact ih _ _ h

/-- More depth keeps what was reached with less. -/
theorem resolve_succ {depth : Nat} {task : τ} {state : σ} {x : ρ task × σ}
    (h : resolve body depth task state = some x) :
    resolve body (depth + 1) task state = some x := by
  induction depth generalizing task state with
  | zero => cases h
  | succ depth ih =>
    have better : ∀ t s y, resolve body depth t s = some y →
        resolve body (depth + 1) t s = some y :=
      fun _ _ _ h => ih h
    exact answer_mono better (body task state) h

theorem resolve_mono {depth : Nat} {task : τ} {state : σ} {x : ρ task × σ}
    (h : resolve body depth task state = some x) (more : Nat) :
    resolve body (depth + more) task state = some x := by
  induction more with
  | zero => exact h
  | succ more ih => exact resolve_succ ih

/-! ## From depth to steps -/

/-- A step of the stack puts what waits for a task on top of it. -/
theorem run_ask {α : Type} (steps : Nat) (task : τ) (state : σ)
    (next : ρ task → σ → Routine τ ρ σ α) (p : Pending τ ρ σ ω α) :
    run body steps (ask task state next) p =
      run body steps (call task state) (.waiting task next p) := by
  cases steps <;> rfl

/-- If the tasks that a routine asks for come to an end on the stack, so does the routine. -/
theorem exists_run_of_answer {depth : Nat}
    (ends : ∀ task state result state', resolve body depth task state = some (result, state') →
      ∃ k, ∀ steps (p : Pending τ ρ σ ω (ρ task)),
        run body (k + steps) (call task state) p = run body steps (done result state') p)
    {α : Type} (c : Routine τ ρ σ α) {a : α} {state' : σ}
    (h : c.answer (resolve body depth) = some (a, state')) :
    ∃ k, ∀ steps (p : Pending τ ρ σ ω α),
      run body (k + steps) c p = run body steps (done a state') p := by
  induction c with
  | done =>
    cases h
    exact ⟨0, fun steps p => by rw [Nat.zero_add]⟩
  | call task state => exact ends task state a state' h
  | ask task state next ih =>
    simp only [answer] at h
    cases hr : resolve body depth task state with
    | none => rw [hr] at h; cases h
    | some y =>
      rw [hr] at h
      obtain ⟨k₁, h₁⟩ := ends task state y.1 y.2 hr
      obtain ⟨k₂, h₂⟩ := ih y.1 y.2 h
      refine ⟨k₁ + (k₂ + 1), fun steps p => ?_⟩
      rw [run_ask, Nat.add_assoc, h₁, Nat.add_right_comm]
      exact h₂ steps p

theorem exists_run_of_resolve {depth : Nat} {task : τ} {state : σ} {result : ρ task} {state' : σ}
    (h : resolve body depth task state = some (result, state')) :
    ∃ k, ∀ steps (p : Pending τ ρ σ ω (ρ task)),
      run body (k + steps) (call task state) p = run body steps (done result state') p := by
  induction depth generalizing task state result state' with
  | zero => cases h
  | succ depth ih =>
    obtain ⟨k, hk⟩ := exists_run_of_answer (fun _ _ _ _ h => ih h) (body task state) h
    exact ⟨k + 1, fun steps p => by rw [Nat.add_right_comm]; exact hk steps p⟩

/-! ## From steps to depth -/

/-- A run that ends has an end of its first part in it: the routine resolves, and what waited goes
on from there in fewer steps. -/
theorem exists_answer_of_run {steps : Nat} {α : Type} {c : Routine τ ρ σ α}
    {p : Pending τ ρ σ ω α} {x : ω × σ} (h : run body steps c p = some x) :
    ∃ depth a state' rest, rest ≤ steps ∧ c.answer (resolve body depth) = some (a, state') ∧
      run body rest (done a state') p = some x := by
  induction steps using Nat.strongRecOn generalizing α with
  | ind steps ih =>
    cases steps with
    | zero => cases h
    | succ steps =>
      cases c with
      | done a state => exact ⟨0, a, state, steps + 1, Nat.le_refl _, rfl, h⟩
      | call task state =>
        obtain ⟨depth, a, state', rest, hle, ha, hr⟩ := ih steps (Nat.lt_succ_self _) h
        exact ⟨depth + 1, a, state', rest, by omega, ha, hr⟩
      | ask task state next =>
        obtain ⟨d₁, a, state₁, rest₁, hle₁, ha, hr₁⟩ := ih steps (Nat.lt_succ_self _) h
        cases rest₁ with
        | zero => cases hr₁
        | succ rest₁ =>
          obtain ⟨d₂, b, state₂, rest₂, hle₂, hb, hr₂⟩ := ih rest₁ (by omega) hr₁
          refine ⟨d₁ + 1 + d₂, b, state₂, rest₂, by omega, ?_, hr₂⟩
          have h₀ : resolve body (d₁ + 1) task state = some (a, state₁) := ha
          have h₁ := resolve_mono h₀ d₂
          simp only [answer, h₁]
          refine answer_mono (fun _ _ _ h => ?_) _ hb
          rw [Nat.add_comm]
          exact resolve_mono h _

/-- A task finishes on the stack exactly when it resolves at some depth. -/
theorem perform_eq_some_iff {task : τ} {state : σ} {x : ρ task × σ} :
    (∃ steps, perform body steps task state = some x) ↔
      ∃ depth, resolve body depth task state = some x := by
  constructor
  · rintro ⟨steps, h⟩
    obtain ⟨depth, a, state', rest, -, ha, hr⟩ := exists_answer_of_run h
    cases rest with
    | zero => cases hr
    | succ rest =>
      cases hr
      exact ⟨depth, ha⟩
  · rintro ⟨depth, h⟩
    obtain ⟨k, hk⟩ := exists_run_of_resolve (ω := ρ task) h
    exact ⟨k + 1, hk 1 .nothing⟩

end Script.Routine
