import Script.Proofs.Routine.Trace

/-!
# What a routine asks for

`Consults body c tasks a s` says of a routine that comes to an end which tasks it asked for, one
after the other, until it did.  These are its own tasks only: what they ask for in their turn is not
among them.
-/

namespace Script

namespace Routine

variable {τ : Type} {ρ : τ → Type} {σ α β : Type}
  {body : (task : τ) → σ → Routine τ ρ σ (ρ task)}

/-- `c` comes to an end with `a` and `s`, having asked for `tasks` in this order. -/
inductive Consults (body : (task : τ) → σ → Routine τ ρ σ (ρ task)) :
    {α : Type} → Routine τ ρ σ α → List τ → α → σ → Prop
  | done {α : Type} (a : α) (s : σ) : Consults body (.done a s) [] a s
  | call {task : τ} {s s' : σ} {a : ρ task} {k : Nat} (h : Ends body (body task s) a s' k) :
      Consults body (.call task s) [task] a s'
  | ask {α : Type} {task : τ} {s s₁ s₂ : σ} {next : ρ task → σ → Routine τ ρ σ α} {r : ρ task}
      {tasks : List τ} {a : α} {k : Nat} (h : Ends body (body task s) r s₁ k)
      (rest : Consults body (next r s₁) tasks a s₂) :
      Consults body (.ask task s next) (task :: tasks) a s₂

theorem Ends.consults {c : Routine τ ρ σ α} {a : α} {s : σ} {k : Nat} (h : Ends body c a s k) :
    ∃ tasks, Consults body c tasks a s := by
  induction h with
  | done a s => exact ⟨[], .done a s⟩
  | call h => exact ⟨_, .call h⟩
  | ask h₁ _ _ ih₂ =>
    obtain ⟨tasks, hrest⟩ := ih₂
    exact ⟨_, .ask h₁ hrest⟩

theorem Consults.ends {c : Routine τ ρ σ α} {tasks : List τ} {a : α} {s : σ}
    (h : Consults body c tasks a s) : ∃ k, Ends body c a s k := by
  induction h with
  | done a s => exact ⟨0, .done a s⟩
  | call h => exact ⟨_, .call h⟩
  | ask h₁ _ ih₂ =>
    obtain ⟨k, hrest⟩ := ih₂
    exact ⟨_, .ask h₁ hrest⟩

theorem exists_perform_iff {task : τ} {s s' : σ} {a : ρ task} :
    (∃ steps, perform body steps task s = some (a, s')) ↔ ∃ k, Ends body (body task s) a s' k :=
  ⟨fun ⟨_, h⟩ => ends_of_perform h, fun ⟨_, h⟩ => ⟨_, h.perform (Nat.le_refl _)⟩⟩

/-- **A task that is performed has asked for some tasks,** and the other way round. -/
theorem exists_perform_iff_consults {task : τ} {s s' : σ} {a : ρ task} :
    (∃ steps, perform body steps task s = some (a, s')) ↔
      ∃ tasks, Consults body (body task s) tasks a s' :=
  exists_perform_iff.trans ⟨fun ⟨_, h⟩ => h.consults, fun ⟨_, h⟩ => h.ends⟩

theorem consults_done_iff {a b : α} {s s' : σ} {tasks : List τ} :
    Consults body (.done a s) tasks b s' ↔ tasks = [] ∧ b = a ∧ s' = s := by
  constructor
  · rintro ⟨⟩
    exact ⟨rfl, rfl, rfl⟩
  · rintro ⟨rfl, rfl, rfl⟩
    exact .done _ _

theorem consults_ask_iff {task : τ} {s s' : σ} {next : ρ task → σ → Routine τ ρ σ α} {a : α}
    {tasks : List τ} : Consults body (.ask task s next) tasks a s' ↔
      ∃ r s₁ rest, (∃ k, Ends body (body task s) r s₁ k) ∧ Consults body (next r s₁) rest a s' ∧
        tasks = task :: rest := by
  constructor
  · intro h
    cases h with
    | ask hends hrest => exact ⟨_, _, _, ⟨_, hends⟩, hrest, rfl⟩
  · rintro ⟨r, s₁, rest, ⟨k, hends⟩, hrest, rfl⟩
    exact .ask hends hrest

/-- A sequence asks for the tasks of its first part, and then for those of its second. -/
theorem consults_bind_iff {c : Routine τ ρ σ α} {next : α → σ → Routine τ ρ σ β} {tasks : List τ}
    {b : β} {s' : σ} : Consults body (c.bind next) tasks b s' ↔
      ∃ first a s₁ rest, Consults body c first a s₁ ∧ Consults body (next a s₁) rest b s' ∧
        tasks = first ++ rest := by
  constructor
  · intro h
    induction c generalizing tasks with
    | done a s => exact ⟨[], a, s, tasks, .done a s, h, rfl⟩
    | call task s =>
      obtain ⟨r, s₁, rest, ⟨k, hends⟩, hrest, rfl⟩ := consults_ask_iff.mp h
      exact ⟨[task], r, s₁, rest, .call hends, hrest, rfl⟩
    | ask task s first ih =>
      obtain ⟨r, s₂, tail, ⟨k, hends⟩, hrest, rfl⟩ := consults_ask_iff.mp h
      obtain ⟨asked, a, s₁, rest, hfirst, hnext, rfl⟩ := ih _ _ hrest
      exact ⟨task :: asked, a, s₁, rest, .ask hends hfirst, hnext, rfl⟩
  · rintro ⟨first, a, s₁, rest, hfirst, hnext, rfl⟩
    induction hfirst with
    | done a s => exact hnext
    | call hends => exact .ask hends hnext
    | ask hends _ ih => exact .ask hends (ih hnext)

theorem consults_call_iff {task : τ} {s s' : σ} {a : ρ task} {tasks : List τ} :
    Consults body (.call task s) tasks a s' ↔
      tasks = [task] ∧ ∃ steps, perform body steps task s = some (a, s') := by
  rw [exists_perform_iff]
  constructor
  · intro h
    -- A call is a question that nothing comes after, and a question can be taken apart.
    have hask : Consults body (.ask task s .done) (tasks ++ []) a s' :=
      consults_bind_iff.mpr ⟨tasks, a, s', [], h, .done a s', rfl⟩
    obtain ⟨r, s₁, rest, hends, hdone, htasks⟩ := consults_ask_iff.mp hask
    obtain ⟨rfl, rfl, rfl⟩ := consults_done_iff.mp hdone
    rw [List.append_nil] at htasks
    exact ⟨htasks, hends⟩
  · rintro ⟨rfl, k, h⟩
    exact .call h

end Routine

namespace Action

variable {τ : Type} {ρ : τ → Type} {ε σ α β : Type}
  {body : (task : τ) → Action τ ρ ε σ (ρ task)}

/-- A sequence that fails in its first part asks for nothing after that. -/
theorem consults_bind_iff {first : Action τ ρ ε σ α} {next : α → Action τ ρ ε σ β} {s s' : σ}
    {tasks : List τ} {outcome : Except ε β} :
    Routine.Consults body ((first >>= next) s) tasks outcome s' ↔
      (∃ a s₁ asked rest, Routine.Consults body (first s) asked (.ok a) s₁ ∧
        Routine.Consults body (next a s₁) rest outcome s' ∧ tasks = asked ++ rest) ∨
      ∃ e, Routine.Consults body (first s) tasks (.error e) s' ∧ outcome = .error e := by
  refine Iff.trans Routine.consults_bind_iff ?_
  constructor
  · rintro ⟨asked, out, s₁, rest, hfirst, hnext, rfl⟩
    cases out with
    | ok a => exact .inl ⟨a, s₁, asked, rest, hfirst, hnext, rfl⟩
    | error e =>
      obtain ⟨rfl, rfl, rfl⟩ := Routine.consults_done_iff.mp hnext
      rw [List.append_nil]
      exact .inr ⟨e, hfirst, rfl⟩
  · rintro (⟨a, s₁, asked, rest, hfirst, hnext, rfl⟩ | ⟨e, hfirst, rfl⟩)
    · exact ⟨asked, .ok a, s₁, rest, hfirst, hnext, rfl⟩
    · exact ⟨tasks, .error e, s', [], hfirst, .done _ _, (List.append_nil _).symm⟩

end Action

end Script
