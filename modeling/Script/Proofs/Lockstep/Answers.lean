import Script.Proofs.Lockstep.Runs
import Script.Proofs.Routine

/-!
# Answers in lockstep

Runs in lockstep spend the same number of steps.  Where one side does a little more on its way than
the other, steps cannot be compared, but answers can: a routine in lockstep is answered alike if the
tasks that it asks for are (`Lockstep.answer`), and it may be exchanged for another routine that has
the same answers (`Likeness.Answered`).  Then what is asked for is resolved alike at every depth
(`Answered.resolve`), and so the tasks end alike, in whatever number of steps (`Task.EndAlike`).
-/

namespace Script

namespace Action

variable {τ : Type} {ρ : τ → Type} {ε σ α β : Type}
  {reply : (task : τ) → σ → Option (Except ε (ρ task) × σ)}

/-- To hand a result on changes nothing about it. -/
theorem answer_bind_pure (first : Action τ ρ ε σ α) (s : σ) :
    ((first >>= pure) s).answer reply = (first s).answer reply := by
  rw [show (first >>= pure) s = (first s).bind _ from rfl, Routine.answer_bind]
  cases (first s).answer reply with
  | none => rfl
  | some r =>
    obtain ⟨out, s'⟩ := r
    cases out with
    | ok a => rfl
    | error e => rfl

/-- What comes second may be exchanged for something that has the same answers. -/
theorem answer_bind_congr {first : Action τ ρ ε σ α} {next next' : α → Action τ ρ ε σ β} {s : σ}
    (h : ∀ a s, (next a s).answer reply = (next' a s).answer reply) :
    ((first >>= next) s).answer reply = ((first >>= next') s).answer reply := by
  rw [show (first >>= next) s = (first s).bind _ from rfl,
    show (first >>= next') s = (first s).bind _ from rfl, Routine.answer_bind, Routine.answer_bind]
  cases (first s).answer reply with
  | none => rfl
  | some r =>
    obtain ⟨out, s'⟩ := r
    cases out with
    | ok a => exact h a s'
    | error e => rfl

end Action

/-- Both tasks come to an end, and the ends agree, or neither does. -/
def Task.EndAlike (limit : Nat) (agree : Task.Result × State → Task.Result × State → Prop)
    (t : Task) (s : State) (t' : Task) (s' : State) : Prop :=
  (∀ steps r, t.run limit steps s = some r → ∃ steps' r', t'.run limit steps' s' = some r' ∧
    agree r r') ∧
  ∀ steps' r', t'.run limit steps' s' = some r' → ∃ steps r, t.run limit steps s = some r ∧
    agree r r'

namespace Task.EndAlike

variable {limit : Nat} {agree agree' : Task.Result × State → Task.Result × State → Prop}
  {t t' : Task} {s s' : State}

theorem of_run (h : ∀ steps, Option.Rel agree (t.run limit steps s) (t'.run limit steps s')) :
    EndAlike limit agree t s t' s' := by
  constructor
  · intro steps r hr
    obtain ⟨r', hr', hagree⟩ := (exists_of_rel (h steps)).1 r hr
    exact ⟨steps, r', hr', hagree⟩
  · intro steps r' hr'
    obtain ⟨r, hr, hagree⟩ := (exists_of_rel (h steps)).2 r' hr'
    exact ⟨steps, r, hr, hagree⟩

theorem of_resolve (h : ∀ depth, Option.Rel agree (Routine.resolve (Eval.body limit) depth t s)
    (Routine.resolve (Eval.body limit) depth t' s')) : EndAlike limit agree t s t' s' := by
  constructor
  · intro steps r hr
    obtain ⟨depth, hdepth⟩ := Routine.perform_eq_some_iff.mp ⟨steps, hr⟩
    obtain ⟨r', hdepth', hagree⟩ := (exists_of_rel (h depth)).1 r hdepth
    obtain ⟨steps', hr'⟩ := Routine.perform_eq_some_iff.mpr ⟨depth, hdepth'⟩
    exact ⟨steps', r', hr', hagree⟩
  · intro steps' r' hr'
    obtain ⟨depth, hdepth'⟩ := Routine.perform_eq_some_iff.mp ⟨steps', hr'⟩
    obtain ⟨r, hdepth, hagree⟩ := (exists_of_rel (h depth)).2 r' hdepth'
    obtain ⟨steps, hr⟩ := Routine.perform_eq_some_iff.mpr ⟨depth, hdepth⟩
    exact ⟨steps, r, hr, hagree⟩

/-- The task on the right may be exchanged for another one that comes to the same. -/
theorem of_right {u : Task} {s₁ : State} (h : EndAlike limit agree t s u s₁)
    (hsame : ∀ r, (∃ k, t'.run limit k s' = some r) ↔ ∃ k, u.run limit k s₁ = some r) :
    EndAlike limit agree t s t' s' := by
  constructor
  · intro steps r hr
    obtain ⟨k, r', hu, hagree⟩ := h.1 steps r hr
    obtain ⟨steps', hr'⟩ := (hsame r').mpr ⟨k, hu⟩
    exact ⟨steps', r', hr', hagree⟩
  · intro steps' r' hr'
    obtain ⟨k, hu⟩ := (hsame r').mp ⟨steps', hr'⟩
    exact h.2 k r' hu

theorem imp (h : EndAlike limit agree t s t' s') (himp : ∀ r r', agree r r' → agree' r r') :
    EndAlike limit agree' t s t' s' := by
  constructor
  · intro steps r hr
    obtain ⟨steps', r', hr', hagree⟩ := h.1 steps r hr
    exact ⟨steps', r', hr', himp r r' hagree⟩
  · intro steps' r' hr'
    obtain ⟨steps, r, hr, hagree⟩ := h.2 steps' r' hr'
    exact ⟨steps, r, hr, himp r r' hagree⟩

end Task.EndAlike

namespace Likeness

variable {L : Likeness} {T : Trees} {w : L.World} {depth : Nat}

/-- **A routine in lockstep is answered alike if the tasks that it may ask for are.** -/
theorem Lockstep.answer (hL : L.Lawful) {α β : Type} {lost : α → Prop}
    {good : L.World → α → β → Prop} {c : Work α} {c' : Work β}
    (h : L.Lockstep T depth w lost good c c') (never : ∀ a, ¬ lost a)
    {reply reply' : Task → State → Option (Task.Result × State)}
    (tasks : ∀ w t t' s s', L.Tasks T w t t' → L.At w (depth + t.calls) s s' →
      Option.Rel (L.Final w (depth + t.calls)) (reply t s) (reply' t' s')) :
    Option.Rel (fun r r' => ∃ w₁, L.le w w₁ ∧ good w₁ r.1 r'.1 ∧ L.At w₁ depth r.2 r'.2)
      (c.answer reply) (c'.answer reply') := by
  induction h with
  | done le here result => exact .some ⟨_, le, result, here⟩
  | @lost _ _ _ _ _ a _ _ h => exact absurd h (never a)
  | @call _ w₁ _ _ t t' s s' le here task calls _ result =>
    have hat : L.At w₁ (depth + t.calls) s s' := by rwa [calls]
    have hreply := tasks w₁ t t' s s' task hat
    rw [Routine.answer, Routine.answer]
    generalize reply t s = o, reply' t' s' = o' at hreply ⊢
    cases hreply with
    | none => exact .none
    | some hfinal =>
      obtain ⟨w₂, hle, hout, hat₂⟩ := hfinal
      rw [calls] at hat₂
      exact .some ⟨w₂, hL.trans le hle, result w₂ _ _ hle hout, hat₂⟩
  | @ask _ _ _ w₁ _ _ t t' s s' next next' le here task _ _ _ ih =>
    have hreply := tasks w₁ t t' s s' task here
    rw [Routine.answer, Routine.answer]
    generalize reply t s = o, reply' t' s' = o' at hreply ⊢
    cases hreply with
    | none => exact .none
    | @some r r' hfinal =>
      obtain ⟨w₂, hle, hout, hat₂⟩ := hfinal
      have hnext := ih w₂ r.1 r'.1 r.2 r'.2 hle hat₂ hout never
      show Option.Rel _ ((next r.1 r.2).answer reply) ((next' r'.1 r'.2).answer reply')
      generalize (next r.1 r.2).answer reply = a, (next' r'.1 r'.2).answer reply' = a' at hnext ⊢
      cases hnext with
      | none => exact .none
      | some hgood =>
        obtain ⟨w₃, hle', hgood, hat₃⟩ := hgood
        exact .some ⟨w₃, hL.trans le (hL.trans hle hle'), hgood, hat₃⟩

/-- The routine on the right has the answers of one that goes in lockstep. -/
def Answered (L : Likeness) (T : Trees) (depth : Nat) (w : L.World) (c c' : Work Task.Result) :
    Prop :=
  ∃ c₁, L.InStep T depth w c c₁ ∧ ∀ reply, c'.answer reply = c₁.answer reply

theorem InStep.answered {c c' : Work Task.Result} (h : L.InStep T depth w c c') :
    L.Answered T depth w c c' :=
  ⟨c', h, fun _ => rfl⟩

section Answers

variable (hL : L.Lawful) (never : ∀ e, ¬ L.lost e)
  (works : ∀ w depth t t' s s', L.Tasks T w t t' → L.At w depth s s' →
    L.Answered T depth w (Eval.body L.limit t s) (Eval.body L.limit' t' s'))
include hL never works

/-- **What is asked for is resolved alike**, at every depth. -/
theorem Answered.resolve {c c' : Work Task.Result} (h : L.Answered T depth w c c') (n : Nat) :
    Option.Rel (L.Final w depth) (c.answer (Routine.resolve (Eval.body L.limit) n))
      (c'.answer (Routine.resolve (Eval.body L.limit') n)) := by
  induction n generalizing w depth c c' with
  | zero =>
    obtain ⟨c₁, hstep, hsame⟩ := h
    rw [hsame]
    exact hstep.answer hL (fun _ => not_lost never) fun _ _ _ _ _ _ _ => .none
  | succ n ih =>
    obtain ⟨c₁, hstep, hsame⟩ := h
    rw [hsame]
    refine hstep.answer hL (fun _ => not_lost never) fun w t t' s s' htask hat => ?_
    exact ih (works w _ t t' s s' htask hat)

end Answers

end Likeness

end Script
