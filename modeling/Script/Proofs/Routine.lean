import Script.Routine.Agreement

/-!
# Taking routines apart

Two ways to reason about a body, one for each way to run it.

* Answers.  Some work that is a sequence was answered only if its parts were
  (`Action.answer_bind_cases`), and it went well only if they did (`Action.answer_bind_ok`).  So
  what a routine did is read off its text, one part after another, without a look at how the tasks
  it asked for were done.  `Action.Ensures` is a condition on all that some work may come to; what
  every task ensures, given that the tasks it asks for do, is ensured by every run
  (`Action.ensures_of_perform`).
* Steps.  `Ends body c a s k` says that the routine `c` comes to an end with the result `a` and the
  state `s`, and that a stack spends `k` steps on it.  It has one rule for each form of a routine,
  and `Ends.run` turns it into a fact about `Routine.run` on top of any stack.
-/

namespace Script

namespace Routine

variable {τ : Type} {ρ : τ → Type} {σ : Type}

/-- A sequence is answered part by part. -/
theorem answer_bind (reply : (task : τ) → σ → Option (ρ task × σ)) {α β : Type}
    (c : Routine τ ρ σ α) (next : α → σ → Routine τ ρ σ β) :
    (c.bind next).answer reply =
      (c.answer reply).bind fun x => (next x.1 x.2).answer reply := by
  induction c with
  | done => rfl
  | call task state =>
    show answer reply (ask task state next) = _
    rw [answer]
    cases h : reply task state <;> simp [answer, h]
  | ask task state first ih =>
    show answer reply (ask task state fun r s => (first r s).bind next) = _
    rw [answer, answer]
    cases reply task state with
    | none => rfl
    | some x => exact ih x.1 x.2 next

/-! ## Counting steps -/

variable {body : (task : τ) → σ → Routine τ ρ σ (ρ task)}

/-- `c` comes to an end with `a` and `s`, in `k` steps of the stack.  A task that is asked for takes
one step to begin and one more to hand its result back. -/
inductive Ends (body : (task : τ) → σ → Routine τ ρ σ (ρ task)) :
    {α : Type} → Routine τ ρ σ α → α → σ → Nat → Prop
  | done {α : Type} (a : α) (s : σ) : Ends body (.done a s) a s 0
  | call {task : τ} {s s' : σ} {a : ρ task} {k : Nat} (h : Ends body (body task s) a s' k) :
      Ends body (.call task s) a s' (k + 1)
  | ask {α : Type} {task : τ} {s s₁ s₂ : σ} {next : ρ task → σ → Routine τ ρ σ α}
      {r : ρ task} {a : α} {k₁ k₂ : Nat} (h₁ : Ends body (body task s) r s₁ k₁)
      (h₂ : Ends body (next r s₁) a s₂ k₂) : Ends body (.ask task s next) a s₂ (k₁ + k₂ + 2)

/-- A routine that ends does so on top of any stack, which then goes on with the result. -/
theorem Ends.run {α ω : Type} {c : Routine τ ρ σ α} {a : α} {s : σ} {k : Nat}
    (h : Ends body c a s k) (steps : Nat) (p : Pending τ ρ σ ω α) :
    Routine.run body (k + steps) c p = Routine.run body steps (.done a s) p := by
  induction h generalizing steps with
  | done => rw [Nat.zero_add]
  | call _ ih =>
    rw [Nat.add_right_comm]
    exact ih steps p
  | @ask _ task s s₁ s₂ next r a k₁ k₂ _ _ ih₁ ih₂ =>
    have hk : k₁ + k₂ + 2 + steps = k₁ + (k₂ + steps + 1) + 1 := by omega
    rw [hk]
    exact (ih₁ _ (.waiting task next p)).trans (ih₂ steps p)

/-- A routine ends in one way only. -/
theorem Ends.unique {α : Type} {c : Routine τ ρ σ α} {a a' : α} {s s' : σ} {k k' : Nat}
    (h : Ends body c a s k) (h' : Ends body c a' s' k') : a = a' ∧ s = s' := by
  have hrun : some (a, s) = some (a', s') := by
    rw [← show Routine.run body (k + (k' + 1)) c .nothing = some (a, s) from h.run _ _,
      ← show Routine.run body (k' + (k + 1)) c .nothing = some (a', s') from h'.run _ _,
      show k + (k' + 1) = k' + (k + 1) by omega]
  cases hrun
  exact ⟨rfl, rfl⟩

/-- A task that ends is performed, if there are as many steps as it takes and one more. -/
theorem Ends.perform {task : τ} {s s' : σ} {a : ρ task} {k steps : Nat}
    (h : Ends body (body task s) a s' k) (enough : k + 2 ≤ steps) :
    Routine.perform body steps task s = some (a, s') := by
  obtain ⟨more, rfl⟩ := Nat.exists_eq_add_of_le enough
  have hrun := (Ends.call h).run (more + 1) (.nothing (ω := ρ task))
  rw [show k + 1 + (more + 1) = k + 2 + more from by omega] at hrun
  exact hrun

/-- A sequence ends as its second part does.  It takes a step more than its parts when the first one
is a mere call, for which nothing waited before. -/
theorem Ends.bind {α β : Type} {c : Routine τ ρ σ α} {next : α → σ → Routine τ ρ σ β} {a : α}
    {b : β} {s s' : σ} {k k' : Nat} (h : Ends body c a s k) (h' : Ends body (next a s) b s' k') :
    ∃ n ≤ k + k' + 1, Ends body (c.bind next) b s' n := by
  induction h with
  | done => exact ⟨k', by omega, h'⟩
  | @call task _ _ _ k h => exact ⟨k + k' + 2, by omega, .ask h h'⟩
  | @ask _ _ _ _ _ _ _ _ k₁ k₂ h₁ _ _ ih₂ =>
    obtain ⟨n, hn, hends⟩ := ih₂ h'
    exact ⟨k₁ + n + 2, by omega, .ask h₁ hends⟩

end Routine

namespace Action

variable {τ : Type} {ρ : τ → Type} {ε σ α β : Type}
variable {reply : (task : τ) → σ → Option (Except ε (ρ task) × σ)}

/-- Work that begins with a look at the state. -/
theorem get_bind (next : σ → Action τ ρ ε σ α) (s : σ) :
    (get >>= next : Action τ ρ ε σ α) s = next s s := rfl

/-- **A sequence was answered in one of two ways.**  Either its first part went well and its second
part has the outcome, or its first part failed and that is the outcome. -/
theorem answer_bind_cases {first : Action τ ρ ε σ α} {next : α → Action τ ρ ε σ β} {s s' : σ}
    {outcome : Except ε β}
    (h : ((first >>= next) s).answer reply = some (outcome, s')) :
    (∃ a s₁, (first s).answer reply = some (.ok a, s₁) ∧
      (next a s₁).answer reply = some (outcome, s')) ∨
    ∃ e, (first s).answer reply = some (.error e, s') ∧ outcome = .error e := by
  rw [show (first >>= next) s = (first s).bind _ from rfl, Routine.answer_bind] at h
  obtain ⟨⟨out, s₁⟩, hfirst, hnext⟩ := Option.bind_eq_some_iff.mp h
  cases out with
  | ok a => exact .inl ⟨a, s₁, hfirst, hnext⟩
  | error e =>
    cases hnext
    exact .inr ⟨e, hfirst, rfl⟩

/-- A sequence that went well consists of parts that did. -/
theorem answer_bind_ok {first : Action τ ρ ε σ α} {next : α → Action τ ρ ε σ β} {s s' : σ} {b : β}
    (h : ((first >>= next) s).answer reply = some (.ok b, s')) :
    ∃ a s₁, (first s).answer reply = some (.ok a, s₁) ∧
      (next a s₁).answer reply = some (.ok b, s') := by
  rcases answer_bind_cases h with hok | ⟨e, -, he⟩
  · exact hok
  · cases he

/-! ## Conditions on what comes of some work -/

/-- Whatever the work comes to from `s`, be it a result or a failure, satisfies `post`.  Nothing is
said about work that is not answered. -/
def Ensures (reply : (task : τ) → σ → Option (Except ε (ρ task) × σ)) (work : Action τ ρ ε σ α)
    (s : σ) (post : Except ε α → σ → Prop) : Prop :=
  ∀ outcome s', (work s).answer reply = some (outcome, s') → post outcome s'

/-- Work that is over in one step. -/
theorem ensures_done {f : σ → Except ε α × σ} {s : σ} {post : Except ε α → σ → Prop}
    (h : post (f s).1 (f s).2) : Ensures reply (fun s => .done (f s).1 (f s).2) s post := by
  intro outcome s' heq
  cases heq
  exact h

/-- After a first part that went well the second one has to ensure the condition; a failure of the
first part has to satisfy it. -/
theorem ensures_bind {first : Action τ ρ ε σ α} {next : α → Action τ ρ ε σ β} {s : σ}
    {mid : Except ε α → σ → Prop} {post : Except ε β → σ → Prop} (h : Ensures reply first s mid)
    (hok : ∀ a s₁, mid (.ok a) s₁ → Ensures reply (next a) s₁ post)
    (herror : ∀ e s₁, mid (.error e) s₁ → post (.error e) s₁) :
    Ensures reply (first >>= next) s post := by
  intro outcome s' heq
  rcases answer_bind_cases heq with ⟨a, s₁, hfirst, hnext⟩ | ⟨e, hfirst, rfl⟩
  · exact hok a s₁ (h _ _ hfirst) outcome s' hnext
  · exact herror e s' (h _ _ hfirst)

/-- The outcome of some work is a result, whatever it is. -/
theorem ensures_outcome {work : Action τ ρ ε σ α} {s : σ} {mid : Except ε α → σ → Prop}
    {post : Except ε (Except ε α) → σ → Prop} (h : Ensures reply work s mid)
    (hpost : ∀ out s₁, mid out s₁ → post (.ok out) s₁) :
    Ensures reply (Action.outcome work) s post := by
  intro outcome s' heq
  rw [show Action.outcome work s = (work s).bind _ from rfl, Routine.answer_bind] at heq
  obtain ⟨⟨out, s₁⟩, hwork, hdone⟩ := Option.bind_eq_some_iff.mp heq
  cases hdone
  exact hpost out s₁ (h out s₁ hwork)

/-- **What the bodies of all tasks ensure is ensured by every run.**  A body may take it for granted
of the tasks that it asks for.  By induction on how deeply these nest. -/
theorem ensures_of_perform {body : (task : τ) → Action τ ρ ε σ (ρ task)}
    (post : (task : τ) → σ → Except ε (ρ task) → σ → Prop)
    (step : ∀ reply, (∀ task s, Ensures reply (Action.call task) s (post task s)) →
      ∀ task s, Ensures reply (body task) s (post task s))
    {steps : Nat} {task : τ} {s s' : σ} {outcome : Except ε (ρ task)}
    (h : Routine.perform body steps task s = some (outcome, s')) : post task s outcome s' := by
  have hdepth : ∀ depth task s,
      Ensures (Routine.resolve body depth) (Action.call task) s (post task s) := by
    intro depth
    induction depth with
    | zero => exact fun _ _ _ _ heq => nomatch heq
    | succ depth ih => exact fun task s => step _ ih task s
  obtain ⟨depth, hresolve⟩ := Routine.perform_eq_some_iff.mp ⟨steps, h⟩
  exact hdepth depth task s outcome s' hresolve

/-- A sequence whose first part goes well ends as its second part does. -/
theorem ends_bind {body : (task : τ) → Action τ ρ ε σ (ρ task)} {first : Action τ ρ ε σ α}
    {next : α → Action τ ρ ε σ β} {s s₁ s₂ : σ} {a : α} {outcome : Except ε β} {k k' : Nat}
    (h : Routine.Ends body (first s) (.ok a) s₁ k)
    (h' : Routine.Ends body (next a s₁) outcome s₂ k') :
    ∃ n ≤ k + k' + 1, Routine.Ends body ((first >>= next) s) outcome s₂ n :=
  Routine.Ends.bind h h'

/-- A sequence whose first part fails ends with that failure. -/
theorem ends_bind_error {body : (task : τ) → Action τ ρ ε σ (ρ task)} {first : Action τ ρ ε σ α}
    {next : α → Action τ ρ ε σ β} {s s₁ : σ} {e : ε} {k : Nat}
    (h : Routine.Ends body (first s) (.error e) s₁ k) :
    ∃ n ≤ k + 1, Routine.Ends body ((first >>= next) s) (.error e) s₁ n := by
  have hbind : ∀ k', Routine.Ends body (.done (Except.error e : Except ε β) s₁) (.error e) s₁ k' →
      ∃ n ≤ k + k' + 1, Routine.Ends body ((first >>= next) s) (.error e) s₁ n :=
    fun k' h' => Routine.Ends.bind h h'
  exact hbind 0 (.done _ _)

end Action

end Script
