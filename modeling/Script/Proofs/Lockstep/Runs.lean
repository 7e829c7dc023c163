import Script.Proofs.Lockstep.Evaluation

/-!
# Runs in lockstep

What the rules of the evaluation keep (`Likeness.Layer.alike`) is kept by whole runs, for two ways
to run a routine.

* On a stack.  `Likeness.Stacked` compares what waits, and `Likeness.Together` what is at work on
  top of it.  One step of the stack leads from configurations that go together to others that do
  (`Together.next`), or else the left run is about to end with a failure that is lost.  So the runs
  end together, after the same number of steps and with outcomes that are alike
  (`Likeness.run_of_run`, `Likeness.run_rel`), and on the way the depth is the number of calls on
  the stack (`Together.depth_eq`, `Together.depth_le`).
* As a whole.  A routine in lockstep ends if the tasks that it may ask for do (`Lockstep.ends`).
-/

namespace Script

/-- What a task comes to. -/
abbrev Task.Result : Type := Except RuntimeError Value

/-- What waits for a task. -/
abbrev Stack : Type 1 := Routine.Pending Task (fun _ => Task.Result) State Task.Result Task.Result

/-- A moment of the evaluation of a task. -/
abbrev Moment : Type 1 := Routine.Configuration Task (fun _ => Task.Result) State Task.Result

/-- Related options hold related values, or neither holds any. -/
theorem exists_of_rel {α β : Type} {rel : α → β → Prop} {o : Option α} {o' : Option β}
    (h : Option.Rel rel o o') : (∀ a, o = some a → ∃ b, o' = some b ∧ rel a b) ∧
      ∀ b, o' = some b → ∃ a, o = some a ∧ rel a b := by
  cases h with
  | none => exact ⟨nofun, nofun⟩
  | @some a b hab =>
    constructor
    · rintro _ ⟨⟩
      exact ⟨b, rfl, hab⟩
    · rintro _ ⟨⟩
      exact ⟨a, rfl, hab⟩

theorem Task.calls_le_one (t : Task) : t.calls ≤ 1 := by
  cases t with
  | invocation body scope => exact Nat.le_refl 1
  | program | expr | stmt | loop => exact Nat.zero_le 1

/-- How many of the tasks are calls. -/
def Task.callsIn : List Task → Nat
  | [] => 0
  | task :: tasks => task.calls + callsIn tasks

/-- A run ends where its moments do.  The first of them is the beginning of the task's own work. -/
theorem Task.run_eq_some_iff {limit steps : Nat} {t : Task} {s s' : State} {out : Task.Result} :
    t.run limit steps s = some (out, s') ↔ ∃ n, n + 1 < steps ∧
      Routine.Configuration.after (Eval.body limit) n ⟨Eval.body limit t s, .nothing⟩ =
        some ⟨.done out s', .nothing⟩ := by
  constructor
  · intro hrun
    obtain ⟨n, hn, hafter⟩ := Routine.run_eq_some_iff.mp hrun
    cases n with
    | zero => cases hafter
    | succ n => exact ⟨n, hn, hafter⟩
  · rintro ⟨n, hn, hafter⟩
    exact Routine.run_eq_some_iff.mpr ⟨n + 1, hn, hafter⟩

namespace Likeness

variable {L : Likeness} {T : Trees} {origin w w₁ : L.World} {base depth : Nat}

section Definitions

variable (L) (T) (origin : L.World) (base : Nat)

/-- The work of two tasks goes in lockstep. -/
def InStep (depth : Nat) (w : L.World) (c c' : Work Task.Result) : Prop :=
  L.Lockstep T depth w L.Lost (fun w => L.Outcome (L.value w)) c c'

/-- Two stacks that go on in lockstep from results that are alike, with `depth` active calls on top
of them and `base` at their end, where all that was agreed upon at the `origin` still holds. -/
inductive Stacked : Nat → L.World → Stack → Stack → Prop
  | nothing {w : L.World} (le : L.le origin w) : Stacked base w .nothing .nothing
  | waiting {depth : Nat} {w : L.World} {t t' : Task} {rest rest' : Stack}
      {next next' : Task.Result → State → Work Task.Result} (calls : t.calls = t'.calls)
      (fits : t.calls = 0 ∨ depth < L.limit ∧ Leaving next)
      (loses : ∀ out s, L.Lost out → ∃ a s₁, next out s = .done a s₁ ∧ L.Lost a)
      (goes : ∀ w₁ out out' s s', L.le w w₁ → L.At w₁ (depth + t.calls) s s' →
        L.Outcome (L.value w₁) out out' → L.InStep T depth w₁ (next out s) (next' out' s'))
      (below : Stacked depth w rest rest') :
      Stacked (depth + t.calls) w (.waiting t next rest) (.waiting t' next' rest')

/-- Two moments with work and stacks that go in lockstep. -/
inductive Together : Moment → Moment → Prop
  | mk {depth : Nat} {w : L.World} {c c' : Work Task.Result} {p p' : Stack}
      (work : L.InStep T depth w c c') (stack : L.Stacked T origin base depth w p p') :
      Together ⟨c, p⟩ ⟨c', p'⟩

/-- A moment with a failure that is lost, which all that waits passes on. -/
inductive Losing : Moment → Prop
  | mk {depth : Nat} {w : L.World} {out : Task.Result} {s : State} {p p' : Stack}
      (lost : L.Lost out) (stack : L.Stacked T origin base depth w p p') : Losing ⟨.done out s, p⟩

end Definitions

/-! ## Stacks -/

theorem Stacked.of_le (hL : L.Lawful) {p p' : Stack} (h : L.Stacked T origin base depth w p p')
    (hle : L.le w w₁) : L.Stacked T origin base depth w₁ p p' := by
  induction h with
  | nothing le => exact .nothing (hL.trans le hle)
  | waiting calls fits loses goes _ ih =>
    refine .waiting calls fits loses (fun w₂ out out' s s' hle' => ?_) (ih hle)
    exact goes w₂ out out' s s' (hL.trans hle hle')

theorem Stacked.depth_eq {p p' : Stack} (h : L.Stacked T origin base depth w p p') :
    depth = base + Task.callsIn p.tasks := by
  induction h with
  | nothing => rfl
  | waiting _ _ _ _ _ ih =>
    rw [Routine.Pending.tasks, Task.callsIn]
    omega

theorem Stacked.depth_le {p p' : Stack} (h : L.Stacked T origin base depth w p p')
    (hbase : base ≤ L.limit) : depth ≤ L.limit := by
  induction h with
  | nothing => exact hbase
  | @waiting depth _ t _ _ _ _ _ _ fits _ _ _ ih =>
    have hcalls : t.calls ≤ 1 := t.calls_le_one
    omega

/-! ## Steps -/

/-- What is lost stays lost. -/
theorem Losing.next {c c₁ : Moment} (h : L.Losing T origin base c)
    (hnext : c.next (Eval.body L.limit) = some c₁) : L.Losing T origin base c₁ := by
  obtain ⟨lost, stack⟩ := h
  cases stack with
  | nothing => cases hnext
  | @waiting _ _ _ _ next _ _ _ _ _ loses _ below =>
    cases hnext
    obtain ⟨a, s₁, hdone, ha⟩ := loses _ _ lost
    rw [hdone]
    exact .mk ha below

/-- **One step.**  Both sides take a step, to moments that go together again, or both are over;
unless the left side is losing. -/
theorem Together.next (hL : L.Lawful) (closed : L.Closed T) {c c' : Moment}
    (h : L.Together T origin base c c') : L.Losing T origin base c ∨
      (c.next (Eval.body L.limit) = none ∧ c'.next (Eval.body L.limit') = none) ∨
      ∃ c₁ c₁', c.next (Eval.body L.limit) = some c₁ ∧ c'.next (Eval.body L.limit') = some c₁' ∧
        L.Together T origin base c₁ c₁' := by
  obtain ⟨work, stack⟩ := h
  cases work with
  | lost h => exact .inl (.mk h stack)
  | done le here result =>
    cases stack with
    | nothing => exact .inr (.inl ⟨rfl, rfl⟩)
    | waiting _ _ _ goes below =>
      have hwork := goes _ _ _ _ _ le here result
      exact .inr (.inr ⟨_, _, rfl, rfl, hwork, below.of_le hL le⟩)
  | call le here task _ _ _ =>
    have hwork := (closed _ _ _ task).alike hL _ _ here
    exact .inr (.inr ⟨_, _, rfl, rfl, hwork, stack.of_le hL le⟩)
  | ask le here task fits loses goes =>
    -- What asked goes on the stack, and lockstep says how it goes on when the task is over.
    have hwork := (closed _ _ _ task).alike hL _ _ here
    have hstack := Stacked.waiting task.calls_eq fits loses goes (stack.of_le hL le)
    exact .inr (.inr ⟨_, _, rfl, rfl, hwork, hstack⟩)

theorem not_lost (never : ∀ e, ¬ L.lost e) {out : Task.Result} : ¬ L.Lost out := by
  rintro ⟨e, -, he⟩
  exact never e he

theorem not_losing (never : ∀ e, ¬ L.lost e) {c : Moment} : ¬ L.Losing T origin base c := by
  rintro ⟨hlost, -⟩
  exact not_lost never hlost

theorem Losing.after {c c₁ : Moment} {n : Nat} (h : L.Losing T origin base c)
    (hafter : c.after (Eval.body L.limit) n = some c₁) : L.Losing T origin base c₁ := by
  induction n generalizing c with
  | zero =>
    cases hafter
    exact h
  | succ n ih =>
    obtain ⟨c₀, hnext, hrest⟩ := Option.bind_eq_some_iff.mp hafter
    exact ih (h.next hnext) hrest

/-- **Some steps.**  Where the left side has got to, the right side has too, unless the left side
is losing. -/
theorem Together.after (hL : L.Lawful) (closed : L.Closed T) {c c' c₁ : Moment} {n : Nat}
    (h : L.Together T origin base c c') (hafter : c.after (Eval.body L.limit) n = some c₁) :
    L.Losing T origin base c₁ ∨ ∃ c₁', c'.after (Eval.body L.limit') n = some c₁' ∧
      L.Together T origin base c₁ c₁' := by
  -- The first step comes off, since what is lost in it is lost for all that follow.
  induction n generalizing c c' with
  | zero =>
    cases hafter
    exact .inr ⟨c', rfl, h⟩
  | succ n ih =>
    rcases h.next hL closed with hlosing | ⟨hnone, -⟩ | ⟨c₀, c₀', hnext, hnext', htogether⟩
    · exact .inl (hlosing.after hafter)
    · rw [Routine.Configuration.after_of_none hnone] at hafter
      cases hafter
    · rw [Routine.Configuration.after_of_next hnext] at hafter
      rw [Routine.Configuration.after_of_next hnext']
      exact ih htogether hafter

/-- Where nothing can be lost, the left side has got to wherever the right side has. -/
theorem Together.after_right (hL : L.Lawful) (closed : L.Closed T) (never : ∀ e, ¬ L.lost e)
    {c c' c₁' : Moment} {n : Nat} (h : L.Together T origin base c c')
    (hafter : c'.after (Eval.body L.limit') n = some c₁') :
    ∃ c₁, c.after (Eval.body L.limit) n = some c₁ ∧ L.Together T origin base c₁ c₁' := by
  induction n generalizing c c' with
  | zero =>
    cases hafter
    exact ⟨c, rfl, h⟩
  | succ n ih =>
    rcases h.next hL closed with hlosing | ⟨-, hnone'⟩ | ⟨c₀, c₀', hnext, hnext', htogether⟩
    · exact absurd hlosing (not_losing never)
    · rw [Routine.Configuration.after_of_none hnone'] at hafter
      cases hafter
    · rw [Routine.Configuration.after_of_next hnext'] at hafter
      rw [Routine.Configuration.after_of_next hnext]
      exact ih htogether hafter

/-- **The depth is exact.**  Where nothing can be lost, it is the number of calls on the stack and
about to begin. -/
theorem Together.depth_eq (never : ∀ e, ¬ L.lost e) {c c' : Moment}
    (h : L.Together T origin base c c') : c.state.depth = base + Task.callsIn c.active := by
  obtain @⟨depth, w, c, c', p, p', work, stack⟩ := h
  have hstack := stack.depth_eq
  cases work with
  | lost h => exact absurd h (not_lost never)
  | done _ here _ => exact here.left.trans hstack
  | @call _ _ _ _ t _ _ _ _ here _ calls _ _ =>
    refine here.left.trans ?_
    show depth = base + (t.calls + Task.callsIn p.tasks)
    omega
  | @ask _ _ _ _ _ _ t _ _ _ _ _ _ here _ _ _ _ =>
    refine here.left.trans ?_
    show depth + t.calls = base + (t.calls + Task.callsIn p.tasks)
    omega

/-- The depth stays within the limit, if it was at the beginning. -/
theorem Together.depth_le (never : ∀ e, ¬ L.lost e) {c c' : Moment}
    (h : L.Together T origin base c c') (hbase : base ≤ L.limit) : c.state.depth ≤ L.limit := by
  obtain ⟨work, stack⟩ := h
  have hstack := stack.depth_le hbase
  cases work with
  | lost h => exact absurd h (not_lost never)
  | done _ here _ => exact here.left ▸ hstack
  | call _ here _ _ _ _ => exact here.left ▸ hstack
  | @ask _ _ _ _ _ _ t _ _ _ _ _ _ here _ fits _ _ =>
    refine (show _ = _ from here.left) ▸ ?_
    have := t.calls_le_one
    omega

/-- Where nothing can be lost, the states at two moments that go together are alike. -/
theorem Together.states (never : ∀ e, ¬ L.lost e) {c c' : Moment}
    (h : L.Together T origin base c c') : ∃ w, L.state w c.state c'.state := by
  obtain ⟨work, -⟩ := h
  cases work with
  | lost h => exact absurd h (not_lost never)
  | done _ here _ => exact ⟨_, here.state⟩
  | call _ here _ _ _ _ => exact ⟨_, here.state⟩
  | ask _ here _ _ _ _ => exact ⟨_, here.state⟩

/-- What waits for a call takes it off the depth. -/
theorem Together.leaving {c : Work Task.Result} {t : Task} {rest : Stack} {c' : Moment}
    {next : Task.Result → State → Work Task.Result}
    (h : L.Together T origin base ⟨c, .waiting t next rest⟩ c') (calls : t.calls ≠ 0) :
    Leaving next := by
  obtain ⟨-, stack⟩ := h
  cases stack with
  | waiting _ fits _ _ _ => exact (fits.resolve_left calls).2

/-! ## Whole runs -/

/-- What the ends of two runs have in common that began in `w` with `depth` active calls. -/
def Final (L : Likeness) (w : L.World) (depth : Nat) (r r' : Task.Result × State) : Prop :=
  ∃ w₁, L.le w w₁ ∧ L.Outcome (L.value w₁) r.1 r'.1 ∧ L.At w₁ depth r.2 r'.2

/-- Two tasks that are alike go together, as soon as their own work has begun. -/
theorem Layer.together (hL : L.Lawful) {t t' : Task} {s s' : State} (h : L.Layer T w t t')
    (hat : L.At w depth s s') : L.Together T w depth ⟨Eval.body L.limit t s, .nothing⟩
      ⟨Eval.body L.limit' t' s', .nothing⟩ :=
  .mk (h.alike hL s s' hat) (.nothing (hL.refl w))

/-- The right side is over when the left one is. -/
theorem Together.over (hL : L.Lawful) {out : Task.Result} {s : State} {c' : Moment}
    (h : L.Together T origin base ⟨.done out s, .nothing⟩ c') : L.Lost out ∨
      ∃ r', c' = ⟨.done r'.1 r'.2, .nothing⟩ ∧ L.Final origin base (out, s) r' := by
  obtain ⟨work, stack⟩ := h
  cases stack with
  | nothing le =>
    cases work with
    | lost h => exact .inl h
    | @done _ _ _ w₁ _ _ _ b _ s' le' here result =>
      exact .inr ⟨(b, s'), rfl, w₁, hL.trans le le', result, here⟩

/-- Where nothing can be lost, the left side is over when the right one is. -/
theorem Together.over_right (hL : L.Lawful) (never : ∀ e, ¬ L.lost e) {out' : Task.Result}
    {s' : State} {c : Moment} (h : L.Together T origin base c ⟨.done out' s', .nothing⟩) :
    ∃ r, c = ⟨.done r.1 r.2, .nothing⟩ ∧ L.Final origin base r (out', s') := by
  obtain ⟨work, stack⟩ := h
  cases stack with
  | nothing le =>
    cases work with
    | lost h => exact absurd h (not_lost never)
    | @done _ _ _ w₁ _ _ a _ s _ le' here result =>
      exact ⟨(a, s), rfl, w₁, hL.trans le le', result, here⟩

/-- **Runs end alike.**  If the left run ends, the right one ends after as many steps, unless the
left one ends with a failure that is lost. -/
theorem run_of_run (hL : L.Lawful) (closed : L.Closed T) {t t' : Task} {s s' s₁ : State}
    {steps : Nat} {out : Task.Result} (h : L.Layer T w t t') (hat : L.At w depth s s')
    (hrun : t.run L.limit steps s = some (out, s₁)) : L.Lost out ∨
      ∃ r', t'.run L.limit' steps s' = some r' ∧ L.Final w depth (out, s₁) r' := by
  obtain ⟨n, hn, hafter⟩ := Task.run_eq_some_iff.mp hrun
  rcases (h.together hL hat).after hL closed hafter with ⟨hlost, -⟩ | ⟨c', hafter', htogether⟩
  · exact .inl hlost
  · rcases htogether.over hL with hlost | ⟨r', rfl, hfinal⟩
    · exact .inl hlost
    · exact .inr ⟨r', Task.run_eq_some_iff.mpr ⟨n, hn, hafter'⟩, hfinal⟩

/-- Where nothing can be lost, both runs end alike, or neither ends after so many steps. -/
theorem run_rel (hL : L.Lawful) (closed : L.Closed T) (never : ∀ e, ¬ L.lost e) {t t' : Task}
    {s s' : State} (steps : Nat) (h : L.Layer T w t t') (hat : L.At w depth s s') :
    Option.Rel (L.Final w depth) (t.run L.limit steps s) (t'.run L.limit' steps s') := by
  cases hrun : t.run L.limit steps s with
  | some r =>
    rcases run_of_run hL closed h hat hrun with hlost | ⟨r', hrun', hfinal⟩
    · exact absurd hlost (not_lost never)
    · rw [hrun']
      exact .some hfinal
  | none =>
    cases hrun' : t'.run L.limit' steps s' with
    | none => exact .none
    | some r' =>
      obtain ⟨n, hn, hafter'⟩ := Task.run_eq_some_iff.mp hrun'
      obtain ⟨c, hafter, htogether⟩ := (h.together hL hat).after_right hL closed never hafter'
      obtain ⟨r, rfl, -⟩ := htogether.over_right hL never
      rw [Task.run_eq_some_iff.mpr ⟨n, hn, hafter⟩] at hrun
      cases hrun

/-! ## Routines that end -/

/-- The routine ends, with something that is alike to a result and a state on the right. -/
def Ending (L : Likeness) (depth : Nat) (w : L.World) {α β : Type} (good : L.World → α → β → Prop)
    (c : Work α) : Prop :=
  ∃ w₁ a b s s' steps, Routine.Ends (Eval.body L.limit) c a s steps ∧ L.le w w₁ ∧
    L.At w₁ depth s s' ∧ good w₁ a b

/-- **A routine in lockstep ends if the tasks that it may ask for do.** -/
theorem Lockstep.ends (hL : L.Lawful) {α β : Type} {lost : α → Prop}
    {good : L.World → α → β → Prop} {c : Work α} {c' : Work β}
    (h : L.Lockstep T depth w lost good c c') (never : ∀ a, ¬ lost a)
    (tasks : ∀ w t t' s s', L.Tasks T w t t' → (t.calls = 0 ∨ depth < L.limit) →
      L.At w (depth + t.calls) s s' →
      L.Ending (depth + t.calls) w (fun w => L.Outcome (L.value w)) (Eval.body L.limit t s)) :
    L.Ending depth w good c := by
  induction h with
  | done le here result => exact ⟨_, _, _, _, _, 0, .done _ _, le, here, result⟩
  | @lost _ _ _ _ _ a _ _ h => exact absurd h (never a)
  | @call _ w₁ _ _ t t' s s' le here task calls _ result =>
    have hat : L.At w₁ (depth + t.calls) s s' := by rwa [calls]
    obtain ⟨w₂, out, out', s₁, s₁', k, hends, hle, hat₁, hout⟩ :=
      tasks w₁ t t' s s' task (.inl calls) hat
    rw [calls] at hat₁
    exact ⟨w₂, out, out', s₁, s₁', k + 1, .call hends, hL.trans le hle, hat₁,
      result w₂ out out' hle hout⟩
  | @ask _ _ _ w₁ _ _ t t' s s' next _ le here task fits _ _ ih =>
    obtain ⟨w₂, out, out', s₁, s₁', k, hends, hle, hat₁, hout⟩ :=
      tasks w₁ t t' s s' task (fits.imp_right And.left) here
    obtain ⟨w₃, a, b, s₂, s₂', k', hends', hle', hat₂, hgood⟩ :=
      ih w₂ out out' s₁ s₁' hle hat₁ hout never
    exact ⟨w₃, a, b, s₂, s₂', k + k' + 2, .ask hends hends', hL.trans le (hL.trans hle hle'),
      hat₂, hgood⟩

end Likeness

end Script
