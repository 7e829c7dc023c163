import Script.Proofs.Sessions

/-!
# How many calls are active

The state counts the calls that are active.  The count is raised before the body of a function
begins and lowered when it is over, however it ends.  So at every moment of a run it is the number
of bodies that have begun and are not over, and after the run it is what it was before.
-/

namespace Script

/-- The body of a function is over, and `next` waits for its result. -/
inductive CallOver : Moment → (Task.Result → State → Likeness.Work Task.Result) → Prop
  | mk (out : Task.Result) (s : State) (body : List Stmt) (scope : Scope) (rest : Stack)
      (next : Task.Result → State → Likeness.Work Task.Result) :
      CallOver ⟨.done out s, .waiting (.invocation body scope) next rest⟩ next

namespace Task

variable {limit : Nat} {task : Task} {state : State}

/-- **At every moment of a run the depth is exact.**  It has grown by the calls on the stack and
stays within the limit.  What waits for a call takes it off again, from a depth that is not zero. -/
theorem depth_at_moment {n : Nat} {m : Moment}
    (h : Routine.Configuration.after (Eval.body limit) n ⟨Eval.body limit task state, .nothing⟩ =
      some m) :
    m.state.depth = state.depth + Task.callsIn m.active ∧
      (state.depth ≤ limit → m.state.depth ≤ limit) ∧
      ∀ next, CallOver m next → 0 < m.state.depth ∧ Likeness.Leaving next := by
  let L := Likeness.region limit limit (fun _ => True) (fun _ => True) state.store
  have hlawful : L.Lawful := Likeness.region_lawful (Nat.le_refl _) fun _ _ _ => trivial
  have never : ∀ e, ¬ L.lost e := fun _ he => Nat.lt_irrefl _ he.1
  have hstart := (Likeness.region_layer task state.store).together hlawful
    (Likeness.region_at task trivial)
  rcases hstart.after hlawful Likeness.region_closed h with hlosing | ⟨m', -, htogether⟩
  · exact absurd hlosing (Likeness.not_losing never)
  · have hexact := htogether.depth_eq never
    refine ⟨hexact, htogether.depth_le never, ?_⟩
    rintro next ⟨out, s, body, scope, rest⟩
    refine ⟨?_, htogether.leaving Nat.one_ne_zero⟩
    have hcall : s.depth = state.depth + (1 + callsIn rest.tasks) := hexact
    show 0 < s.depth
    omega

end Task

namespace Session

/-- **The count of active calls is exact** all through a session.  Between programs it is what it
was in the beginning, which for a session that has just started is zero.  At every moment of a
program it has grown by the number of bodies of functions that have begun and are not over; it stays
within the limit, and when such a body is over it is not zero before one is taken off. -/
theorem Past.depth_exact {first session : Session} (h : first.Past session) :
    session.state.depth = first.state.depth ∧
    ∀ (program : Program) (n : Nat) (m : Moment),
      (Routine.Configuration.start (.program program.body session.scope) session.state).after
        (Eval.body session.callLimit) n = some m →
      m.state.depth = first.state.depth + Task.callsIn m.active ∧
      (first.state.depth ≤ first.callLimit → m.state.depth ≤ first.callLimit) ∧
      ∀ next, CallOver m next → 0 < m.state.depth ∧ Likeness.Leaving next := by
  refine ⟨h.steady.depth, fun program n m hm => ?_⟩
  rw [← h.steady.depth, ← h.steady.callLimit]
  cases n with
  | zero =>
    cases hm
    exact ⟨rfl, id, nofun⟩
  | succ n => exact Task.depth_at_moment hm

/-- After a program that fails inside a call, the same program again: the call is over at the ninth
moment. -/
theorem Past.depth_exact_failure :
    let span : Span := ⟨.start, .start⟩
    let inner : Function := ⟨[], [.expr (.var "x" span)], span⟩
    let program : Program := ⟨[.expr (.call (.function none inner) [] span)], [], span⟩
    ∃ outcome session', (Session.start 1 .unbounded).evaluate 30 "" program =
        some (outcome, session') ∧ session'.state.depth = 0 ∧
      ∃ m next, (Routine.Configuration.start (.program program.body session'.scope)
          session'.state).after (Eval.body session'.callLimit) 9 = some m ∧ CallOver m next ∧
        m.state.depth = 0 + Task.callsIn m.active ∧ m.state.depth ≤ 1 ∧ 0 < m.state.depth ∧
        Likeness.Leaving next := by
  intro span inner program
  obtain ⟨outcome, session', hstep, m, next, hm, hover⟩ : ∃ outcome session',
      (Session.start 1 .unbounded).evaluate 30 "" program = some (outcome, session') ∧
      ∃ m next, (Routine.Configuration.start (.program program.body session'.scope)
        session'.state).after (Eval.body session'.callLimit) 9 = some m ∧ CallOver m next :=
    ⟨_, _, rfl, _, _, rfl, .mk _ _ _ _ _ _⟩
  obtain ⟨hdepth, hmoments⟩ := Past.depth_exact (.evaluate .start hstep)
  obtain ⟨hexact, hlimit, hreturn⟩ := hmoments program 9 m hm
  exact ⟨outcome, session', hstep, hdepth, m, next, hm, hover, hexact, hlimit (by decide),
    hreturn next hover⟩

end Session

end Script
