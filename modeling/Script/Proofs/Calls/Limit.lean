import Script.Proofs.Scopes.Reach

/-!
# More room for calls

How deeply calls may nest matters only to a run that fails for it.  Two runs with different limits
go in lockstep until the smaller one is reached; the failure then goes through to the end of the
run, since nothing in the language takes up a failure.
-/

namespace Script.Task

variable {limit limit' steps : Nat} {task : Task} {state state' : State} {outcome : Task.Result}

/-- **A higher limit never changes a run that fits into a lower one.**  The outcome, be it a value
or a failure with its span, the store, the depth and the output are the same, after as many
steps. -/
theorem run_raise_limit (hle : limit ≤ limit')
    (hrun : task.run limit steps state = some (outcome, state'))
    (hfits : ∀ span, outcome ≠ .error (.stackOverflow limit span)) :
    task.run limit' steps state = some (outcome, state') := by
  have hlawful :
      (Likeness.region limit limit' (fun _ => True) (fun _ => True) state.store).Lawful :=
    Likeness.region_lawful hle fun _ _ _ => trivial
  have hended := Likeness.run_of_run hlawful Likeness.region_closed
    (Likeness.region_layer task state.store) (Likeness.region_at task trivial) hrun
  rcases hended with ⟨_, rfl, -, span, rfl⟩ | ⟨r', hrun', hfinal⟩
  · exact absurd rfl (hfits span)
  · exact hrun'.trans (congrArg some hfinal.eq_of_region.symm)

/-- A call that fits into a limit of one. -/
theorem run_raise_limit_call :
    let span : Span := ⟨.start, .start⟩
    let inner : Function := ⟨[], [.expr (.var "x" span)], span⟩
    let task := Task.expr (.call (.function none inner) [] span) (.root 0)
    let state := State.initial .unbounded
    ∃ state', task.run 1 20 state = some (.error (.unknownVariable "x" span), state') ∧
      task.run 1000 20 state = some (.error (.unknownVariable "x" span), state') := by
  intro span inner task state
  have hrun : ∃ state', task.run 1 20 state = some (.error (.unknownVariable "x" span), state') :=
    ⟨_, rfl⟩
  obtain ⟨state', hrun⟩ := hrun
  exact ⟨state', hrun, run_raise_limit (by decide) hrun nofun⟩

end Script.Task
