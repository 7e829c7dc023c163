import Script.Proofs.Output
import Script.Proofs.Scopes.Reach
import Script.Session

/-!
# What becomes of a session

`Session.Past` is the history of a session: programs and sources that were run, each with a value or
a failure, and new global scopes.  Whatever happened, the limit on calls, the number of active calls
and the way that the output behaves are what they were (`Session.Past.steady`).
-/

namespace Script

namespace Session

/-- What may become of a session: programs and sources are run in it, whatever comes of them, and
its global scope may be replaced by a new one or be given native functions. -/
inductive Past (first : Session) : Session → Prop
  | start : Past first first
  | evaluate {session session' : Session} {steps : Nat} {file : String} {program : Program}
      {outcome : Except Diagnostic Value} (before : Past first session)
      (step : session.evaluate steps file program = some (outcome, session')) : Past first session'
  | run {session session' : Session} {steps : Nat} {file source : String}
      {outcome : Except Diagnostic Value} (before : Past first session)
      (step : session.run steps file source = some (outcome, session')) : Past first session'
  | renew {session : Session} (before : Past first session) : Past first session.renew
  | builtins {session : Session} (before : Past first session) : Past first session.withBuiltins
  | host {session : Session} (before : Past first session) : Past first session.withHost

/-- What no run changes. -/
structure Steady (session session' : Session) : Prop where
  callLimit : session'.callLimit = session.callLimit
  depth : session'.state.depth = session.state.depth
  outputLimit : session'.state.output.limit = session.state.output.limit
  flushFails : session'.state.output.flushFails = session.state.output.flushFails

variable {first session session' : Session} {steps : Nat} {file source : String}
  {program : Program} {outcome : Except Diagnostic Value}

theorem Steady.trans (h : first.Steady session) (h' : session.Steady session') :
    first.Steady session' where
  callLimit := h'.callLimit.trans h.callLimit
  depth := h'.depth.trans h.depth
  outputLimit := h'.outputLimit.trans h.outputLimit
  flushFails := h'.flushFails.trans h.flushFails

theorem steady_evaluate (h : session.evaluate steps file program = some (outcome, session')) :
    session.Steady session' := by
  obtain ⟨⟨result, state'⟩, hrun, hsession⟩ := Option.map_eq_some_iff.mp h
  cases hsession
  obtain ⟨-, -, -, ⟨hlimit, hflush⟩, hdepth⟩ := Task.run_sealed
    (fun o => o.limit = session.state.output.limit ∧ o.flushFails = session.state.output.flushFails)
    (fun o text ho => o.write_eq text ▸ ho) ⟨rfl, rfl⟩ hrun
  exact ⟨rfl, hdepth, hlimit, hflush⟩

theorem steady_run (h : session.run steps file source = some (outcome, session')) :
    session.Steady session' := by
  unfold run at h
  split at h
  · exact steady_evaluate h
  · cases h
    exact ⟨rfl, rfl, rfl, rfl⟩

theorem steady_builtins (session : Session) : session.Steady session.withBuiltins := by
  constructor <;> simp only [withBuiltins, defineNative, define, freshIdentity, State.onStore,
    State.freshIdentity]

theorem steady_natives (natives : List Native) (session : Session) :
    session.Steady (natives.foldl defineNative session) := by
  induction natives generalizing session with
  | nil => exact ⟨rfl, rfl, rfl, rfl⟩
  | cons native _ ih =>
    have hdefine : session.Steady (session.defineNative native) := ⟨rfl, rfl, rfl, rfl⟩
    exact hdefine.trans (ih _)

/-- **Every history is steady.** -/
theorem Past.steady (h : first.Past session) : first.Steady session := by
  induction h with
  | start => exact ⟨rfl, rfl, rfl, rfl⟩
  | evaluate _ step ih => exact ih.trans (steady_evaluate step)
  | run _ step ih => exact ih.trans (steady_run step)
  | renew _ ih => exact ih.trans ⟨rfl, rfl, rfl, rfl⟩
  | builtins _ ih => exact ih.trans (steady_builtins _)
  | host _ ih => exact ih.trans (steady_natives _ _)

end Session

end Script
