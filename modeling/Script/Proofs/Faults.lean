import Script.Proofs.Scopes.Reach

/-!
# What an evaluation fails with

A failure comes from a node: of the program, or of a function that the evaluation can get hold of.
So what is true of the failures of all these nodes is true of every failure
(`Task.fault_of_run`).  The evaluation is compared with itself in the region that it can reach, and
two failures are alike if they are the same one and satisfy the condition.
-/

namespace Script

namespace Likeness

/-- The likeness with a condition on the failures. -/
def guarded (L : Likeness) (fault : RuntimeError → Prop) : Likeness :=
  { L with error := fun e e' => L.error e e' ∧ fault e }

/-- No law is about failures. -/
theorem Lawful.guarded {L : Likeness} (hL : L.Lawful) (fault : RuntimeError → Prop) :
    (L.guarded fault).Lawful where
  refl := hL.refl
  trans := hL.trans
  identity_mono := hL.identity_mono
  scope_mono := hL.scope_mono
  place_mono := hL.place_mono
  scope_of_place := hL.scope_of_place
  oneToOne := hL.oneToOne
  parameters := hL.parameters
  named := hL.named
  defined := hL.defined
  limit_le := hL.limit_le
  overflow := hL.overflow
  depth := hL.depth
  fresh := hL.fresh
  lookup := hL.lookup
  declare := hL.declare
  set := hL.set
  newInner := hL.newInner
  write := hL.write

/-- Where the failures of granted nodes satisfy the condition, granted nodes are like
themselves. -/
theorem Admits.guarded {L : Likeness} {grant : Node → Prop} (hA : L.Admits grant)
    {fault : RuntimeError → Prop} (hfault : ∀ m e, grant m → m.Raises e → fault e) :
    (L.guarded fault).Admits grant where
  children := hA.children
  suits hm :=
    have h := hA.suits hm
    ⟨h.uses, h.declares, h.makes, fun he => ⟨h.raises he, hfault _ _ hm he⟩⟩

end Likeness

/-- All statements of the function are granted. -/
def Function.Granted (grant : Node → Prop) (f : Function) : Prop :=
  ∀ t ∈ f.body, grant (.ofStmt t)

/-- **What a run does in a region of granted functions.**  A failure is one of a granted node, and
the functions that are in the region afterwards are granted, too. -/
theorem Task.granted_of_run {grant : Node → Prop} {fault : RuntimeError → Prop}
    (children : ∀ m k, grant m → k ∈ m.children → grant k)
    (raises : ∀ m e, grant m → m.Raises e → fault e) {limit steps : Nat} {body : List Stmt}
    {scope : Scope} {state state' : State} {outcome : Task.Result} {region : Nat → Prop}
    (hbody : ∀ t ∈ body, grant (.ofStmt t)) (hscope : scope.Inside region)
    (hsealed : state.store.Sealed (Function.Granted grant) state.store region)
    (hrun : (Task.program body scope).run limit steps state = some (outcome, state')) :
    (∀ e, outcome = .error e → fault e) ∧ ∃ region', (∀ n, region n → region' n) ∧
      state'.store.Sealed (Function.Granted grant) state.store region' := by
  let within := Likeness.region limit limit (Function.Granted grant) (fun _ => True) state.store
  let L := within.guarded fault
  have hlawful : L.Lawful :=
    (Likeness.region_lawful (Nat.le_refl _) fun _ _ _ => trivial).guarded fault
  have hadmits : L.Admits grant :=
    (Likeness.region_reflexive children fun _ h => h).admits.guarded raises
  have hclosed : L.Closed (Trees.same grant) := hadmits.closed fun _ _ h => h
  have hlayer : L.Layer (Trees.same grant) region (.program body scope) (.program body scope) := by
    refine .program (Likeness.Admits.sequence_same fun k hk => ?_) ⟨rfl, hscope⟩
    obtain ⟨t, ht, rfl⟩ := List.mem_map.mp hk
    exact hbody t ht
  have hat : L.At region state.depth state state := ⟨⟨rfl, hsealed, trivial⟩, rfl, rfl⟩
  rcases Likeness.run_of_run hlawful hclosed hlayer hat hrun with
    ⟨_, -, hlt, -⟩ | ⟨⟨out, _⟩, -, region', hle, hout, ⟨-, hsealed', -⟩, -⟩
  · exact absurd hlt (Nat.lt_irrefl _)
  · refine ⟨?_, region', hle.1, hsealed'⟩
    rintro e rfl
    cases hout with
    | error h => exact h.2

/-- **A failure is one of a node.**  The nodes are granted, those of the program and those of all
functions that can be reached from its scope. -/
theorem Task.fault_of_run {grant : Node → Prop} {fault : RuntimeError → Prop}
    (children : ∀ m k, grant m → k ∈ m.children → grant k)
    (raises : ∀ m e, grant m → m.Raises e → fault e) {limit steps : Nat} {body : List Stmt}
    {scope : Scope} {state state' : State} {e : RuntimeError}
    (hbody : ∀ t ∈ body, grant (.ofStmt t))
    (hreach : ∀ s x v f t, state.store.Reaches (· = scope) s →
      (state.store.bindings s.frame).lookup x = some v → v.Encloses f t → f.Granted grant)
    (hrun : (Task.program body scope).run limit steps state = some (.error e, state')) :
    fault e := by
  have hscope : scope.Inside (state.store.Reached (· = scope)) := Store.Reaches.inside (.root rfl)
  exact (granted_of_run children raises hbody hscope (Store.sealed_reached hreach) hrun).1 e rfl

end Script
