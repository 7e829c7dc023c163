import Script.Proofs.Lockstep.Region

/-!
# What can be reached

A task begins with its scope, and goes on to the scopes around it and to those of the functions in
their variables, also where these are inside arrays and objects.  What it can reach in this way is a
region of the store that the evaluation keeps to (`Store.sealed_reached`).
-/

namespace Script

/-- The function, with the scope that it was made in, is inside the value. -/
inductive Value.Encloses (f : Function) (scope : Scope) : Value → Prop
  | function (identity : Nat) (name : Option String) :
      Encloses f scope (.function identity name f scope)
  | array (identity : Nat) {v : Value} {vs : List Value} (mem : v ∈ vs)
      (inside : Encloses f scope v) : Encloses f scope (.array identity vs)
  | object (identity : Nat) {p : String × Value} {ps : List (String × Value)} (mem : p ∈ ps)
      (inside : Encloses f scope p.2) : Encloses f scope (.object identity ps)

/-- A value matches itself if all that it refers to does. -/
theorem Value.match_self {m : Matching} (hidentity : ∀ i, m.identity i i)
    (hnative : ∀ n, m.native n) (v : Value)
    (hclosure : ∀ f s, v.Encloses f s → m.closure f s f s) : v.Match m v := by
  -- Values nest through lists, so the recursion is on their size.
  match v with
  | .number n => exact .number n
  | .string s => exact .string s
  | .boolean b => exact .boolean b
  | .null => exact .null
  | .undefined => exact .undefined
  | .array i vs =>
    refine .ofElements (hidentity i) (List.forall₂_same.mpr fun u hu => ?_)
    have := List.sizeOf_lt_of_mem hu
    exact match_self hidentity hnative u fun f s h => hclosure f s (.array i hu h)
  | .object i ps =>
    refine .ofProperties (hidentity i) (List.forall₂_same.mpr fun p hp => ⟨rfl, ?_⟩)
    have := List.sizeOf_lt_of_mem hp
    have : sizeOf p.2 < sizeOf p := by
      obtain ⟨key, u⟩ := p
      simp only [Prod.mk.sizeOf_spec]
      omega
    exact match_self hidentity hnative p.2 fun f s h => hclosure f s (.object i hp h)
  | .function i name f s => exact .function name (hidentity i) (hclosure f s (.function i name))
  | .native i n => exact .native (hidentity i) (hnative n)
termination_by sizeOf v
decreasing_by
  · simp only [Value.array.sizeOf_spec]
    omega
  · simp only [Value.object.sizeOf_spec]
    omega

/-- The scopes that a task holds on to from the beginning.  A loop also has the value of its last
round. -/
def Task.Holds : Task → Scope → Prop
  | .loop _ _ scope last, s => s = scope ∨ ∃ f, last.Encloses f s
  | .program _ scope, s | .invocation _ scope, s | .expr _ scope, s | .stmt _ scope, s => s = scope

theorem Task.holds_scope (task : Task) : task.Holds task.scope := by
  cases task with
  | loop => exact .inl rfl
  | program | invocation | expr | stmt => exact rfl

namespace Store

/-- The scopes that can be reached from some others. -/
inductive Reaches (store : Store) (roots : Scope → Prop) : Scope → Prop
  | root {s : Scope} (h : roots s) : Reaches store roots s
  | parent {s p : Scope} (h : Reaches store roots s) (around : s.parent? = some p) :
      Reaches store roots p
  | closure {s t : Scope} {x : String} {v : Value} {f : Function} (h : Reaches store roots s)
      (found : (store.bindings s.frame).lookup x = some v) (inside : v.Encloses f t) :
      Reaches store roots t

/-- The frames of these scopes. -/
def Reached (store : Store) (roots : Scope → Prop) (n : Nat) : Prop :=
  ∃ s, store.Reaches roots s ∧ s.frame = n

variable {store : Store} {roots : Scope → Prop}

theorem Reaches.inside {s : Scope} (h : store.Reaches roots s) :
    s.Inside (store.Reached roots) := by
  induction s with
  | root frame =>
    intro n hn
    exact ⟨_, h, (List.mem_singleton.mp hn).symm⟩
  | inner frame parent ih =>
    intro n hn
    rcases List.mem_cons.mp hn with rfl | hn
    · exact ⟨_, h, rfl⟩
    · exact ih (.parent h rfl) n hn

/-- From a global scope without functions nothing else can be reached. -/
theorem Reaches.eq_root {n : Nat} {s : Scope} (h : store.Reaches (· = .root n) s)
    (hvalues : ∀ x v f t, (store.bindings n).lookup x = some v → ¬ v.Encloses f t) :
    s = .root n := by
  induction h with
  | root h => exact h
  | parent _ around ih =>
    subst ih
    cases around
  | closure _ found inside ih =>
    subst ih
    exact absurd inside (hvalues _ _ _ _ found)

/-- **What can be reached is a region**, whose functions are those in the variables that can be
reached. -/
theorem sealed_reached {body : Function → Prop}
    (hbody : ∀ s x v f t, store.Reaches roots s → (store.bindings s.frame).lookup x = some v →
      v.Encloses f t → body f) : store.Sealed body store (store.Reached roots) where
  size := Nat.le_refl _
  outside _ _ _ := rfl
  inside := by
    rintro _ ⟨s, hs, rfl⟩ x v hv
    refine v.match_self (fun _ => rfl) (fun _ => trivial) fun f t hinside => ?_
    exact ⟨⟨rfl, hbody s x v f t hs hv hinside⟩, rfl, (hs.closure hv hinside).inside⟩

/-- Every task keeps to what it can reach. -/
theorem match_reached (task : Task) : task.Match
    (fun s s' => s = s' ∧ s.Inside (store.Reached task.Holds))
    (Value.Match (.inside (fun _ => True) (store.Reached task.Holds))) task := by
  have hscope : task.scope.Inside (store.Reached task.Holds) :=
    Reaches.inside (.root task.holds_scope)
  cases task with
  | program b s => exact .program b ⟨rfl, hscope⟩
  | invocation b s => exact .invocation b ⟨rfl, hscope⟩
  | expr e s => exact .expr e ⟨rfl, hscope⟩
  | stmt t s => exact .stmt t ⟨rfl, hscope⟩
  | loop e b s v =>
    refine .loop e b ⟨rfl, hscope⟩ ?_
    refine v.match_self (fun _ => rfl) (fun _ => trivial) fun f t hinside => ?_
    exact ⟨⟨rfl, trivial⟩, rfl, (Reaches.root (.inr ⟨f, hinside⟩)).inside⟩

end Store

namespace Likeness

variable {limit limit' : Nat} {output : Output → Prop}

/-- Every task keeps to what it can reach, whichever functions these are. -/
theorem region_layer (task : Task) (store : Store) :
    (region limit limit' (fun _ => True) output store).Layer (Trees.same fun _ => True)
      (store.Reached task.Holds) task task :=
  (region_reflexive (fun _ _ _ _ => trivial) fun _ _ => trivial).layer (Store.match_reached task)

theorem region_at (task : Task) {state : State} (houtput : output state.output) :
    (region limit limit' (fun _ => True) output state.store).At (state.store.Reached task.Holds)
      state.depth state state where
  state := ⟨rfl, Store.sealed_reached fun _ _ _ _ _ _ _ _ => trivial, houtput⟩
  left := rfl
  right := rfl

/-- In a region, runs that end alike end equally. -/
theorem Final.eq_of_region {body : Function → Prop} {origin : Store} {w : Nat → Prop} {depth : Nat}
    {r r' : Task.Result × State} (h : (region limit limit' body output origin).Final w depth r r') :
    r = r' := by
  obtain ⟨w₁, -, hout, ⟨hstate, -⟩, -, -⟩ := h
  refine Prod.ext ?_ hstate
  generalize r.1 = out, r'.1 = out' at hout
  cases hout with
  | ok hvalue => exact congrArg Except.ok (Store.eq_of_match_inside hvalue)
  | error herror => exact congrArg Except.error herror

end Likeness

/-- **A run keeps to what its task can reach**, and to what every write to the output keeps.  The
depth is afterwards what it was before. -/
theorem Task.run_sealed {limit steps : Nat} {task : Task} {state state' : State}
    {outcome : Task.Result} (output : Output → Prop)
    (hwrite : ∀ o text, output o → output (o.write text).2) (houtput : output state.output)
    (hrun : task.run limit steps state = some (outcome, state')) :
    ∃ region, (∀ n < state.store.frames.size, region n → state.store.Reached task.Holds n) ∧
      state'.store.Sealed (fun _ => True) state.store region ∧ output state'.output ∧
      state'.depth = state.depth := by
  have hlawful : (Likeness.region limit limit (fun _ => True) output state.store).Lawful :=
    Likeness.region_lawful (Nat.le_refl _) hwrite
  have hended := Likeness.run_of_run hlawful Likeness.region_closed
    (Likeness.region_layer task state.store) (Likeness.region_at task houtput) hrun
  rcases hended with ⟨_, -, hlt, -⟩ | ⟨r', -, region, hle, -, ⟨-, hsealed, houtput'⟩, hdepth, -⟩
  · exact absurd hlt (Nat.lt_irrefl _)
  · exact ⟨region, hle.2, hsealed, houtput', hdepth⟩

end Script
