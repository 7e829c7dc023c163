import Script.Proofs.Names.Bound
import Script.Proofs.Routine.Trace

/-!
# Where an assignment writes

An assignment reads its variable, evaluates its right side, and writes.  In between anything may
happen: functions are called, variables are declared and assigned, this one among them.  But no
scope ever loses a name (`Task.owns_of_run`), so there is a variable to write to.  And unless a
native function declares variables, an expression gives no name to a scope that was there before, so
the variable is the one that was read.

Two comparisons of an evaluation with itself are used.  `Likeness.upkeep` is about a condition on
the store that every operation keeps, and `Likeness.hosting` about the scopes that there are: at
every moment of a run the store is a heap, and what is evaluated next has its scope in it.
-/

namespace Script

/-! ## Conditions that evaluation keeps -/

/-- Whatever is declared, assigned or allocated, the condition holds afterwards if it held
before. -/
structure Store.Upkeep (condition : Store → Prop) : Prop where
  declare {store : Store} (scope : Scope) (x : String) (v : Value) :
    condition store → condition (store.declare scope x v).2
  set {store : Store} (scope : Scope) (x : String) (v : Value) :
    condition store → condition (store.set scope x v).2
  allocate {store : Store} (bindings : Bindings) :
    condition store → condition (store.allocate bindings).2

/-- The comparison of an evaluation with itself, where the store satisfies a condition.  The native
functions may be any. -/
def Likeness.upkeep (limit : Nat) (condition : Store → Prop) : Likeness where
  World := Unit
  le _ _ := True
  state _ s s' := s = s' ∧ condition s.store
  identity _ := Eq
  scope _ := Eq
  function := Eq
  native _ := True
  name _ := True
  error := Eq
  lost _ := False
  limit := limit
  limit' := limit

namespace Likeness

variable {limit : Nat} {condition : Store → Prop}

theorem eq_of_upkeep {v v' : Value} (h : (upkeep limit condition).value () v v') : v = v' :=
  Value.Match.eq h (fun _ _ => id) fun _ _ _ _ => id

theorem upkeep_self (v : Value) : (upkeep limit condition).value () v v :=
  v.match_self (fun _ => rfl) (fun _ => trivial) fun _ _ _ => ⟨rfl, rfl⟩

theorem upkeep_lawful (h : Store.Upkeep condition) : (upkeep limit condition).Lawful where
  refl _ := trivial
  trans _ _ := trivial
  identity_mono _ h := h
  scope_mono _ h := h
  place_mono _ h := h
  scope_of_place h := h
  oneToOne _ := .of_eq fun _ _ => id
  parameters h := ⟨congrArg Function.parameters h, fun _ _ => trivial⟩
  named _ _ _ := trivial
  defined _ := ⟨fun _ => trivial, fun _ _ _ => id⟩
  limit_le := Nat.le_refl _
  overflow _ hlt := absurd hlt (Nat.lt_irrefl _)
  depth n h := ⟨congrArg (fun s : State => { s with depth := n }) h.1, h.2⟩
  fresh {_ s s'} h := by
    obtain ⟨rfl, hstore⟩ := h
    exact ⟨(), trivial, ⟨rfl, hstore⟩, rfl⟩
  lookup {_ s s' scope scope' x} h hscope _ := by
    obtain ⟨rfl, hstore⟩ := h
    obtain rfl : scope = scope' := hscope
    cases s.store.lookup x scope with
    | none => exact .none
    | some v => exact .some (upkeep_self v)
  declare {_ s s' scope scope' x v v'} hs hscope _ hv := by
    obtain ⟨rfl, hstore⟩ := hs
    obtain rfl : scope = scope' := hscope
    obtain rfl := eq_of_upkeep hv
    exact ⟨rfl, rfl, h.declare scope x v hstore⟩
  set {_ s s' scope scope' x v v'} hs hscope _ hv := by
    obtain ⟨rfl, hstore⟩ := hs
    obtain rfl : scope = scope' := hscope
    obtain rfl := eq_of_upkeep hv
    exact ⟨rfl, rfl, h.set scope x v hstore⟩
  newInner {_ s s' scope scope' b b'} hs hscope _ hentries := by
    obtain ⟨rfl, hstore⟩ := hs
    obtain rfl : scope = scope' := hscope
    obtain rfl : b = b' := Value.eq_of_matchAt (fun _ _ => eq_of_upkeep) hentries
    exact ⟨(), trivial, ⟨rfl, h.allocate b hstore⟩, rfl⟩
  write {_ s s'} text hs := by
    obtain ⟨rfl, hstore⟩ := hs
    exact ⟨rfl, rfl, hstore⟩

theorem upkeep_reflexive : (upkeep limit condition).Reflexive fun _ => True where
  children _ _ := trivial
  function _ := rfl
  name _ := trivial
  binder _ := trivial
  place h := h
  error _ := rfl

end Likeness

namespace Task

variable {limit steps : Nat} {task : Task} {state state' : State} {outcome : Task.Result}

/-- **What every operation keeps, every evaluation keeps.** -/
theorem upkeep_of_run {condition : Store → Prop} (h : Store.Upkeep condition)
    (hstore : condition state.store) (hrun : task.run limit steps state = some (outcome, state')) :
    condition state'.store := by
  let L := Likeness.upkeep limit condition
  have hmatch : task.Match (L.scope ()) (L.value ()) task := by
    cases task with
    | program b s => exact .program b rfl
    | invocation b s => exact .invocation b rfl
    | expr e s => exact .expr e rfl
    | stmt t s => exact .stmt t rfl
    | loop e b s v => exact .loop e b rfl (Likeness.upkeep_self v)
  have hclosed : L.Closed (Trees.same fun _ => True) :=
    Likeness.upkeep_reflexive.closed fun _ _ hf => ⟨hf, fun _ _ => trivial⟩
  have hended := Likeness.run_of_run (Likeness.upkeep_lawful h) hclosed
    (Likeness.upkeep_reflexive.layer hmatch) ⟨⟨rfl, hstore⟩, rfl, rfl⟩ hrun
  rcases hended with ⟨_, -, hlost⟩ | ⟨r', -, _, -, -, hat⟩
  · exact hlost.elim
  · exact hat.state.2

/-- **No scope ever loses a name**, whatever is evaluated and however that ends. -/
theorem owns_of_run (hrun : task.run limit steps state = some (outcome, state')) {f : Nat}
    {x : String} (howns : state.store.owns f x = true) : state'.store.owns f x = true := by
  have hupkeep : Store.Upkeep fun store => store.owns f x = true :=
    { declare := fun _ _ _ h => Store.owns_declare.mpr (.inl h)
      set := fun _ _ _ h => Store.owns_set.trans h
      allocate := fun _ h => (Store.owns_allocate (Store.lt_size_of_owns h)).trans h }
  exact upkeep_of_run hupkeep howns hrun

end Task

/-! ## Heaps at every moment -/

/-- A new scope in one of the scopes of a heap. -/
theorem Store.Hosts.newInner {scopes : List Scope} {store : Store} {scope : Scope}
    {bindings : Bindings} (h : store.Hosts scopes) (hscope : scope ∈ scopes)
    (hbindings : ∀ x ∈ bindings, x.2.Sound scopes) :
    ∃ scopes', scopes <+: scopes' ∧ (store.newInner scope bindings).2.Hosts scopes' ∧
      (store.newInner scope bindings).1 ∈ scopes' := by
  have hnew : Store.Confined 0 [] scopes store (scopes ++ [.inner scopes.length scope])
      (store.allocate bindings).2 := by
    refine h.newScope rfl (fun p hp => ?_) hbindings
    cases hp
    exact hscope
  refine ⟨_, hnew.grown, hnew.hosts, ?_⟩
  show Scope.inner store.frames.size scope ∈ scopes ++ [.inner scopes.length scope]
  rw [h.size]
  exact List.mem_append_right _ List.mem_cons_self

/-- The comparison of an evaluation with itself, where the store is a heap with the scopes that it
gets hold of. -/
def Likeness.hosting (limit : Nat) : Likeness where
  World := List Scope
  le scopes scopes' := scopes <+: scopes'
  state scopes s s' := s = s' ∧ s.store.Hosts scopes
  identity _ := Eq
  scope scopes s s' := s = s' ∧ s ∈ scopes
  function := Eq
  native n := n ≠ .define
  name _ := True
  error := Eq
  lost _ := False
  limit := limit
  limit' := limit

namespace Likeness

variable {limit : Nat} {scopes : List Scope} {v v' : Value}

theorem eq_of_hosting (h : (hosting limit).value scopes v v') : v = v' :=
  Value.Match.eq h (fun _ _ => id) fun _ _ _ _ hclosure => ⟨hclosure.1, hclosure.2.1⟩

/-- A value is like itself if the functions in it were made in scopes that there are. -/
theorem hosting_self_iff : (hosting limit).value scopes v v ↔ v.Sound scopes := by
  constructor
  · exact fun h => Value.Match.holds h (fun _ _ _ _ hclosure => hclosure.2.2) fun _ => id
  · exact fun h => h.match_self (fun _ => rfl) (fun _ _ hs => ⟨rfl, rfl, hs⟩) fun _ => id

/-- **Evaluation keeps to the scopes of a heap.** -/
theorem hosting_lawful : (hosting limit).Lawful where
  refl _ := List.prefix_rfl
  trans := List.IsPrefix.trans
  identity_mono _ h := h
  scope_mono hle h := ⟨h.1, hle.subset h.2⟩
  place_mono hle h := ⟨h.1, hle.subset h.2⟩
  scope_of_place h := h
  oneToOne _ := .of_eq fun _ _ => id
  parameters h := ⟨congrArg Function.parameters h, fun _ _ => trivial⟩
  named _ _ _ := trivial
  defined h := absurd rfl h
  limit_le := Nat.le_refl _
  overflow _ hlt := absurd hlt (Nat.lt_irrefl _)
  depth n h := ⟨congrArg (fun s : State => { s with depth := n }) h.1, h.2⟩
  fresh {scopes s s'} h := by
    obtain ⟨rfl, hhosts⟩ := h
    exact ⟨scopes, List.prefix_rfl, ⟨rfl, hhosts⟩, rfl⟩
  lookup {scopes s s' scope scope' x} h hscope _ := by
    obtain ⟨rfl, hhosts⟩ := h
    obtain ⟨rfl, -⟩ := hscope
    cases hlookup : s.store.lookup x scope with
    | none => exact .none
    | some v => exact .some (hosting_self_iff.mpr (hhosts.lookup hlookup))
  declare {scopes s s' scope scope' x v v'} h hscope _ hv := by
    obtain ⟨rfl, hhosts⟩ := h
    obtain ⟨rfl, -⟩ := hscope
    obtain rfl := eq_of_hosting hv
    have hdeclare : Store.Confined scope.frame [x] scopes s.store scopes
        (s.store.declare scope x v).2 :=
      hhosts.declare (hosting_self_iff.mp hv) List.mem_cons_self
    exact ⟨rfl, rfl, hdeclare.hosts⟩
  set {scopes s s' scope scope' x v v'} h hscope _ hv := by
    obtain ⟨rfl, hhosts⟩ := h
    obtain ⟨rfl, -⟩ := hscope
    obtain rfl := eq_of_hosting hv
    have hset : Store.Confined 0 [] scopes s.store scopes (s.store.set scope x v).2 :=
      hhosts.set (hosting_self_iff.mp hv)
    exact ⟨rfl, rfl, hset.hosts⟩
  newInner {scopes s s' scope scope' b b'} h hscope _ hentries := by
    obtain ⟨rfl, hhosts⟩ := h
    obtain ⟨rfl, hmem⟩ := hscope
    obtain rfl : b = b' := Value.eq_of_matchAt (fun _ _ => eq_of_hosting) hentries
    obtain ⟨scopes', hle, hhosts', hinner⟩ := hhosts.newInner hmem fun p hp =>
      hosting_self_iff.mp (List.forall₂_same.mp hentries p hp).2
    exact ⟨scopes', hle, ⟨rfl, hhosts'⟩, rfl, hinner⟩
  write {scopes s s'} text h := by
    obtain ⟨rfl, hhosts⟩ := h
    exact ⟨rfl, rfl, hhosts⟩

theorem hosting_reflexive : (hosting limit).Reflexive fun _ => True where
  children _ _ := trivial
  function _ := rfl
  name _ := trivial
  binder _ := trivial
  place h := h
  error _ := rfl

theorem hosting_closed : (hosting limit).Closed (Trees.same fun _ => True) :=
  hosting_reflexive.closed fun _ _ hf => ⟨hf, fun _ _ => trivial⟩

/-- A task that is asked for at a moment is one that may be, in states that are alike. -/
theorem Together.tasks {L : Likeness} {T : Trees} {origin : L.World} {base : Nat} {c c' : Moment}
    {task : Task} (h : L.Together T origin base c c') (hasked : c.routine.asked = [task]) :
    ∃ w task', L.state w c.state c'.state ∧ L.Tasks T w task task' := by
  obtain ⟨work, -⟩ := h
  cases work with
  | lost => cases hasked
  | done => cases hasked
  | call _ here tasks _ _ _ =>
    cases hasked
    exact ⟨_, _, here.state, tasks⟩
  | ask _ here tasks _ _ _ =>
    cases hasked
    exact ⟨_, _, here.state, tasks⟩

end Likeness

namespace Session

variable {first session : Session}

/-- **What is evaluated has its scope in the heap**, at every moment of a program that is run in a
heap. -/
theorem Sound.hosts_at_moment (h : session.Sound) {body : List Stmt} {n : Nat} {m : Moment}
    {task : Task} (hafter : (Routine.Configuration.start (.program body session.scope)
      session.state).after (Eval.body session.callLimit) n = some m)
    (hasked : m.routine.asked = [task]) :
    ∃ scopes, m.state.store.Hosts scopes ∧ task.scope ∈ scopes := by
  obtain ⟨scopes, hhosts, hscope⟩ := h
  cases n with
  | zero =>
    cases hafter
    cases hasked
    exact ⟨scopes, hhosts, hscope⟩
  | succ n =>
    let L := Likeness.hosting session.callLimit
    have hmatch : (Task.program body session.scope).Match (L.scope scopes) (L.value scopes)
        (.program body session.scope) := .program body ⟨rfl, hscope⟩
    have hstart := (Likeness.hosting_reflexive.layer hmatch).together Likeness.hosting_lawful
      (s := session.state) ⟨⟨rfl, hhosts⟩, rfl, rfl⟩
    rcases hstart.after Likeness.hosting_lawful Likeness.hosting_closed hafter with
      hlosing | ⟨m', -, htogether⟩
    · exact absurd hlosing (Likeness.not_losing fun _ => id)
    · obtain ⟨scopes', task', ⟨-, hhosts'⟩, htask⟩ := htogether.tasks hasked
      refine ⟨scopes', hhosts', ?_⟩
      cases htask with
      | invocation _ place => exact place.2
      | expr _ scope => exact scope.2
      | stmt _ scope _ => exact scope.2
      | loop _ scope _ => exact scope.2

theorem Ran.sound (hfirst : first.Sound) (h : first.Ran session) : session.Sound := by
  induction h with
  | start => exact hfirst
  | run _ step ih => exact ih.run step

end Session

/-! ## Owners -/

namespace Store

variable {store store' : Store} {scopes : List Scope} {scope : Scope} {x : String} {v : Value}
  {frame : Nat}

/-- What is looked up is the value in the frame that owns the name. -/
theorem exists_owner_of_lookup (h : store.lookup x scope = some v) :
    ∃ frame, store.owner? x scope = some frame ∧ (store.bindings frame).lookup x = some v := by
  induction scope with
  | root frame =>
    have howns : store.owns frame x = true := Option.isSome_iff_exists.mpr ⟨v, h⟩
    exact ⟨frame, if_pos howns, h⟩
  | inner frame parent ih =>
    rw [lookup] at h
    rw [owner?]
    split at h
    · next found =>
      cases h
      have howns : store.owns frame x = true := Option.isSome_iff_exists.mpr ⟨v, found⟩
      exact ⟨frame, if_pos howns, found⟩
    · next missing =>
      have howns : store.owns frame x = false := by
        rw [owns, missing]
        rfl
      rw [howns, if_neg Bool.false_ne_true]
      exact ih h

/-- Where no name has been lost, a name that had an owner has one. -/
theorem exists_owner_of_owns (hkept : ∀ f, store.owns f x = true → store'.owns f x = true)
    (h : store.owner? x scope = some frame) : ∃ frame', store'.owner? x scope = some frame' := by
  induction scope with
  | root f =>
    obtain ⟨hmem, howns⟩ := owner?_eq_some h
    obtain rfl := List.mem_singleton.mp hmem
    exact ⟨_, if_pos (hkept _ howns)⟩
  | inner f parent ih =>
    by_cases howns' : store'.owns f x = true
    · exact ⟨f, if_pos howns'⟩
    · rw [owner?, if_neg (mt (hkept f) howns')] at h
      rw [owner?, if_neg howns']
      exact ih h

/-- The owner depends on the names on the chain only. -/
theorem owner?_congr (h : ∀ f ∈ scope.frames, store'.owns f x = store.owns f x) :
    store'.owner? x scope = store.owner? x scope := by
  induction scope with
  | root f => rw [owner?, owner?, h f List.mem_cons_self]
  | inner f parent ih =>
    rw [owner?, owner?, h f List.mem_cons_self, ih fun g hg => h g (List.mem_cons_of_mem _ hg)]

theorem Hosts.frames_lt (h : store.Hosts scopes) (hscope : scope ∈ scopes) :
    ∀ f ∈ scope.frames, f < scopes.length := by
  induction scope with
  | root frame => exact List.forall_mem_singleton.mpr (h.frame_lt hscope)
  | inner frame parent ih =>
    exact List.forall_mem_cons.mpr ⟨h.frame_lt hscope, ih (h.parents _ parent hscope rfl)⟩

end Store

/-! ## Assignments -/

/-- The state after the name has got a value in a frame; all else is as it was. -/
structure State.Assigned (state : State) (frame : Nat) (x : String) (v : Value) (state' : State) :
    Prop where
  size : state'.store.frames.size = state.store.frames.size
  lookup (f : Nat) (m : String) : (state'.store.bindings f).lookup m =
    if f = frame ∧ m = x then some v else (state.store.bindings f).lookup m
  nextIdentity : state'.nextIdentity = state.nextIdentity
  depth : state'.depth = state.depth
  output : state'.output = state.output

theorem State.assigned_set {state : State} {frame : Nat} {scope : Scope} {x : String} {v : Value}
    (h : state.store.owner? x scope = some frame) :
    state.Assigned frame x v { state with store := (state.store.set scope x v).2 } where
  size := Store.size_set
  lookup f m := by
    rw [Store.lookup_bindings_set, h]
    simp only [Option.some.injEq, eq_comm]
  nextIdentity := rfl
  depth := rfl
  output := rfl

namespace Eval

variable {scope : Scope} {x : String} {op : AssignOp} {e : Expr} {span : Span} {state : State}
  {old v : Value} {frame : Nat}

/-- The end of an assignment. -/
def writeBack (scope : Scope) (x : String) (v : Value) (span : Span) : Eval Value := do
  if ← assign scope x v then return v
  else throw (.assignmentToUndeclared x span)

theorem assignment_of_lookup_some (h : state.store.lookup x scope = some old) :
    assignment scope x op e span state =
      (expr scope e >>= fun new => writeBack scope x (.assigned op old new) span) state := by
  unfold assignment
  rw [lookup?_bind, h]
  rfl

theorem writeBack_of_owner (h : state.store.owner? x scope = some frame) :
    writeBack scope x v span state =
      .done (.ok v) { state with store := (state.store.set scope x v).2 } := by
  have hset : (state.store.set scope x v).1 = true := by rw [Store.set, h]
  show (if (state.store.set scope x v).1 = true then _ else _ : Eval Value) _ = _
  rw [if_pos hset]
  rfl

end Eval

namespace Task

variable {limit steps : Nat} {scope : Scope} {x : String} {op : AssignOp} {e : Expr} {span : Span}
  {state state₁ state' : State} {old new : Value} {frame : Nat} {outcome : Task.Result}
  {scopes : List Scope}

/-- A variable that could be read can be written, whatever has been evaluated in between. -/
theorem exists_owner_of_run (hlookup : state.store.lookup x scope = some old) {task : Task}
    (hrun : task.run limit steps state = some (outcome, state₁)) :
    ∃ frame, state₁.store.owner? x scope = some frame := by
  obtain ⟨frame, howner, -⟩ := Store.exists_owner_of_lookup hlookup
  exact Store.exists_owner_of_owns (fun _ => owns_of_run hrun) howner

/-- An expression leaves the owners of all names as they were, seen from any scope of the heap. -/
theorem owner?_of_run (hhosts : state.store.Hosts scopes) (hscope : scope ∈ scopes)
    (hrun : (Task.expr e scope).run limit steps state = some (outcome, state₁)) :
    state₁.store.owner? x scope = state.store.owner? x scope := by
  obtain ⟨scopes', hconfined, -⟩ := confines_of_run hrun scopes hscope hhosts
  refine Store.owner?_congr fun f hf => Bool.eq_iff_iff.mpr ⟨fun howns => ?_, owns_of_run hrun⟩
  have hlt := hhosts.frames_lt hscope f hf
  exact (hconfined.gained f hlt x howns).resolve_right fun hnew => List.not_mem_nil hnew.2

/-- An assignment whose right side has a value comes to an end. -/
theorem exists_run_assignment (hlookup : state.store.lookup x scope = some old)
    (hrun : (Task.expr e scope).run limit steps state = some (.ok new, state₁))
    (howner : state₁.store.owner? x scope = some frame) :
    ∃ steps', (Task.expr (.assign x op e span) scope).run limit steps' state =
      some (.ok (.assigned op old new),
        { state₁ with store := (state₁.store.set scope x (.assigned op old new)).2 }) := by
  obtain ⟨k, hends⟩ := Routine.ends_of_perform hrun
  obtain ⟨j, hwrite⟩ : ∃ j, Routine.Ends (Eval.body limit)
      (Eval.writeBack scope x (.assigned op old new) span state₁) (.ok (.assigned op old new))
      { state₁ with store := (state₁.store.set scope x (.assigned op old new)).2 } j := by
    rw [Eval.writeBack_of_owner howner]
    exact ⟨0, .done _ _⟩
  have hexpr : Routine.Ends (Eval.body limit) (Eval.expr scope e state) (.ok new) state₁ (k + 1) :=
    .call hends
  obtain ⟨n, -, hassign⟩ : ∃ n ≤ k + 1 + j + 1, Routine.Ends (Eval.body limit)
      (Eval.assignment scope x op e span state) _ _ n := by
    rw [Eval.assignment_of_lookup_some hlookup]
    exact Action.ends_bind hexpr hwrite
  exact ⟨n + 2, Routine.Ends.perform hassign (Nat.le_refl _)⟩

/-- An assignment to a variable that there is fails only if its right side does. -/
theorem exists_run_of_assignment_error (hlookup : state.store.lookup x scope = some old)
    {failure : RuntimeError}
    (hrun : (Task.expr (.assign x op e span) scope).run limit steps state =
      some (.error failure, state')) :
    ∃ steps', (Task.expr e scope).run limit steps' state = some (.error failure, state') := by
  obtain ⟨depth, hresolve⟩ := Routine.perform_eq_some_iff.mp ⟨steps, hrun⟩
  cases depth with
  | zero => cases hresolve
  | succ depth =>
    change (Eval.assignment scope x op e span state).answer _ = _ at hresolve
    rw [Eval.assignment_of_lookup_some hlookup] at hresolve
    rcases Action.answer_bind_cases hresolve with ⟨new, state₁, hexpr, hwrite⟩ | ⟨_, hexpr, herror⟩
    · -- There is a variable to write to, so this is not how it failed.
      obtain ⟨steps', hperform⟩ := Routine.perform_eq_some_iff.mpr ⟨depth, hexpr⟩
      obtain ⟨frame, howner⟩ := exists_owner_of_run hlookup hperform
      rw [Eval.writeBack_of_owner howner] at hwrite
      cases hwrite
    · cases herror
      exact Routine.perform_eq_some_iff.mpr ⟨depth, hexpr⟩

/-- **An assignment writes where it read.**  Its variable was found, with the value `old`.  Then it
fails only if its right side fails, and with the same failure.  If the right side has a value, then
in the state that this leaves there is a variable to write to, and the assignment comes to an end:
one variable has the one value that combines `old` with the value of the right side, and all else is
as the right side left it.  In a heap whose native functions declare no variables, this is the
variable that was read; and the state is such a heap at every moment of all that is run in a session
that began with one. -/
theorem assignment_writes_where_it_read :
    (∀ (limit : Nat) (x : String) (op : AssignOp) (e : Expr) (span : Span) (scope : Scope)
      (state : State) (old : Value), state.store.lookup x scope = some old →
      (∀ steps failure state',
        (Task.expr (.assign x op e span) scope).run limit steps state =
          some (.error failure, state') →
        ∃ steps', (Task.expr e scope).run limit steps' state = some (.error failure, state')) ∧
      ∀ steps new state₁,
        (Task.expr e scope).run limit steps state = some (.ok new, state₁) →
        ∃ value frame steps' state',
          (∀ v, Value.Combines op old new v ↔ v = value) ∧
          (state₁.store.set scope x value).1 = true ∧
          (Task.expr (.assign x op e span) scope).run limit steps' state =
            some (.ok value, state') ∧
          state₁.store.owner? x scope = some frame ∧
          state₁.Assigned frame x value state' ∧
          ∀ scopes, state.store.Hosts scopes → scope ∈ scopes →
            state.store.owner? x scope = some frame ∧
            (state.store.bindings frame).lookup x = some old) ∧
    (∀ first session : Session, first.Sound → first.Ran session →
      ∀ (body : List Stmt) (n : Nat) (m : Moment) (task : Task),
        (Routine.Configuration.start (.program body session.scope) session.state).after
          (Eval.body session.callLimit) n = some m →
        m.routine.asked = [task] → ∃ scopes, m.state.store.Hosts scopes ∧ task.scope ∈ scopes) := by
  refine ⟨fun limit x op e span scope state old hlookup => ⟨fun steps failure state' => ?_,
    fun steps new state₁ hrun => ?_⟩, fun first session hfirst hran body n m task hafter => ?_⟩
  · exact exists_run_of_assignment_error hlookup
  · obtain ⟨frame, howner⟩ := exists_owner_of_run hlookup hrun
    obtain ⟨steps', hassign⟩ :
        ∃ steps', (Task.expr (.assign x op e span) scope).run limit steps' state = some _ :=
      exists_run_assignment hlookup hrun howner
    have hset : (state₁.store.set scope x (.assigned op old new)).1 = true := by
      rw [Store.set, howner]
    refine ⟨.assigned op old new, frame, steps', _, fun v => Value.combines_iff, hset, hassign,
      howner, State.assigned_set howner, ?_⟩
    intro scopes hhosts hscope
    obtain ⟨frame', howner', hvalue⟩ := Store.exists_owner_of_lookup hlookup
    have hsame := (owner?_of_run (x := x) hhosts hscope hrun).symm.trans howner
    cases howner'.symm.trans hsame
    exact ⟨howner', hvalue⟩
  · exact (hran.sound hfirst).hosts_at_moment hafter

/-- The right side of an assignment assigns to the same variable.  What was read before is what is
added to, and the texts are joined.  The program begins with the declaration of the variable, and
the assignment is taken up at a later moment of its run in a new session. -/
theorem assignment_writes_where_it_read_twice :
    let session := Session.start 1 .unbounded
    let right : Expr := .assign "x" .assign (.string "b" .none) .none
    let assignment : Expr := .assign "x" .add right .none
    let body : List Stmt := [.declaration .letKind [⟨"x", .string "a" .none, .none⟩] .none,
      .expr assignment]
    ∃ n m, (Routine.Configuration.start (.program body session.scope) session.state).after
        (Eval.body 1) n = some m ∧
      m.routine.asked = [.expr assignment session.scope] ∧
      ∃ steps state₁ frame steps' state',
        (Task.expr right session.scope).run 1 steps m.state = some (.ok (.string "b"), state₁) ∧
        (state₁.store.bindings frame).lookup "x" = some (.string "b") ∧
        (Task.expr assignment session.scope).run 1 steps' m.state =
          some (.ok (.string "ab"), state') ∧
        m.state.store.owner? "x" session.scope = some frame ∧
        (m.state.store.bindings frame).lookup "x" = some (.string "a") ∧
        (state'.store.bindings frame).lookup "x" = some (.string "ab") := by
  intro session right assignment body
  obtain ⟨m, hafter, hasked, hlookup, state₁, hrun, hbound⟩ : ∃ m,
      (Routine.Configuration.start (.program body session.scope) session.state).after
        (Eval.body 1) 6 = some m ∧ m.routine.asked = [.expr assignment session.scope] ∧
      m.state.store.lookup "x" session.scope = some (.string "a") ∧ ∃ state₁,
      (Task.expr right session.scope).run 1 20 m.state = some (.ok (.string "b"), state₁) ∧
      (state₁.store.bindings 0).lookup "x" = some (.string "b") :=
    ⟨_, rfl, rfl, rfl, _, rfl, rfl⟩
  obtain ⟨hwrites, hmoments⟩ := assignment_writes_where_it_read
  obtain ⟨scopes, hhosts, hscope⟩ := hmoments session session (Session.start_sound 1 .unbounded)
    .start body 6 m (.expr assignment session.scope) hafter hasked
  obtain ⟨value, frame, steps', state', hvalue, -, hassign, -, hassigned, hread⟩ :=
    (hwrites 1 "x" .add right .none session.scope m.state (.string "a") hlookup).2
      20 (.string "b") state₁ hrun
  have hjoin : Value.Combines .add (.string "a") (.string "b")
      (.string ((Value.string "a").display ++ (Value.string "b").display)) :=
    .join (.inl ⟨"a", rfl⟩)
  rw [Value.display_of_text rfl, Value.display_of_text rfl] at hjoin
  obtain rfl : .string "ab" = value := (hvalue _).mp hjoin
  obtain ⟨howner, hold⟩ := hread scopes hhosts hscope
  obtain rfl : frame = 0 := List.mem_singleton.mp (Store.owner?_eq_some howner).1
  refine ⟨6, m, hafter, hasked, 20, state₁, 0, steps', state', hrun, hbound, hassign, howner, hold,
    ?_⟩
  rw [hassigned.lookup, if_pos ⟨rfl, rfl⟩]

end Task

end Script
