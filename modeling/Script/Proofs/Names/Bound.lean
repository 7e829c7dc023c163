import Script.Proofs.Names.Binders
import Script.Proofs.Scopes.Isolation

/-!
# The names that are bound in a store

Evaluation binds the names that the program binds, and those of the functions that it gets hold of.
These come from sources as well, and the native functions among the built-ins declare nothing.  So
no scope ever owns a name that a source cannot bind, at no moment of any run
(`Session.Ran.owns_variables`).

`Likeness.binding` compares an evaluation with itself.  The names that are looked up or assigned may
be any, but the ones that are declared have to satisfy a condition.
-/

namespace Script

/-- The parameters of the function, and all names that are bound in its body, satisfy a
condition. -/
def Function.BindsOnly (name : String → Prop) (f : Function) : Prop :=
  (∀ x ∈ f.parameters, name x) ∧ ∀ t ∈ f.body, (Node.ofStmt t).BindsOnly name

/-- References stand for themselves.  Functions bind only names that satisfy the condition, and no
native function declares variables. -/
def Matching.binding (name : String → Prop) : Matching where
  identity := Eq
  closure f s g t := (f = g ∧ f.BindsOnly name) ∧ s = t
  native n := n ≠ .define

/-- All names in the store satisfy the condition, and so do all that the functions in it bind. -/
def Store.BindsOnly (name : String → Prop) (store : Store) : Prop :=
  ∀ n x v, (store.bindings n).lookup x = some v → name x ∧ v.Match (.binding name) v

/-- The comparison of an evaluation with itself, where the names that are declared satisfy a
condition. -/
def Likeness.binding (limit : Nat) (name : String → Prop) : Likeness where
  World := Unit
  le _ _ := True
  state _ s s' := s = s' ∧ s.store.BindsOnly name
  identity _ := Eq
  scope _ := Eq
  function f f' := f = f' ∧ f.BindsOnly name
  native n := n ≠ .define
  name _ := True
  binder := name
  error := Eq
  lost _ := False
  limit := limit
  limit' := limit

namespace Store

variable {name : String → Prop} {store : Store} {scope : Scope} {x : String} {v w : Value}

theorem eq_of_match_binding (h : v.Match (.binding name) w) : v = w :=
  h.eq (fun _ _ => id) fun _ _ _ _ hclosure => ⟨hclosure.1.1, hclosure.2⟩

theorem BindsOnly.owns (h : store.BindsOnly name) {n : Nat} (howns : store.owns n x = true) :
    name x := by
  obtain ⟨v, hv⟩ := Option.isSome_iff_exists.mp howns
  exact (h n x v hv).1

/-- A name that the condition excludes is found nowhere. -/
theorem BindsOnly.lookup_eq_none (h : store.BindsOnly name) (hx : ¬ name x) (scope : Scope) :
    store.lookup x scope = none := by
  have hframe : ∀ n, (store.bindings n).lookup x = none := by
    intro n
    cases hfound : (store.bindings n).lookup x with
    | none => rfl
    | some v => exact absurd (h n x v hfound).1 hx
  induction scope with
  | root frame => exact hframe frame
  | inner frame parent ih => rw [Store.lookup, hframe, ih]

theorem BindsOnly.lookup (h : store.BindsOnly name) (hlookup : store.lookup x scope = some v) :
    v.Match (.binding name) v := by
  induction scope with
  | root frame => exact (h frame x v hlookup).2
  | inner frame parent ih =>
    rw [Store.lookup] at hlookup
    split at hlookup
    · next found =>
      cases hlookup
      exact (h frame x v found).2
    · exact ih hlookup

theorem BindsOnly.declare (h : store.BindsOnly name) (hx : name x)
    (hv : v.Match (.binding name) v) : (store.declare scope x v).2.BindsOnly name := by
  intro n y u hu
  rw [lookup_bindings_declare] at hu
  split at hu
  · next hnew =>
    cases hu
    obtain ⟨-, -, -, rfl⟩ := hnew
    exact ⟨hx, hv⟩
  · exact h n y u hu

/-- An assignment binds no name that was not bound before. -/
theorem BindsOnly.set (h : store.BindsOnly name) (hv : v.Match (.binding name) v) :
    (store.set scope x v).2.BindsOnly name := by
  intro n y u hu
  rw [lookup_bindings_set] at hu
  split at hu
  · next hset =>
    cases hu
    obtain ⟨howner, rfl⟩ := hset
    exact ⟨h.owns (owner?_eq_some howner).2, hv⟩
  · exact h n y u hu

theorem BindsOnly.allocate (h : store.BindsOnly name) {bindings : Bindings}
    (hbindings : ∀ y u, bindings.lookup y = some u → name y ∧ u.Match (.binding name) u) :
    (store.allocate bindings).2.BindsOnly name := by
  intro n y u hu
  rw [bindings_allocate] at hu
  split at hu
  · exact hbindings y u hu
  · exact h n y u hu

end Store

namespace Likeness

variable {limit : Nat} {name : String → Prop}

/-- **Evaluation binds only the names that it is given.** -/
theorem binding_lawful : (binding limit name).Lawful where
  refl _ := trivial
  trans _ _ := trivial
  identity_mono _ h := h
  scope_mono _ h := h
  place_mono _ h := h
  scope_of_place h := h
  oneToOne _ := .of_eq fun _ _ => id
  parameters h := ⟨congrArg Function.parameters h.1, h.2.1⟩
  named _ _ _ := trivial
  defined h := absurd rfl h
  limit_le := Nat.le_refl _
  overflow _ hlt := absurd hlt (Nat.lt_irrefl _)
  depth n h := ⟨congrArg (fun s : State => { s with depth := n }) h.1, h.2⟩
  fresh {_ s s'} h := by
    obtain ⟨rfl, hstore⟩ := h
    exact ⟨(), trivial, ⟨rfl, hstore⟩, rfl⟩
  lookup {_ s s' scope scope' x} h hscope _ := by
    obtain ⟨rfl, hstore⟩ := h
    obtain rfl : scope = scope' := hscope
    cases hlookup : s.store.lookup x scope with
    | none => exact .none
    | some v => exact .some (hstore.lookup hlookup)
  declare {_ s s' scope scope' x v v'} h hscope hx hv := by
    obtain ⟨rfl, hstore⟩ := h
    obtain rfl : scope = scope' := hscope
    obtain rfl : v = v' := Store.eq_of_match_binding hv
    exact ⟨rfl, rfl, hstore.declare hx hv⟩
  set {_ s s' scope scope' x v v'} h hscope _ hv := by
    obtain ⟨rfl, hstore⟩ := h
    obtain rfl : scope = scope' := hscope
    obtain rfl : v = v' := Store.eq_of_match_binding hv
    exact ⟨rfl, rfl, hstore.set hv⟩
  newInner {_ s s' scope scope' b b'} h hscope hnames hentries := by
    obtain ⟨rfl, hstore⟩ := h
    obtain rfl : scope = scope' := hscope
    obtain rfl : b = b' := Value.eq_of_matchAt (fun _ _ => Store.eq_of_match_binding) hentries
    refine ⟨(), trivial, ⟨rfl, hstore.allocate fun y u hu => ?_⟩, rfl⟩
    have hmem := Bindings.mem_of_lookup hu
    exact ⟨hnames _ hmem, (List.forall₂_same.mp hentries _ hmem).2⟩
  write {_ s s'} text h := by
    obtain ⟨rfl, hstore⟩ := h
    exact ⟨rfl, rfl, hstore⟩

theorem binding_admits : (binding limit name).Admits (Node.BindsOnly name) where
  children h hk := h.child hk
  suits h :=
    { uses := fun _ => trivial
      declares := fun hx => h.here _ (.inl hx)
      makes := fun hf =>
        ⟨rfl, fun x hx => h.here x (.inr ⟨_, hf, hx⟩), fun _ ht => h.child (hf.mem_children ht)⟩
      raises := fun _ => rfl }

theorem binding_closed :
    (binding limit name).Closed (Trees.same (Node.BindsOnly name)) :=
  binding_admits.closed fun _ _ h => ⟨h.1, h.2.2⟩

end Likeness

namespace Task

variable {limit : Nat} {name : String → Prop} {body : List Stmt} {scope : Scope} {state : State}

/-- **At every moment of a run**, the store has only names that the program may bind. -/
theorem bindsOnly_at_moment (hbody : ∀ t ∈ body, (Node.ofStmt t).BindsOnly name)
    (hstore : state.store.BindsOnly name) {n : Nat} {m : Moment}
    (h : (Routine.Configuration.start (.program body scope) state).after (Eval.body limit) n =
      some m) : m.state.store.BindsOnly name := by
  cases n with
  | zero =>
    cases h
    exact hstore
  | succ n =>
    let L := Likeness.binding limit name
    have hlayer : L.Layer (Trees.same (Node.BindsOnly name)) () (.program body scope)
        (.program body scope) :=
      .program (Likeness.Admits.sequence_same (List.forall_mem_map.mpr hbody)) rfl
    have hstart := hlayer.together Likeness.binding_lawful (s := state) ⟨⟨rfl, hstore⟩, rfl, rfl⟩
    rcases hstart.after Likeness.binding_lawful Likeness.binding_closed h with
      hlosing | ⟨m', -, htogether⟩
    · exact absurd hlosing (Likeness.not_losing fun _ => id)
    · obtain ⟨-, -, hstore'⟩ := htogether.states fun _ => id
      exact hstore'

end Task

namespace Session

/-- Sources have been run in a session one after another, whatever came of them. -/
inductive Ran (first : Session) : Session → Prop
  | start : Ran first first
  | run {session session' : Session} {steps : Nat} {file source : String}
      {outcome : Except Diagnostic Value} (before : Ran first session)
      (step : session.run steps file source = some (outcome, session')) : Ran first session'

theorem bindsOnly_run {session session' : Session} {steps : Nat} {file source : String}
    {outcome : Except Diagnostic Value} (hstore : session.state.store.BindsOnly VariableName)
    (h : session.run steps file source = some (outcome, session')) :
    session'.state.store.BindsOnly VariableName := by
  cases hprogram : Program.ofSource file source with
  | error d =>
    rw [run, hprogram] at h
    cases h
    exact hstore
  | ok program =>
    rw [run_eq_evaluate hprogram] at h
    obtain ⟨out, state, hrun, hr⟩ := evaluate_eq_some_iff.mp h
    cases hr
    obtain ⟨n, -, hafter⟩ := Routine.run_eq_some_iff.mp hrun
    have hbody := List.forall_mem_map.mp (Program.binders_of_ofSource hprogram)
    exact Task.bindsOnly_at_moment hbody hstore hafter

/-- The built-ins are named as variables may be. -/
theorem bindsOnly_start (callLimit : Nat) (output : Output) :
    (start callLimit output).state.store.BindsOnly VariableName := by
  let L := Likeness.binding callLimit VariableName
  have hbare : L.Sessions () (bare callLimit output) (bare callLimit output) := by
    refine ⟨⟨rfl, ?_⟩, rfl⟩
    have hempty : Store.empty.BindsOnly VariableName := nofun
    exact hempty.allocate nofun
  have hnative : ∀ n ∈ [Native.write, .writeLine, .assert], n ≠ .define := by simp
  have hname : ∀ x ∈ ["log", "assert"], VariableName x := by
    rw [List.forall_mem_cons, List.forall_mem_singleton]
    refine ⟨⟨⟨⟨'l', ['o', 'g'], rfl, rfl, ?_⟩, rfl⟩, rfl⟩,
      ⟨⟨⟨'a', ['s', 's', 'e', 'r', 't'], rfl, rfl, ?_⟩, rfl⟩, rfl⟩⟩
    · exact List.all_eq_true.mp rfl
    · exact List.all_eq_true.mp rfl
  obtain ⟨_, hstart⟩ := Likeness.binding_lawful.withBuiltins hnative
    (fun x hx _ _ _ _ _ h hv => Likeness.binding_lawful.define h (hname x hx) hv) hbare
  exact hstart.state.2

theorem Ran.bindsOnly {callLimit : Nat} {output : Output} {session : Session}
    (h : (Session.start callLimit output).Ran session) :
    session.state.store.BindsOnly VariableName := by
  induction h with
  | start => exact bindsOnly_start callLimit output
  | run _ step ih => exact bindsOnly_run ih step

end Session

/-! ## Constants -/

namespace Eval

variable {scope : Scope} {x : String} {s : State}

theorem lookup?_bind {α : Type} (next : Option Value → Eval α) :
    (lookup? scope x >>= next) s = next (s.store.lookup x scope) s := rfl

/-- An assignment to a name that is found nowhere is over at once. -/
theorem assignment_of_lookup_none (h : s.store.lookup x scope = none) (op : AssignOp) (e : Expr)
    (span : Span) :
    assignment scope x op e span s = .done (.error (.assignmentToUndeclared x span)) s := by
  unfold assignment
  rw [lookup?_bind, h]
  rfl

/-- So is an object literal that comes to such a name. -/
theorem properties_of_lookup_none (h : s.store.lookup x scope = none)
    (before : List (String × Value)) (span : Span) (rest : List Property) :
    properties scope before (.shorthand x span :: rest) s =
      .done (.error (.unknownVariable x span)) s := by
  rw [properties, lookup?_bind, h]
  rfl

end Eval

/-- **Constants and reserved words are never bound.**  In a session with the built-ins, in which
any sources have been run, every name of every frame is one that a variable may have.  The same is
true at every moment of the next source, and so at no moment there is a variable that is named like
a constant: an assignment to one fails before its value is asked for, and so does an object literal
that comes to one, and nothing is changed by either. -/
theorem Session.Ran.owns_variables {callLimit : Nat} {output : Output} {session : Session}
    (h : (Session.start callLimit output).Ran session) :
    (∀ frame x, session.state.store.owns frame x = true → VariableName x) ∧
    ∀ (file source : String) (program : Program), Program.ofSource file source = .ok program →
      ∀ (n : Nat) (m : Moment),
      (Routine.Configuration.start (.program program.body session.scope) session.state).after
        (Eval.body session.callLimit) n = some m →
      (∀ frame x, m.state.store.owns frame x = true → VariableName x) ∧
      ∀ (c : Constant) (scope : Scope) (span : Span),
        (∀ op e, Eval.body session.callLimit (.expr (.assign c.spelling op e span) scope) m.state =
          .done (.error (.assignmentToUndeclared c.spelling span)) m.state) ∧
        ∀ before rest, Eval.properties scope before (.shorthand c.spelling span :: rest) m.state =
          .done (.error (.unknownVariable c.spelling span)) m.state := by
  refine ⟨fun _ _ => h.bindsOnly.owns, fun file source program hprogram n m hm => ?_⟩
  have hbody := List.forall_mem_map.mp (Program.binders_of_ofSource hprogram)
  have hstore := Task.bindsOnly_at_moment hbody h.bindsOnly hm
  refine ⟨fun _ _ => hstore.owns, fun c scope span => ?_⟩
  have hnone := hstore.lookup_eq_none (fun hname => hname.ne_constant c rfl) scope
  exact ⟨fun op e => Eval.assignment_of_lookup_none hnone op e span,
    fun before rest => Eval.properties_of_lookup_none hnone before span rest⟩

/-- A source that declares a variable, and another one that assigns it to a constant, at the moment
before the assignment begins. -/
theorem Session.Ran.owns_variables_declaration :
    let span : Span := ⟨⟨0, 0, 0⟩, ⟨6, 0, 6⟩⟩
    let a : Expr := .var "a" ⟨⟨5, 0, 5⟩, ⟨6, 0, 6⟩⟩
    let task : Task := .expr (.assign "true" .assign a span) (.root 0)
    ∃ session program m p,
      (Session.start 1 .unbounded).run 10 "first" "let a" = some (.ok .undefined, session) ∧
      session.state.store.owns 0 "a" = true ∧ VariableName "a" ∧
      Program.ofSource "second" "true=a" = .ok program ∧
      (Routine.Configuration.start (.program program.body session.scope) session.state).after
        (Eval.body session.callLimit) 2 = some m ∧
      m = ⟨.call task m.state, p⟩ ∧
      Eval.body session.callLimit task m.state =
        .done (.error (.assignmentToUndeclared "true" span)) m.state := by
  intro span a task
  have hfirst : Lexeme.scan "let a" = .ok [⟨.keyword .letWord, ⟨⟨0, 0, 0⟩, ⟨3, 0, 3⟩⟩⟩,
      ⟨.identifier "a", ⟨⟨4, 0, 4⟩, ⟨5, 0, 5⟩⟩⟩, ⟨.endOfFile, ⟨⟨5, 0, 5⟩, ⟨5, 0, 5⟩⟩⟩] := by
    have hsource : "let a".toList = ['l', 'e', 't', ' ', 'a'] := rfl
    have hlet : Lexeme.munch 'l' ['e', 't', ' ', 'a'] =
        .ok ⟨.keyword .letWord, ['l', 'e', 't'], [' ', 'a']⟩ := rfl
    have ha : Lexeme.munch 'a' [] = .ok ⟨.identifier "a", ['a'], []⟩ := rfl
    rw [Lexeme.scan, hsource, Lexeme.scanFrom_munch rfl hlet, Lexeme.scanFrom_space rfl,
      Lexeme.scanFrom_munch rfl ha, Lexeme.scanFrom]
    rfl
  have hsecond : Lexeme.scan "true=a" = .ok [⟨.identifier "true", ⟨⟨0, 0, 0⟩, ⟨4, 0, 4⟩⟩⟩,
      ⟨.symbol .equals, ⟨⟨4, 0, 4⟩, ⟨5, 0, 5⟩⟩⟩, ⟨.identifier "a", ⟨⟨5, 0, 5⟩, ⟨6, 0, 6⟩⟩⟩,
      ⟨.endOfFile, ⟨⟨6, 0, 6⟩, ⟨6, 0, 6⟩⟩⟩] := by
    have hsource : "true=a".toList = ['t', 'r', 'u', 'e', '=', 'a'] := rfl
    have htrue : Lexeme.munch 't' ['r', 'u', 'e', '=', 'a'] =
        .ok ⟨.identifier "true", ['t', 'r', 'u', 'e'], ['=', 'a']⟩ := rfl
    have hequals : Lexeme.munch '=' ['a'] = .ok ⟨.symbol .equals, ['='], ['a']⟩ := rfl
    have ha : Lexeme.munch 'a' [] = .ok ⟨.identifier "a", ['a'], []⟩ := rfl
    rw [Lexeme.scan, hsource, Lexeme.scanFrom_munch rfl htrue, Lexeme.scanFrom_munch rfl hequals,
      Lexeme.scanFrom_munch rfl ha, Lexeme.scanFrom]
    rfl
  have hprogram₁ : Program.ofSource "first" "let a" = .ok _ :=
    Program.ofSource_eq_ok_iff.mpr ⟨_, hfirst, rfl⟩
  have hprogram₂ : Program.ofSource "second" "true=a" = .ok _ :=
    Program.ofSource_eq_ok_iff.mpr ⟨_, hsecond, rfl⟩
  have hrun : (Session.start 1 .unbounded).run 10 "first" "let a" = some (.ok .undefined, _) :=
    (run_eq_evaluate hprogram₁).trans rfl
  obtain ⟨hsession, hmoments⟩ := owns_variables (.run .start hrun)
  have howns : ∀ session, (Session.start 1 .unbounded).run 10 "first" "let a" =
      some (.ok .undefined, session) → session.state.store.owns 0 "a" = true := by
    intro session h
    cases hrun.symm.trans h
    rfl
  refine ⟨_, _, _, _, hrun, howns _ hrun, hsession 0 "a" (howns _ hrun), hprogram₂, rfl, rfl, ?_⟩
  exact ((hmoments "second" "true=a" _ hprogram₂ 2 _ rfl).2 .true (.root 0) span).1 .assign a

end Script
