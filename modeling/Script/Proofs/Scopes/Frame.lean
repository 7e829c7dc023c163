import Script.Proofs.Routine
import Script.Proofs.Scopes.Confined
import Script.Session

/-!
# Where evaluation declares variables

Evaluation gives names to one old scope only, the one it takes place in, and only those that are
declared by the statement itself or by the statements of the program; all else it declares goes to
scopes that are new.  In whatever way it ends, the scopes that were there before have the parents
and the names they had.

`Eval.Keeps` is the form in which this is proved.  It has one rule for each way to put evaluations
together, so that the lemma for a piece of syntax follows the text of its evaluation.
-/

namespace Script

/-- The names that a statement declares in the scope it stands in. -/
def Stmt.declares : Stmt → List String
  | .declaration _ declarators _ => declarators.map Declarator.name
  | .function name _ => [name]
  | .expr _ | .conditional _ | .loop _ _ _ | .block _ => []

namespace Task

/-- Where a task takes place. -/
def scope : Task → Scope
  | program _ scope | invocation _ scope | expr _ scope | stmt _ scope | loop _ _ scope _ => scope

/-- The names that a task declares in its scope: those of the statement that it is, or of the
statements of the body that it is. -/
def declares : Task → List String
  | program body _ | invocation body _ => body.flatMap Stmt.declares
  | stmt s _ => s.declares
  | expr _ _ | loop _ _ _ _ => []

/-- The task takes place in one of the scopes, and the value it starts with, if any, belongs to
them. -/
def Sound (scopes : List Scope) : Task → Prop
  | program _ scope | invocation _ scope | expr _ scope | stmt _ scope => scope ∈ scopes
  | loop _ _ scope last => scope ∈ scopes ∧ last.Sound scopes

theorem Sound.scope_mem {scopes : List Scope} {task : Task} (h : task.Sound scopes) :
    task.scope ∈ scopes := by
  cases task with
  | loop => exact h.1
  | _ => exact h

end Task

namespace Eval

/-- How a task of the evaluation is answered. -/
abbrev Reply := (task : Task) → State → Option (Except RuntimeError Value × State)

/-- From any heap with these scopes, the work is confined to a frame and some names, and a result is
good for the scopes that there are then. -/
def Keeps {α : Type} (reply : Reply) (frame : Nat) (names : List String) (scopes : List Scope)
    (work : Eval α) (good : List Scope → α → Prop) : Prop :=
  ∀ state : State, state.store.Hosts scopes → Action.Ensures reply work state fun outcome state' =>
    ∃ scopes', Store.Confined frame names scopes state.store scopes' state'.store ∧
      ∀ a, outcome = .ok a → good scopes' a

/-- The tasks are answered as they should be. -/
def Respects (reply : Reply) : Prop :=
  ∀ task scopes, task.Sound scopes →
    Keeps reply task.scope.frame task.declares scopes (Action.call task) Value.Sound

section Rules

variable {α β : Type} {reply : Reply} {frame : Nat} {names : List String} {scopes : List Scope}
  {good : List Scope → α → Prop} {good' : List Scope → β → Prop} {scope : Scope} {name : String}
  {value : Value}

theorem Keeps.pure {a : α} (h : good scopes a) :
    Keeps reply frame names scopes (Pure.pure a) good := by
  intro state hhosts outcome state' heq
  cases heq
  refine ⟨scopes, .refl hhosts, fun b hb => ?_⟩
  cases hb
  exact h

theorem Keeps.throw (e : RuntimeError) :
    Keeps reply frame names scopes (MonadExcept.throw e) good := by
  intro state hhosts outcome state' heq
  cases heq
  exact ⟨scopes, .refl hhosts, nofun⟩

theorem Keeps.bind {first : Eval α} {next : α → Eval β}
    (h : Keeps reply frame names scopes first good)
    (hnext : ∀ scopes₁ a, scopes ⊆ scopes₁ → good scopes₁ a →
      Keeps reply frame names scopes₁ (next a) good') :
    Keeps reply frame names scopes (first >>= next) good' := by
  intro state hhosts
  refine Action.ensures_bind (h state hhosts) ?_ ?_
  · rintro a state₁ ⟨scopes₁, hfirst, hgood⟩ outcome state' heq
    obtain ⟨scopes₂, hsecond, hgood'⟩ :=
      hnext scopes₁ a hfirst.grown.subset (hgood a rfl) state₁ hfirst.hosts outcome state' heq
    exact ⟨scopes₂, hfirst.trans hsecond fun _ => ⟨rfl, fun _ h => h⟩, hgood'⟩
  · rintro e state₁ ⟨scopes₁, hfirst, -⟩
    exact ⟨scopes₁, hfirst, nofun⟩

theorem Keeps.weaken {names' : List String} {work : Eval α}
    (h : Keeps reply frame names scopes work good) (hsub : names ⊆ names') :
    Keeps reply frame names' scopes work good := by
  intro state hhosts outcome state' heq
  obtain ⟨scopes', hconfined, hgood⟩ := h state hhosts outcome state' heq
  exact ⟨scopes', hconfined.weaken hsub, hgood⟩

/-- A step that leaves the scopes as they are. -/
theorem Keeps.step {f : State → Except RuntimeError α × State}
    (h : ∀ state : State, state.store.Hosts scopes →
      Store.Confined frame names scopes state.store scopes (f state).2.store ∧
        ∀ a, (f state).1 = .ok a → good scopes a) :
    Keeps reply frame names scopes (fun state => .done (f state).1 (f state).2) good := by
  intro state hhosts
  exact Action.ensures_done ⟨scopes, h state hhosts⟩

/-- A step that leaves the store alone. -/
theorem Keeps.aside {f : State → α × State} (h : ∀ state, (f state).2.store = state.store) :
    Keeps reply frame names scopes (fun state => .done (.ok (f state).1) (f state).2)
      fun _ _ => True := by
  refine Keeps.step (f := fun state => (.ok (f state).1, (f state).2)) fun state hhosts => ?_
  refine ⟨?_, fun _ _ => trivial⟩
  rw [h state]
  exact .refl hhosts

theorem keeps_freshIdentity : Keeps reply frame names scopes freshIdentity fun _ _ => True :=
  Keeps.aside (f := State.freshIdentity) fun _ => rfl

theorem keeps_depth : Keeps reply frame names scopes depth fun _ _ => True :=
  Keeps.aside (f := fun state => (state.depth, state)) fun _ => rfl

theorem keeps_enter : Keeps reply frame names scopes enter fun _ _ => True :=
  Keeps.aside (f := fun state => ((), { state with depth := state.depth + 1 })) fun _ => rfl

theorem keeps_leave : Keeps reply frame names scopes leave fun _ _ => True :=
  Keeps.aside (f := fun state => ((), { state with depth := state.depth - 1 })) fun _ => rfl

theorem keeps_lookup? : Keeps reply frame names scopes (lookup? scope name) fun scopes found =>
    ∀ v, found = some v → v.Sound scopes := by
  refine Keeps.step (f := fun state => (.ok (state.store.lookup name scope), state)) ?_
  intro state hhosts
  refine ⟨.refl hhosts, fun found hfound v hv => ?_⟩
  cases hfound
  exact hhosts.lookup hv

theorem keeps_declare (hvalue : value.Sound scopes) (hname : name ∈ names) :
    Keeps reply scope.frame names scopes (declare scope name value) fun _ _ => True :=
  Keeps.step (f := fun state => (.ok (state.store.declare scope name value).1,
      { state with store := (state.store.declare scope name value).2 }))
    fun _ hhosts => ⟨hhosts.declare hvalue hname, fun _ _ => trivial⟩

theorem keeps_assign (hvalue : value.Sound scopes) :
    Keeps reply frame names scopes (assign scope name value) fun _ _ => True :=
  Keeps.step (f := fun state => (.ok (state.store.set scope name value).1,
      { state with store := (state.store.set scope name value).2 }))
    fun _ hhosts => ⟨hhosts.set hvalue, fun _ _ => trivial⟩

/-- The outcome of some work is good if it is a failure or a good result. -/
theorem Keeps.outcome {work : Eval α} (h : Keeps reply frame names scopes work good) :
    Keeps reply frame names scopes (Action.outcome work)
      fun scopes outcome => ∀ a, outcome = .ok a → good scopes a := by
  intro state hhosts
  refine Action.ensures_outcome (h state hhosts) ?_
  rintro outcome state' ⟨scopes', hconfined, hgood⟩
  refine ⟨scopes', hconfined, fun out hout => ?_⟩
  cases hout
  exact hgood

/-- Work in a new scope is confined to whatever there was before. -/
theorem Keeps.inside {bindings : Bindings} {work : Scope → Eval α} (inner : List String)
    (hscope : scope ∈ scopes) (hbindings : ∀ x ∈ bindings, x.2.Sound scopes)
    (hwork : ∀ scopes₁ new, scopes ⊆ scopes₁ → new ∈ scopes₁ →
      Keeps reply new.frame inner scopes₁ (work new) good) :
    Keeps reply frame names scopes (newInner scope bindings >>= work) good := by
  intro state hhosts outcome state' heq
  have hnew : Store.Confined frame names scopes state.store
      (scopes ++ [.inner scopes.length scope]) (state.store.allocate bindings).2 := by
    refine hhosts.newScope rfl (fun p hp => ?_) hbindings
    cases hp
    exact hscope
  have hsize : state.store.frames.size = scopes.length := hhosts.size
  have hmem : Scope.inner state.store.frames.size scope ∈
      scopes ++ [.inner scopes.length scope] := by
    rw [hsize]
    exact List.mem_append_right _ List.mem_cons_self
  obtain ⟨scopes', hconfined, hgood⟩ := hwork _ _ hnew.grown.subset hmem
    { state with store := (state.store.allocate bindings).2 } hnew.hosts outcome state' heq
  -- The new frame is none of the old ones: its number is how many of them there were.
  refine ⟨scopes', hnew.trans hconfined fun hlt => ?_, hgood⟩
  exact absurd hlt (Nat.not_lt_of_le (Nat.le_of_eq hsize.symm))

end Rules

/-! ## Lists -/

section Pieces

variable {reply : Reply} {names : List String} {scopes : List Scope} {scope : Scope}
  {value last : Value}

theorem Respects.expr (h : Respects reply) (hscope : scope ∈ scopes) (e : Expr) :
    Keeps reply scope.frame names scopes (Eval.expr scope e) Value.Sound :=
  (h (.expr e scope) scopes hscope).weaken (List.nil_subset _)

theorem Respects.stmt (h : Respects reply) (hscope : scope ∈ scopes) {s : Stmt}
    (hsub : s.declares ⊆ names) :
    Keeps reply scope.frame names scopes (Eval.stmt scope s) Value.Sound :=
  (h (.stmt s scope) scopes hscope).weaken hsub

theorem Respects.sequence (h : Respects reply) (hscope : scope ∈ scopes) (hlast : last.Sound scopes)
    {body : List Stmt} (hsub : ∀ s ∈ body, s.declares ⊆ names) :
    Keeps reply scope.frame names scopes (Eval.sequence scope last body) Value.Sound := by
  induction body generalizing scopes last with
  | nil => exact .pure hlast
  | cons s rest ih =>
    obtain ⟨hfirst, hrest⟩ := List.forall_mem_cons.mp hsub
    refine (h.stmt hscope hfirst).bind fun scopes₁ value hle hvalue => ?_
    exact ih (hle hscope) hvalue hrest

/-- A sequence declares no more than its statements do. -/
theorem Respects.statements (h : Respects reply) (hscope : scope ∈ scopes) (body : List Stmt) :
    Keeps reply scope.frame (body.flatMap Stmt.declares) scopes
      (Eval.sequence scope .undefined body) Value.Sound :=
  h.sequence hscope .undefined fun s hs _ hname => List.mem_flatMap.mpr ⟨s, hs, hname⟩

theorem Respects.values (h : Respects reply) (hscope : scope ∈ scopes) {done : List Value}
    (hdone : ∀ v ∈ done, v.Sound scopes) (es : List Expr) :
    Keeps reply scope.frame names scopes (Eval.values scope done es)
      fun scopes vs => ∀ v ∈ vs, v.Sound scopes := by
  induction es generalizing scopes done with
  | nil => exact .pure fun v hv => hdone v (List.mem_reverse.mp hv)
  | cons e rest ih =>
    refine (h.expr hscope e).bind fun scopes₁ value hle hvalue => ?_
    exact ih (hle hscope) (List.forall_mem_cons.mpr ⟨hvalue, fun v hv => (hdone v hv).mono hle⟩)

theorem sound_insertProperty {properties : List (String × Value)} {key : String}
    (hproperties : ∀ p ∈ properties, p.2.Sound scopes) (hvalue : value.Sound scopes) :
    ∀ p ∈ insertProperty properties key value, p.2.Sound scopes := by
  intro p hp
  rcases mem_insertProperty hp with hp | hp
  · exact hproperties p hp
  · exact hp ▸ hvalue

theorem Respects.properties (h : Respects reply) (hscope : scope ∈ scopes)
    {done : List (String × Value)} (hdone : ∀ p ∈ done, p.2.Sound scopes)
    (entries : List Property) :
    Keeps reply scope.frame names scopes (Eval.properties scope done entries)
      fun scopes ps => ∀ p ∈ ps, p.2.Sound scopes := by
  induction entries generalizing scopes done with
  | nil => exact .pure hdone
  | cons entry rest ih =>
    cases entry with
    | keyed key e _ =>
      refine (h.expr hscope e).bind fun scopes₁ value hle hvalue => ?_
      exact ih (hle hscope) (sound_insertProperty (fun p hp => (hdone p hp).mono hle) hvalue)
    | shorthand name span =>
      refine keeps_lookup?.bind fun scopes₁ found hle hfound => ?_
      cases found with
      | none => exact .throw _
      | some value =>
        exact ih (hle hscope)
          (sound_insertProperty (fun p hp => (hdone p hp).mono hle) (hfound value rfl))

/-- A declaration gives its names to the scope it stands in, as far as it comes. -/
theorem Respects.declarators (h : Respects reply) (hscope : scope ∈ scopes)
    (hlast : last.Sound scopes) {ds : List Declarator} (hsub : ds.map Declarator.name ⊆ names) :
    Keeps reply scope.frame names scopes (Eval.declarators scope last ds) Value.Sound := by
  induction ds generalizing scopes last with
  | nil => exact .pure hlast
  | cons d rest ih =>
    rw [List.map_cons, List.cons_subset] at hsub
    refine (h.expr hscope d.value).bind fun scopes₁ value hle hvalue => ?_
    refine (keeps_declare hvalue hsub.1).bind fun scopes₂ free hle' _ => ?_
    cases free with
    | true => exact ih (hle' (hle hscope)) (hvalue.mono hle') hsub.2
    | false => exact .throw _

/-! ## Calls -/

theorem sound_bindParameters {arguments : List Value} (harguments : ∀ v ∈ arguments, v.Sound scopes)
    (parameters : List String) :
    ∀ x ∈ bindParameters parameters arguments, x.2.Sound scopes := by
  induction parameters generalizing arguments with
  | nil => exact nofun
  | cons name rest ih =>
    refine List.forall_mem_cons.mpr ⟨Native.sound_headD harguments, ih fun v hv => ?_⟩
    exact harguments v (List.mem_of_mem_tail hv)

/-- The body of a function declares in the scope of its call. -/
theorem Respects.invoke (h : Respects reply) (hscope : scope ∈ scopes) (body : List Stmt) :
    Keeps reply scope.frame (body.flatMap Stmt.declares) scopes (Eval.invoke body scope)
      Value.Sound := by
  refine keeps_enter.bind fun scopes₁ _ hle _ => ?_
  have hbody := h (.invocation body scope) scopes₁ (hle hscope)
  -- The outcome is taken as it is, so that the call is left also when its body has failed.
  refine hbody.outcome.bind fun scopes₂ outcome hle' hout => ?_
  refine keeps_leave.bind fun scopes₃ _ hle'' _ => ?_
  cases outcome with
  | ok value => exact .pure ((hout value rfl).mono hle'')
  | error e => exact .throw e

/-- What a native function changes is changed also when it fails. -/
theorem call_native (limit identity : Nat) (native : Native) (arguments : List Value) (span : Span)
    (scope : Scope) : Eval.call limit (.native identity native) arguments span scope = fun state =>
      .done ((native.invoke arguments scope state).1.mapError (.nativeFailure · span))
        (native.invoke arguments scope state).2 := by
  funext state
  unfold Eval.call
  dsimp only
  obtain ⟨result, state'⟩ := native.invoke arguments scope state
  cases result with
  | ok value => rfl
  | error message => rfl

theorem keeps_native {native : Native} {arguments : List Value} (limit identity : Nat)
    (hnative : native ≠ .define) (harguments : ∀ v ∈ arguments, v.Sound scopes) (span : Span)
    {frame : Nat} :
    Keeps reply frame names scopes (Eval.call limit (.native identity native) arguments span scope)
      Value.Sound := by
  rw [call_native]
  refine Keeps.step (f := fun state => ((native.invoke arguments scope state).1.mapError _, _)) ?_
  intro state hhosts
  obtain ⟨hconfined, hgood⟩ := native.invoke_confined hnative harguments hhosts
  refine ⟨hconfined, fun v hv => hgood v ?_⟩
  cases hresult : (native.invoke arguments scope state).1 with
  | ok value =>
    rw [hresult] at hv
    cases hv
    rfl
  | error message =>
    rw [hresult] at hv
    cases hv

theorem Respects.call (h : Respects reply) (limit : Nat) {callee : Value} {arguments : List Value}
    (hcallee : callee.Sound scopes) (harguments : ∀ v ∈ arguments, v.Sound scopes) (span : Span) :
    Keeps reply scope.frame names scopes (Eval.call limit callee arguments span scope)
      Value.Sound := by
  cases hcallee with
  | native identity hnative => exact keeps_native limit identity hnative harguments span
  | @function identity name function closure hclosure =>
    refine keeps_depth.bind fun scopes₁ depth hle _ => ?_
    split
    · -- The limit is reached, and nothing comes after the failure.
      have hthrow : Keeps reply scope.frame names scopes₁
          (throw (RuntimeError.stackOverflow limit span) : Eval Unit) fun _ _ => False :=
        .throw _
      exact hthrow.bind fun _ _ _ hfalse => hfalse.elim
    · have hbindings :=
        sound_bindParameters (fun v hv => (harguments v hv).mono hle) function.parameters
      refine .inside (function.body.flatMap Stmt.declares) (hle hclosure) hbindings ?_
      exact fun scopes₂ inner _ hinner => h.invoke hinner function.body
  | _ => exact .throw _

/-! ## Expressions -/

theorem keeps_member {target key : Value} (htarget : target.Sound scopes) (span : Span)
    {frame : Nat} :
    Keeps reply frame names scopes (Eval.member target key span) Value.Sound := by
  unfold Eval.member
  split
  · next value hmember => exact .pure (htarget.member hmember)
  · exact .throw _

theorem Respects.assignment (h : Respects reply) (hscope : scope ∈ scopes) (name : String)
    (op : AssignOp) (e : Expr) (span : Span) :
    Keeps reply scope.frame names scopes (Eval.assignment scope name op e span) Value.Sound := by
  refine keeps_lookup?.bind fun scopes₁ found hle hfound => ?_
  cases found with
  | none => exact .throw _
  | some old =>
    refine (h.expr (hle hscope) e).bind fun scopes₂ new hle' hnew => ?_
    have hvalue : (Value.assigned op old new).Sound scopes₂ := Value.Holds.assigned op old hnew
    refine (keeps_assign hvalue).bind fun scopes₃ there hle'' _ => ?_
    cases there with
    | true => exact .pure (hvalue.mono hle'')
    | false => exact .throw _

theorem Respects.exprBody (h : Respects reply) (limit : Nat) (hscope : scope ∈ scopes) (e : Expr) :
    Keeps reply scope.frame names scopes (Eval.exprBody limit scope e) Value.Sound := by
  cases e with
  | number value _ => exact .pure (.number value)
  | string value _ => exact .pure (.string value)
  | constant value _ => exact .pure (Value.holds_ofConstant value)
  | var name span =>
    refine keeps_lookup?.bind fun scopes₁ found hle hfound => ?_
    cases found with
    | none => exact .throw _
    | some value => exact .pure (hfound value rfl)
  | array elements _ =>
    refine (h.values hscope (List.forall_mem_nil _) elements).bind ?_
    intro scopes₁ values hle hvalues
    refine keeps_freshIdentity.bind fun scopes₂ identity hle' _ => ?_
    exact .pure (.array identity fun v hv => (hvalues v hv).mono hle')
  | object entries _ =>
    refine (h.properties hscope (List.forall_mem_nil _) entries).bind ?_
    intro scopes₁ properties hle hproperties
    refine keeps_freshIdentity.bind fun scopes₂ identity hle' _ => ?_
    exact .pure (.object identity fun p hp => (hproperties p hp).mono hle')
  | function name function =>
    refine keeps_freshIdentity.bind fun scopes₁ identity hle _ => ?_
    exact .pure (.function identity name (hle hscope))
  | assign name op value span => exact h.assignment hscope name op value span
  | member object name span =>
    refine (h.expr hscope object).bind fun scopes₁ target hle htarget => ?_
    exact keeps_member htarget span
  | index object key span =>
    refine (h.expr hscope object).bind fun scopes₁ target hle htarget => ?_
    refine (h.expr (hle hscope) key).bind fun scopes₂ key hle' _ => ?_
    exact keeps_member (htarget.mono hle') span
  | call callee arguments span =>
    refine (h.expr hscope callee).bind fun scopes₁ callee hle hcallee => ?_
    refine (h.values (hle hscope) (List.forall_mem_nil _) arguments).bind ?_
    intro scopes₂ arguments hle' harguments
    exact h.call limit (hcallee.mono hle') harguments span
  | logical op left right _ =>
    refine (h.expr hscope left).bind fun scopes₁ left hle _ => ?_
    refine (h.expr (hle hscope) right).bind fun scopes₂ right _ _ => ?_
    exact .pure (Value.holds_logical op left right)
  | binary op left right _ =>
    refine (h.expr hscope left).bind fun scopes₁ left hle _ => ?_
    refine (h.expr (hle hscope) right).bind fun scopes₂ right _ _ => ?_
    exact .pure (Value.holds_binary op left right)
  | unary op operand _ =>
    refine (h.expr hscope operand).bind fun scopes₁ operand _ _ => ?_
    exact .pure (Value.holds_unary op operand)

/-! ## Statements -/

/-- What a block declares goes to a scope of its own. -/
theorem Respects.block (h : Respects reply) (hscope : scope ∈ scopes) (b : Block) {frame : Nat} :
    Keeps reply frame names scopes (Eval.block scope b) Value.Sound := by
  refine .inside (b.body.flatMap Stmt.declares) hscope nofun fun scopes₁ inner _ hinner => ?_
  exact h.statements hinner b.body

theorem Respects.conditional (h : Respects reply) (hscope : scope ∈ scopes) (c : Conditional) :
    Keeps reply scope.frame names scopes (Eval.conditional scope c) Value.Sound := by
  refine (h.expr hscope c.condition).bind fun scopes₁ condition hle _ => ?_
  split
  · exact h.block (hle hscope) c.consequent
  · split
    · exact .pure .undefined
    · next b _ => exact h.block (hle hscope) b
    · next nested _ => exact h.stmt (hle hscope) (List.nil_subset _)

theorem Respects.loop (h : Respects reply) (hscope : scope ∈ scopes) (hlast : last.Sound scopes)
    (condition : Expr) (body : Block) :
    Keeps reply scope.frame names scopes (Eval.loop condition body scope last) Value.Sound := by
  refine (h.expr hscope condition).bind fun scopes₁ value hle _ => ?_
  split
  · refine (h.block (hle hscope) body).bind fun scopes₂ value hle' hvalue => ?_
    have hnext := h (.loop condition body scope value) scopes₂ ⟨hle' (hle hscope), hvalue⟩
    exact hnext.weaken (List.nil_subset _)
  · exact .pure (hlast.mono hle)

theorem Respects.stmtBody (h : Respects reply) (hscope : scope ∈ scopes) (s : Stmt) :
    Keeps reply scope.frame s.declares scopes (Eval.stmtBody scope s) Value.Sound := by
  cases s with
  | expr e => exact h.expr hscope e
  | declaration _ ds _ => exact h.declarators hscope .undefined (List.Subset.refl _)
  | function name function =>
    refine keeps_freshIdentity.bind fun scopes₁ identity hle _ => ?_
    have hvalue : (Value.function identity (some name) function scope).Sound scopes₁ :=
      .function identity _ (hle hscope)
    refine (keeps_declare hvalue List.mem_cons_self).bind fun scopes₂ free hle' _ => ?_
    cases free with
    | true => exact .pure (hvalue.mono hle')
    | false => exact .throw _
  | conditional c => exact h.conditional hscope c
  | loop condition body _ => exact h.loop hscope .undefined condition body
  | block b => exact h.block hscope b

/-- **One task.**  Its own work keeps the scopes, given that the tasks it asks for do. -/
theorem Respects.body (h : Respects reply) (limit : Nat) {task : Task} (htask : task.Sound scopes) :
    Keeps reply task.scope.frame task.declares scopes (Eval.body limit task) Value.Sound := by
  cases task with
  | program body scope => exact h.statements htask body
  | invocation body scope => exact h.statements htask body
  | expr e scope => exact h.exprBody limit htask e
  | stmt s scope => exact h.stmtBody htask s
  | loop condition body scope last => exact h.loop htask.1 htask.2 condition body

end Pieces

end Eval

namespace Task

/-- However the task ended, it was confined to the names that it declares in its scope. -/
def Confines (task : Task) (state : State) (outcome : Except RuntimeError Value) (state' : State) :
    Prop :=
  ∀ scopes, task.Sound scopes → state.store.Hosts scopes →
    ∃ scopes',
      Store.Confined task.scope.frame task.declares scopes state.store scopes' state'.store ∧
      ∀ v, outcome = .ok v → v.Sound scopes'

variable {limit steps : Nat} {task : Task} {state state' : State}
  {outcome : Except RuntimeError Value} {scopes : List Scope}

/-- **A whole evaluation**, with all the calls, loops and failures in it. -/
theorem confines_of_run (h : task.run limit steps state = some (outcome, state')) :
    task.Confines state outcome state' := by
  refine Action.ensures_of_perform Confines ?_ h
  -- `Respects` is the same condition on the replies, with the scopes in front of the state.
  intro reply hreply task state outcome state' heq scopes htask hhosts
  have hrespects : Eval.Respects reply := fun task scopes htask state hhosts outcome state' heq =>
    hreply task state outcome state' heq scopes htask hhosts
  exact hrespects.body limit htask state hhosts outcome state' heq

/-- **Evaluation declares in one scope only.**  Afterwards there is a heap again.  Each old scope is
in it with the parent it had and with all of its names; scopes other than that of the task have no
others; and the scope of the task has gained nothing but names that the task declares, so nothing at
all if that is an expression, a block, a conditional or a loop. -/
theorem run_frame (hhosts : state.store.Hosts scopes) (htask : task.Sound scopes)
    (h : task.run limit steps state = some (outcome, state')) :
    ∃ scopes', state'.store.Hosts scopes' ∧ (∀ v, outcome = .ok v → v.Sound scopes') ∧
      (∀ f < scopes.length, scopes'[f]? = scopes[f]?) ∧
      (∀ f < scopes.length, ∀ name,
        state.store.owns f name = true → state'.store.owns f name = true) ∧
      (∀ f < scopes.length, f ≠ task.scope.frame → ∀ name,
        state'.store.owns f name = state.store.owns f name) ∧
      ∀ name, state'.store.owns task.scope.frame name = true →
        state.store.owns task.scope.frame name = true ∨ name ∈ task.declares := by
  obtain ⟨scopes', hconfined, hvalue⟩ := confines_of_run h scopes htask hhosts
  refine ⟨scopes', hconfined.hosts, hvalue, ?_, hconfined.kept, ?_, ?_⟩
  · intro f hf
    obtain ⟨more, rfl⟩ := hconfined.grown
    exact List.getElem?_append_left hf
  · intro f hf hframe name
    refine Bool.eq_iff_iff.mpr ⟨fun howns => ?_, hconfined.kept f hf name⟩
    exact (hconfined.gained f hf name howns).resolve_right fun hnew => hframe hnew.1
  · intro name howns
    have hf := hhosts.frame_lt htask.scope_mem
    exact (hconfined.gained _ hf name howns).imp_right And.right

/-- A variable of a block does not leak into the scope around it. -/
theorem run_frame_block :
    let span : Span := ⟨.start, .start⟩
    let block : Block := ⟨[.declaration .letKind [⟨"x", .constant .null span, span⟩] span], span⟩
    let session := Session.bare 1 ⟨.empty, none, false⟩
    ∃ outcome state',
      (Task.stmt (.block block) session.scope).run 1 20 session.state = some (outcome, state') ∧
      ∀ name, state'.store.owns session.scope.frame name = false := by
  intro span block session
  obtain ⟨outcome, state', hrun⟩ : ∃ outcome state',
      (Task.stmt (.block block) session.scope).run 1 20 session.state = some (outcome, state') :=
    ⟨_, _, rfl⟩
  have hscope : (Task.stmt (.block block) session.scope).Sound [.root 0] := List.mem_cons_self
  obtain ⟨scopes', -, -, -, -, -, hgained⟩ := run_frame (Session.bare_hosts _ _) hscope hrun
  refine ⟨outcome, state', hrun, fun name => Bool.eq_false_iff.mpr fun howns => ?_⟩
  rcases hgained name howns with hbefore | hdeclared
  · cases hbefore
  · cases hdeclared

end Task

/-- **A session stays a heap**, whatever is run in it and however that ends. -/
theorem Session.Sound.run {session session' : Session} (h : session.Sound) {steps : Nat}
    {file source : String} {outcome : Except Diagnostic Value}
    (hrun : session.run steps file source = some (outcome, session')) : session'.Sound := by
  unfold Session.run at hrun
  split at hrun
  · next program _ =>
    obtain ⟨⟨result, state'⟩, htask, hsession⟩ := Option.map_eq_some_iff.mp hrun
    cases hsession
    obtain ⟨scopes, hhosts, hscope⟩ := h
    obtain ⟨scopes', hconfined, -⟩ := Task.confines_of_run htask scopes hscope hhosts
    exact ⟨scopes', hconfined.hosts, hconfined.grown.subset hscope⟩
  · cases hrun
    exact h

end Script
