import Script.Proofs.Lockstep.Match
import Script.Proofs.Routine.Configuration
import Script.Proofs.Scopes.Frame

/-!
# Evaluations in lockstep

Much of what can be said about evaluation compares two runs: from heaps that differ in how their
frames are numbered, with different limits on calls, or of a run with itself, where the comparison
is an invariant.  A `Likeness` is such a comparison.  It says when states, scopes and values of the
two sides are alike, in a `World` that grows while frames and identities are given out, and which
functions, names, native functions and failures are.  It is `Lawful` when the operations on states
keep it.

`Likeness.Lockstep` compares the two routines themselves.  They ask for tasks that are alike, in
states that are alike, and go on alike from replies that are.  Both sides have the same number of
active calls: `depth` is the number that the routine begins and ends with, and only the body of a
function is asked for with one more.  What each rule of the evaluation does in lockstep is proved
once, for every lawful likeness; what holds of whole runs is read off lockstep afterwards.

A likeness may give a failure up for `lost`.  Nothing is compared from there on, but the failure has
to reach the end of the left run as it is.
-/

namespace Script

/-- A task counts as a call if it is the body of a function. -/
def Task.calls : Task → Nat
  | .invocation _ _ => 1
  | .program _ _ | .expr _ _ | .stmt _ _ | .loop _ _ _ _ => 0

/-- What two evaluations have in common. -/
structure Likeness where
  /-- What the two sides have agreed upon so far. -/
  World : Type
  /-- There is more to agree upon as time goes by. -/
  le : World → World → Prop
  state : World → State → State → Prop
  identity : World → Nat → Nat → Prop
  scope : World → Scope → Scope → Prop
  /-- The scopes that variables may be declared in. -/
  place : World → Scope → Scope → Prop := scope
  function : Function → Function → Prop
  /-- The native functions that may occur. -/
  native : Native → Prop
  /-- The names that may be looked up and assigned. -/
  name : String → Prop
  /-- The names that may be declared. -/
  binder : String → Prop := name
  error : RuntimeError → RuntimeError → Prop
  /-- Failures on the left with which the comparison is given up. -/
  lost : RuntimeError → Prop
  /-- How deeply calls may nest on the left. -/
  limit : Nat
  /-- How deeply calls may nest on the right. -/
  limit' : Nat

namespace Likeness

variable (L : Likeness)

/-- Which references are alike. -/
def matching (w : L.World) : Matching where
  identity := L.identity w
  closure f s g t := L.function f g ∧ L.scope w s t
  native := L.native

def value (w : L.World) : Value → Value → Prop := Value.Match (L.matching w)

/-- Variables or properties that are alike, one by one. -/
def entries (w : L.World) : List (String × Value) → List (String × Value) → Prop :=
  List.Forall₂ (Value.MatchAt (L.matching w))

/-- The operations on states keep the likeness. -/
structure Lawful : Prop where
  refl (w : L.World) : L.le w w
  trans {w w₁ w₂ : L.World} : L.le w w₁ → L.le w₁ w₂ → L.le w w₂
  identity_mono {w w₁ : L.World} {i i' : Nat} : L.le w w₁ → L.identity w i i' → L.identity w₁ i i'
  scope_mono {w w₁ : L.World} {s s' : Scope} : L.le w w₁ → L.scope w s s' → L.scope w₁ s s'
  place_mono {w w₁ : L.World} {s s' : Scope} : L.le w w₁ → L.place w s s' → L.place w₁ s s'
  scope_of_place {w : L.World} {s s' : Scope} : L.place w s s' → L.scope w s s'
  oneToOne (w : L.World) : (L.matching w).OneToOne
  parameters {f f' : Function} : L.function f f' →
    f.parameters = f'.parameters ∧ ∀ x ∈ f.parameters, L.binder x
  /-- Native functions that use variables take their names from values, so any name may do. -/
  named {n : Native} : L.native n → n ∈ [Native.peek, .poke] → ∀ x, L.name x
  /-- A native function that declares variables does so wherever it is called. -/
  defined : L.native .define → (∀ x, L.binder x) ∧
    ∀ (w : L.World) (s s' : Scope), L.scope w s s' → L.place w s s'
  limit_le : L.limit ≤ L.limit'
  overflow (span : Span) : L.limit < L.limit' → L.lost (.stackOverflow L.limit span)
  depth {w : L.World} {s s' : State} (n : Nat) : L.state w s s' →
    L.state w { s with depth := n } { s' with depth := n }
  fresh {w : L.World} {s s' : State} : L.state w s s' →
    ∃ w₁, L.le w w₁ ∧ L.state w₁ s.freshIdentity.2 s'.freshIdentity.2 ∧
      L.identity w₁ s.freshIdentity.1 s'.freshIdentity.1
  lookup {w : L.World} {s s' : State} {scope scope' : Scope} {x : String} : L.state w s s' →
    L.scope w scope scope' → L.name x →
    Option.Rel (L.value w) (s.store.lookup x scope) (s'.store.lookup x scope')
  declare {w : L.World} {s s' : State} {scope scope' : Scope} {x : String} {v v' : Value} :
    L.state w s s' → L.place w scope scope' → L.binder x → L.value w v v' →
    (s.store.declare scope x v).1 = (s'.store.declare scope' x v').1 ∧
      L.state w { s with store := (s.store.declare scope x v).2 }
        { s' with store := (s'.store.declare scope' x v').2 }
  set {w : L.World} {s s' : State} {scope scope' : Scope} {x : String} {v v' : Value} :
    L.state w s s' → L.scope w scope scope' → L.name x → L.value w v v' →
    (s.store.set scope x v).1 = (s'.store.set scope' x v').1 ∧
      L.state w { s with store := (s.store.set scope x v).2 }
        { s' with store := (s'.store.set scope' x v').2 }
  newInner {w : L.World} {s s' : State} {scope scope' : Scope} {b b' : Bindings} :
    L.state w s s' → L.scope w scope scope' → (∀ x ∈ b, L.binder x.1) → L.entries w b b' →
    ∃ w₁, L.le w w₁ ∧ L.state w₁ { s with store := (s.store.newInner scope b).2 }
        { s' with store := (s'.store.newInner scope' b').2 } ∧
      L.place w₁ (s.store.newInner scope b).1 (s'.store.newInner scope' b').1
  write {w : L.World} {s s' : State} (text : String) : L.state w s s' →
    (s.output.write text).1 = (s'.output.write text).1 ∧
      L.state w { s with output := (s.output.write text).2 }
        { s' with output := (s'.output.write text).2 }

variable {L}

theorem Lawful.value_mono (hL : L.Lawful) {w w₁ : L.World} {v v' : Value} (hle : L.le w w₁)
    (h : L.value w v v') : L.value w₁ v v' :=
  Value.Match.mono h (fun _ _ => hL.identity_mono hle)
    (fun _ _ _ _ hclosure => ⟨hclosure.1, hL.scope_mono hle hclosure.2⟩) fun _ hn => hn

theorem Lawful.values_mono (hL : L.Lawful) {w w₁ : L.World} {vs vs' : List Value}
    (hle : L.le w w₁) (h : List.Forall₂ (L.value w) vs vs') :
    List.Forall₂ (L.value w₁) vs vs' :=
  List.Forall₂.imp (fun _ _ => hL.value_mono hle) h

theorem Lawful.entries_mono (hL : L.Lawful) {w w₁ : L.World} {ps ps' : List (String × Value)}
    (hle : L.le w w₁) (h : L.entries w ps ps') : L.entries w₁ ps ps' :=
  List.Forall₂.imp (fun _ _ hp => ⟨hp.1, hL.value_mono hle hp.2⟩) h

/-! ## Pieces of syntax -/

end Likeness

/-- Which pieces of syntax may be asked for, the one on the left and the other on the right. -/
structure Trees where
  expr : Expr → Expr → Prop
  stmt : Stmt → Stmt → Prop
  /-- The condition and the body of a loop. -/
  loop : Expr → Block → Expr → Block → Prop

section Like

variable (L : Likeness) (T : Trees)

/-- The failures of a call at either place are alike. -/
structure Likeness.Site (span span' : Span) : Prop where
  callable (typeName : String) : L.error (.notCallable typeName span) (.notCallable typeName span')
  native (message : String) : L.error (.nativeFailure message span) (.nativeFailure message span')
  overflow : L.limit = L.limit' →
    L.error (.stackOverflow L.limit span) (.stackOverflow L.limit' span')

inductive Property.Like : Property → Property → Prop
  | keyed {key : String} {e e' : Expr} {span span' : Span} (value : T.expr e e') :
      Like (.keyed key e span) (.keyed key e' span')
  | shorthand {x : String} {span span' : Span} (name : L.name x)
      (unknown : L.error (.unknownVariable x span) (.unknownVariable x span')) :
      Like (.shorthand x span) (.shorthand x span')

structure Declarator.Like (d d' : Declarator) : Prop where
  name_eq : d.name = d'.name
  binder : L.binder d.name
  value : T.expr d.value d'.value
  taken : L.error (.redeclaration d.name d.span) (.redeclaration d'.name d'.span)

/-- Both are the same kind of expression, and their parts may be asked for. -/
inductive Expr.Like : Expr → Expr → Prop
  | number (n : Number) {span span' : Span} : Like (.number n span) (.number n span')
  | string (s : String) {span span' : Span} : Like (.string s span) (.string s span')
  | constant (c : Constant) {span span' : Span} : Like (.constant c span) (.constant c span')
  | var {x : String} {span span' : Span} (name : L.name x)
      (unknown : L.error (.unknownVariable x span) (.unknownVariable x span')) :
      Like (.var x span) (.var x span')
  | array {es es' : List Expr} {span span' : Span} (elements : List.Forall₂ T.expr es es') :
      Like (.array es span) (.array es' span')
  | object {ps ps' : List Property} {span span' : Span}
      (properties : List.Forall₂ (Property.Like L T) ps ps') :
      Like (.object ps span) (.object ps' span')
  | function (name : Option String) {f f' : Function} (here : L.function f f') :
      Like (.function name f) (.function name f')
  | assign {x : String} (op : AssignOp) {e e' : Expr} {span span' : Span} (name : L.name x)
      (unknown : L.error (.assignmentToUndeclared x span) (.assignmentToUndeclared x span'))
      (value : T.expr e e') : Like (.assign x op e span) (.assign x op e' span')
  | member (x : String) {e e' : Expr} {span span' : Span} (target : T.expr e e')
      (indexable : ∀ t, L.error (.notIndexable t span) (.notIndexable t span')) :
      Like (.member e x span) (.member e' x span')
  | index {e e' k k' : Expr} {span span' : Span} (target : T.expr e e') (key : T.expr k k')
      (indexable : ∀ t, L.error (.notIndexable t span) (.notIndexable t span')) :
      Like (.index e k span) (.index e' k' span')
  | call {e e' : Expr} {es es' : List Expr} {span span' : Span} (callee : T.expr e e')
      (arguments : List.Forall₂ T.expr es es') (site : L.Site span span') :
      Like (.call e es span) (.call e' es' span')
  | logical (op : LogicalOp) {a a' b b' : Expr} {span span' : Span} (left : T.expr a a')
      (right : T.expr b b') : Like (.logical op a b span) (.logical op a' b' span')
  | binary (op : BinaryOp) {a a' b b' : Expr} {span span' : Span} (left : T.expr a a')
      (right : T.expr b b') : Like (.binary op a b span) (.binary op a' b' span')
  | unary (op : UnaryOp) {e e' : Expr} {span span' : Span} (operand : T.expr e e') :
      Like (.unary op e span) (.unary op e' span')

def Block.Like (b b' : Block) : Prop := List.Forall₂ T.stmt b.body b'.body

inductive Alternate.Like : Alternate → Alternate → Prop
  | absent : Like .absent .absent
  | block {b b' : Block} (here : Block.Like T b b') : Like (.block b) (.block b')
  | conditional {c c' : Conditional} (here : T.stmt (.conditional c) (.conditional c')) :
      Like (.conditional c) (.conditional c')

structure Conditional.Like (c c' : Conditional) : Prop where
  condition : T.expr c.condition c'.condition
  consequent : Block.Like T c.consequent c'.consequent
  alternate : Alternate.Like T c.alternate c'.alternate

/-- Both are the same kind of statement, and their parts may be asked for. -/
inductive Stmt.Like : Stmt → Stmt → Prop
  | expr {e e' : Expr} (here : T.expr e e') : Like (.expr e) (.expr e')
  | declaration {kind kind' : DeclarationKind} {ds ds' : List Declarator} {span span' : Span}
      (declarators : List.Forall₂ (Declarator.Like L T) ds ds') :
      Like (.declaration kind ds span) (.declaration kind' ds' span')
  | function {x : String} {f f' : Function} (binder : L.binder x) (here : L.function f f')
      (taken : L.error (.redeclaration x f.span) (.redeclaration x f'.span)) :
      Like (.function x f) (.function x f')
  | conditional {c c' : Conditional} (here : Conditional.Like T c c') :
      Like (.conditional c) (.conditional c')
  | loop {e e' : Expr} {b b' : Block} {span span' : Span} (condition : T.expr e e')
      (body : Block.Like T b b') (again : T.loop e b e' b') :
      Like (.loop e b span) (.loop e' b' span')
  | block {b b' : Block} (here : Block.Like T b b') : Like (.block b) (.block b')

/-- The tasks that may be asked for.  Nothing asks for a whole program.  A statement that declares
variables has to be where it may. -/
inductive Likeness.Tasks (w : L.World) : Task → Task → Prop
  | invocation {f f' : Function} {s s' : Scope} (function : L.function f f')
      (place : L.place w s s') : Tasks w (.invocation f.body s) (.invocation f'.body s')
  | expr {e e' : Expr} {s s' : Scope} (here : T.expr e e') (scope : L.scope w s s') :
      Tasks w (.expr e s) (.expr e' s')
  | stmt {t t' : Stmt} {s s' : Scope} (here : T.stmt t t') (scope : L.scope w s s')
      (place : t.declares ≠ [] → L.place w s s') : Tasks w (.stmt t s) (.stmt t' s')
  | loop {e e' : Expr} {b b' : Block} {s s' : Scope} {v v' : Value} (again : T.loop e b e' b')
      (scope : L.scope w s s') (last : L.value w v v') :
      Tasks w (.loop e b s v) (.loop e' b' s' v')

/-- Both are the same kind of task, and what they are made of may be asked for.  A statement that
declares nothing may be in any scope. -/
inductive Likeness.Layer (w : L.World) : Task → Task → Prop
  | program {b b' : List Stmt} {s s' : Scope} (body : List.Forall₂ T.stmt b b')
      (place : L.place w s s') : Layer w (.program b s) (.program b' s')
  | invocation {b b' : List Stmt} {s s' : Scope} (body : List.Forall₂ T.stmt b b')
      (place : L.place w s s') : Layer w (.invocation b s) (.invocation b' s')
  | expr {e e' : Expr} {s s' : Scope} (here : Expr.Like L T e e') (scope : L.scope w s s') :
      Layer w (.expr e s) (.expr e' s')
  | stmt {t t' : Stmt} {s s' : Scope} (here : Stmt.Like L T t t') (place : L.place w s s') :
      Layer w (.stmt t s) (.stmt t' s')
  | plain {t t' : Stmt} {s s' : Scope} (here : Stmt.Like L T t t') (scope : L.scope w s s')
      (declares : t.declares = []) : Layer w (.stmt t s) (.stmt t' s')
  | loop {e e' : Expr} {b b' : Block} {s s' : Scope} {v v' : Value} (condition : T.expr e e')
      (body : Block.Like T b b') (again : T.loop e b e' b') (scope : L.scope w s s')
      (last : L.value w v v') : Layer w (.loop e b s v) (.loop e' b' s' v')

/-- What may be asked for is made of what may be asked for. -/
def Likeness.Closed : Prop := ∀ w t t', L.Tasks T w t t' → L.Layer T w t t'

end Like

namespace Likeness

variable {L : Likeness} {T : Trees}

theorem Tasks.calls_eq {w : L.World} {t t' : Task} (h : L.Tasks T w t t') : t.calls = t'.calls := by
  cases h <;> rfl

theorem Layer.of_stmt {w : L.World} {t t' : Stmt} {s s' : Scope} (here : Stmt.Like L T t t')
    (scope : L.scope w s s') (place : t.declares ≠ [] → L.place w s s') :
    L.Layer T w (.stmt t s) (.stmt t' s') := by
  by_cases h : t.declares = []
  · exact .plain here scope h
  · exact .stmt here (place h)

/-! ## Routines -/

section Lockstep

variable (L) (T)

/-- The states are alike, and on both sides there are `depth` active calls. -/
structure At (w : L.World) (depth : Nat) (s s' : State) : Prop where
  state : L.state w s s'
  left : s.depth = depth
  right : s'.depth = depth

/-- Both outcomes are results that are `good`, or failures that are alike. -/
inductive Outcome {α β : Type} (good : α → β → Prop) :
    Except RuntimeError α → Except RuntimeError β → Prop
  | ok {a : α} {b : β} (h : good a b) : Outcome good (.ok a) (.ok b)
  | error {e e' : RuntimeError} (h : L.error e e') : Outcome good (.error e) (.error e')

/-- The outcome is a failure that the comparison is given up with. -/
def Lost {α : Type} (outcome : Except RuntimeError α) : Prop :=
  ∃ e, outcome = .error e ∧ L.lost e

/-- The work of a task of the evaluation. -/
abbrev Work (α : Type) : Type 1 := Routine Task (fun _ => Except RuntimeError Value) State α

/-- What waits for a call goes on with one active call less. -/
def Leaving {α : Type} (next : Except RuntimeError Value → State → Work α) : Prop :=
  ∃ onward : Except RuntimeError Value → State → Work α,
    ∀ out s, next out s = onward out { s with depth := s.depth - 1 }

/-- Two routines go on alike until they are done, with results that are `good`, or until the left
one is done with something `lost`. -/
inductive Lockstep (depth : Nat) : {α β : Type} → L.World → (lost : α → Prop) →
    (good : L.World → α → β → Prop) → Work α → Work β → Prop
  | done {α β : Type} {w w₁ : L.World} {lost : α → Prop} {good : L.World → α → β → Prop} {a : α}
      {b : β} {s s' : State} (le : L.le w w₁) (here : L.At w₁ depth s s') (result : good w₁ a b) :
      Lockstep depth w lost good (.done a s) (.done b s')
  | lost {α β : Type} {w : L.World} {lost : α → Prop} {good : L.World → α → β → Prop} {a : α}
      {s : State} {c' : Work β} (h : lost a) : Lockstep depth w lost good (.done a s) c'
  | call {w w₁ : L.World} {lost : Except RuntimeError Value → Prop}
      {good : L.World → Except RuntimeError Value → Except RuntimeError Value → Prop} {t t' : Task}
      {s s' : State} (le : L.le w w₁) (here : L.At w₁ depth s s') (task : L.Tasks T w₁ t t')
      (calls : t.calls = 0) (loses : ∀ out, L.Lost out → lost out)
      (result : ∀ w₂ out out', L.le w₁ w₂ → L.Outcome (L.value w₂) out out' → good w₂ out out') :
      Lockstep depth w lost good (.call t s) (.call t' s')
  | ask {α β : Type} {w w₁ : L.World} {lost : α → Prop} {good : L.World → α → β → Prop}
      {t t' : Task} {s s' : State} {next : Except RuntimeError Value → State → Work α}
      {next' : Except RuntimeError Value → State → Work β} (le : L.le w w₁)
      (here : L.At w₁ (depth + t.calls) s s') (task : L.Tasks T w₁ t t')
      (fits : t.calls = 0 ∨ depth < L.limit ∧ Leaving next)
      (loses : ∀ out s, L.Lost out → ∃ a s₁, next out s = .done a s₁ ∧ lost a)
      (goes : ∀ w₂ out out' s s', L.le w₁ w₂ → L.At w₂ (depth + t.calls) s s' →
        L.Outcome (L.value w₂) out out' →
        Lockstep depth w₂ lost good (next out s) (next' out' s')) :
      Lockstep depth w lost good (.ask t s next) (.ask t' s' next')

end Lockstep

variable {α β : Type} {depth : Nat} {w w₁ : L.World}

theorem Lockstep.of_le (hL : L.Lawful) {lost : α → Prop} {good : L.World → α → β → Prop}
    {c : Work α} {c' : Work β} (hle : L.le w w₁) (h : L.Lockstep T depth w₁ lost good c c') :
    L.Lockstep T depth w lost good c c' := by
  cases h with
  | done le here result => exact .done (hL.trans hle le) here result
  | lost h => exact .lost h
  | call le here task calls loses result =>
    exact .call (hL.trans hle le) here task calls loses result
  | ask le here task fits loses goes => exact .ask (hL.trans hle le) here task fits loses goes

/-- One routine after another. -/
theorem Lockstep.bind (hL : L.Lawful) {γ δ : Type} {lost : α → Prop} {lost' : γ → Prop}
    {mid : L.World → α → β → Prop} {good : L.World → γ → δ → Prop} {c : Work α} {c' : Work β}
    {next : α → State → Work γ} {next' : β → State → Work δ}
    (h : L.Lockstep T depth w lost mid c c')
    (hlost : ∀ a s, lost a → ∃ b s₁, next a s = .done b s₁ ∧ lost' b)
    (hnext : ∀ w₁ a b s s', L.le w w₁ → L.At w₁ depth s s' → mid w₁ a b →
      L.Lockstep T depth w₁ lost' good (next a s) (next' b s')) :
    L.Lockstep T depth w lost' good (c.bind next) (c'.bind next') := by
  induction h with
  | done le here result => exact (hnext _ _ _ _ _ le here result).of_le hL le
  | @lost _ _ _ _ _ a s _ h =>
    obtain ⟨b, s₁, hdone, hb⟩ := hlost a s h
    show L.Lockstep T depth _ lost' good (next a s) _
    rw [hdone]
    exact .lost hb
  | call le here task calls loses result =>
    -- Nothing waited for this task, and now the second routine does.
    refine .ask le (by rwa [calls]) task (.inl calls) (fun out s hout => ?_) ?_
    · exact hlost out s (loses out hout)
    · intro w₂ out out' s s' hle hat hout
      rw [calls] at hat
      exact hnext w₂ out out' s s' (hL.trans le hle) hat (result w₂ out out' hle hout)
  | ask le here task fits loses goes ih =>
    refine .ask le here task ?_ (fun out s hout => ?_) ?_
    · refine fits.imp_right fun ⟨hdepth, onward, honward⟩ => ⟨hdepth, ?_⟩
      refine ⟨fun out s => (onward out s).bind next, fun out s => ?_⟩
      exact congrArg (·.bind next) (honward out s)
    · obtain ⟨a, s₁, hdone, ha⟩ := loses out s hout
      obtain ⟨b, s₂, hdone', hb⟩ := hlost a s₁ ha
      refine ⟨b, s₂, ?_, hb⟩
      rw [hdone]
      exact hdone'
    · intro w₂ out out' s s' hle hat hout
      refine ih w₂ out out' s s' hle hat hout hlost ?_
      intro w₃ a b s s' hle' hat hmid
      exact hnext w₃ a b s s' (hL.trans le (hL.trans hle hle')) hat hmid

end Likeness

end Script
