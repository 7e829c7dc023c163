import Script.Proofs.Identity.Catalogue
import Script.Proofs.Routine.Trace

/-!
# Every evaluation builds a value of its own

The evaluation of an array literal, an object literal, a function expression or a function
declaration takes the next identity in its very last step (`Eval.returns_body`).  Two of them that
begin at different moments of a run do not end with the same step: if the one ends while the other
is under way, it has begun higher up on the stack.  So they take different identities
(`Moment.Makes.identity_ne`).
-/

namespace Script

/-- The task is to evaluate an array literal, an object literal, a function expression or a function
declaration. -/
def Task.creates : Task → Bool
  | .expr (.array _ _) _ | .expr (.object _ _) _ | .expr (.function _ _) _ => true
  | .stmt (.function _ _) _ => true
  | .expr _ _ | .stmt _ _ | .program _ _ | .invocation _ _ | .loop _ _ _ _ => false

/-- Such a task begins at the moment, and the value is what it comes to. -/
def Moment.Makes (limit : Nat) (m : Moment) (v : Value) : Prop :=
  ∃ task ∈ m.routine.asked, task.creates = true ∧
    ∃ steps state, task.run limit steps m.state = some (.ok v, state)

namespace Eval

/-- A value that comes of the work has the identity that was the next one, and now another one is
next. -/
def Built (s₀ : State) (outcome : Task.Result) (s : State) : Prop :=
  Gives (fun v => v.identity? = some s₀.nextIdentity ∧ s.nextIdentity = s₀.nextIdentity + 1) outcome

variable {scope : Scope}

/-- The elements of an array are waited for. -/
theorem returns_values {next : List Value → Eval Value}
    (hnext : ∀ vs s, Routine.Returns Built s (next vs s)) (es : List Expr) (done : List Value)
    (s : State) : Routine.Returns Built s ((values scope done es >>= next) s) := by
  induction es generalizing done s with
  | nil => exact hnext _ s
  | cons e rest ih =>
    refine .ask fun out s₁ => ?_
    cases out with
    | ok v => exact ih (v :: done) s₁
    | error e => exact .done nofun

theorem properties_shorthand (scope : Scope) (done : List (String × Value)) (name : String)
    (span : Span) (rest : List Property) (s : State) :
    properties scope done (.shorthand name span :: rest) s =
      (s.store.lookup name scope).elim (.done (.error (.unknownVariable name span)) s)
        fun v => properties scope (insertProperty done name v) rest s := by
  rw [properties]
  show Routine.bind (.done (Except.ok (s.store.lookup name scope)) s) _ = _
  cases s.store.lookup name scope with
  | none => rfl
  | some v => rfl

/-- So are the properties of an object. -/
theorem returns_properties {next : List (String × Value) → Eval Value}
    (hnext : ∀ ps s, Routine.Returns Built s (next ps s)) (entries : List Property)
    (done : List (String × Value)) (s : State) :
    Routine.Returns Built s ((properties scope done entries >>= next) s) := by
  induction entries generalizing done s with
  | nil => exact hnext _ s
  | cons entry rest ih =>
    cases entry with
    | keyed key e span =>
      refine .ask fun out s₁ => ?_
      cases out with
      | ok v => exact ih (insertProperty done key v) s₁
      | error e => exact .done nofun
    | shorthand name span =>
      show Routine.Returns Built s ((properties scope done (.shorthand name span :: rest) s).bind _)
      rw [properties_shorthand]
      cases s.store.lookup name scope with
      | none => exact .done nofun
      | some v => exact ih (insertProperty done name v) s

theorem returns_body (limit : Nat) {task : Task} (h : task.creates = true) (s : State) :
    Routine.Returns Built s (body limit task s) := by
  cases task with
  | expr e scope =>
    cases e with
    | array elements span =>
      refine returns_values (fun vs s => .done ?_) elements [] s
      rintro v ⟨⟩
      exact ⟨rfl, rfl⟩
    | object entries span =>
      refine returns_properties (fun ps s => .done ?_) entries [] s
      rintro v ⟨⟩
      exact ⟨rfl, rfl⟩
    | function name function =>
      refine .done ?_
      rintro v ⟨⟩
      exact ⟨rfl, rfl⟩
    | _ => cases h
  | stmt t scope =>
    cases t with
    | function name function =>
      let value : Value := .function s.nextIdentity (some name) function scope
      let declared := s.store.declare scope name value
      show Routine.Returns Built s
        ((if declared.1 = true then pure value else throw (.redeclaration name function.span) :
          Eval Value) { s with store := declared.2, nextIdentity := s.nextIdentity + 1 })
      split
      · refine .done ?_
        rintro v ⟨⟩
        exact ⟨rfl, rfl⟩
      · exact .done nofun
    | _ => cases h
  | _ => cases h

end Eval

/-! ## Moments -/

namespace Moment

variable {limit : Nat} {m m' : Moment} {v v' : Value} {c : List Value}

/-- The course of an evaluation that makes a value: it begins at a moment, on top of a stack, and
after `k` steps it is about to end with one more. -/
structure Course (limit : Nat) (m : Moment) (v : Value) (p : Stack) (k : Nat) (last : Moment)
    (s : State) : Prop where
  begins : m.routine.asked ≠ []
  stack : ∃ w : Likeness.Work Task.Result, m.next (Eval.body limit) = some ⟨w, p⟩
  /-- What begins meanwhile begins higher up. -/
  above : ∀ l < k, ∀ x y, m.after (Eval.body limit) (l + 1) = some x → x.routine.asked ≠ [] →
    x.next (Eval.body limit) = some y → p.tasks.length < y.pending.tasks.length
  before : m.after (Eval.body limit) k = some last
  ends : m.after (Eval.body limit) (k + 1) = some ⟨.done (.ok v) s, p⟩
  identity : v.identity? = some last.state.nextIdentity
  given : s.nextIdentity = last.state.nextIdentity + 1

theorem Makes.course (h : Makes limit m v) : ∃ p k last s, Course limit m v p k last s := by
  obtain ⟨task, htask, hcreates, steps, s', hrun⟩ := h
  obtain ⟨k, hends⟩ := Routine.ends_of_perform hrun
  have hreturns := Eval.returns_body limit hcreates m.state
  have hasked : m.routine.asked ≠ [] := List.ne_nil_of_mem htask
  obtain ⟨p, hnext⟩ : ∃ p, m.next (Eval.body limit) = some ⟨Eval.body limit task m.state, p⟩ := by
    obtain ⟨routine, pending⟩ := m
    cases routine with
    | done => cases htask
    | call t s =>
      obtain rfl := List.mem_singleton.mp htask
      exact ⟨pending, rfl⟩
    | ask t s next =>
      obtain rfl := List.mem_singleton.mp htask
      exact ⟨.waiting task next pending, rfl⟩
  obtain ⟨last, hbefore, hbuilt⟩ := hends.returns hnext hreturns
  obtain ⟨hidentity, hgiven⟩ := hbuilt v rfl
  refine ⟨p, k, last, s', hasked, ⟨_, hnext⟩, ?_, hbefore, ?_, hidentity, hgiven⟩
  · intro l hl x y hx
    rw [Routine.Configuration.after_of_next hnext] at hx
    exact hends.tasks_lt hreturns hl hx
  · rw [Routine.Configuration.after_of_next hnext]
    exact hends.after p

/-- **Values that are made from different moments of a run have different identities.** -/
theorem Makes.identity_ne (hm : Files c m) {d : Nat}
    (hafter : m.after (Eval.body limit) (d + 1) = some m') (h : Makes limit m v)
    (h' : Makes limit m' v') : v.identity? ≠ v'.identity? := by
  obtain ⟨p, k, last, s, course⟩ := h.course
  obtain ⟨p', k', last', s', course'⟩ := h'.course
  have hbefore' : m.after (Eval.body limit) (d + 1 + k') = some last' := by
    rw [Routine.Configuration.after_of_after hafter, course'.before]
  have hover' : m.after (Eval.body limit) (d + 1 + k' + 1) = some ⟨.done (.ok v') s', p'⟩ := by
    rw [Nat.add_assoc (d + 1), Routine.Configuration.after_of_after hafter, course'.ends]
  have hgiven := course.given
  have hgiven' := course'.given
  intro heq
  have hsame : last.state.nextIdentity = last'.state.nextIdentity := by
    rw [course.identity, course'.identity] at heq
    exact Option.some.inj heq
  -- The one that ends first has given its identity out before the other one takes the next.
  rcases Nat.lt_trichotomy k (d + 1 + k') with hlt | hk | hlt
  · have hle : s.nextIdentity ≤ last'.state.nextIdentity :=
      hm.nextIdentity_le hlt course.ends hbefore'
    omega
  · -- If both end with the same step, they have begun at the same height.
    subst hk
    have hmoment := course.ends.symm.trans hover'
    cases hmoment
    obtain ⟨w', hnext'⟩ := course'.stack
    have habove := course.above d (by omega) m' _ hafter course'.begins hnext'
    exact Nat.lt_irrefl _ habove
  · have hle : s'.nextIdentity ≤ last.state.nextIdentity :=
      hm.nextIdentity_le hlt hover' course.before
    omega

/-- The identity of a value is not given out before the evaluation begins. -/
theorem Makes.le_identity (hm : Files c m) {i n : Nat}
    (hafter : m.after (Eval.body limit) i = some m') (h : Makes limit m' v)
    (hv : v.identity? = some n) : m.state.nextIdentity ≤ n := by
  obtain ⟨p, k, last, s, course⟩ := h.course
  have hbefore : m.after (Eval.body limit) (i + k) = some last := by
    rw [Routine.Configuration.after_of_after hafter, course.before]
  cases course.identity.symm.trans hv
  exact hm.nextIdentity_le (Nat.zero_le _) rfl hbefore

/-- Where the run is over, it has been given out. -/
theorem Makes.identity_lt (hm : Files c m) {i n : Nat} {last : Moment}
    (hafter : m.after (Eval.body limit) i = some m') (h : Makes limit m' v)
    (hlast : m.after (Eval.body limit) n = some last) (hover : last.next (Eval.body limit) = none) :
    ∃ j < last.state.nextIdentity, v.identity? = some j := by
  obtain ⟨p, k, before, s, course⟩ := h.course
  have hend : m.after (Eval.body limit) (i + (k + 1)) = some ⟨.done (.ok v) s, p⟩ := by
    rw [Routine.Configuration.after_of_after hafter, course.ends]
  have hle : s.nextIdentity ≤ last.state.nextIdentity :=
    hm.nextIdentity_le (Routine.Configuration.le_of_over hlast hover hend) hend hlast
  exact ⟨_, Nat.lt_of_lt_of_le (Nat.lt_of_lt_of_eq (Nat.lt_succ_self _) course.given.symm) hle,
    course.identity⟩

end Moment

end Script
