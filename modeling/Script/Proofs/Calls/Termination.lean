import Script.Proofs.Nodes
import Script.Proofs.Scopes.Reach
import Script.Session

/-!
# Programs without loops end

Without loops, an evaluation asks for smaller and smaller pieces of syntax until it calls a
function.  The body of a function is no part of the call, but there is room for one call less while
it runs.  So evaluation ends by induction, first on the room that is left for calls and then on the
size of the syntax.  What makes this go through is that all functions that it can get hold of are
free of loops: they come from the program or from the variables that it can reach.
-/

namespace Script

namespace Node

/-- There is no loop in the tree, the bodies of functions included. -/
def LoopFree (root : Node) : Prop := ∀ m, root.Within m → ∀ e b span, m ≠ .loop e b span

theorem LoopFree.child {m k : Node} (h : m.LoopFree) (hmem : k ∈ m.children) : k.LoopFree :=
  Everywhere.child h hmem

theorem LoopFree.ne_loop {e : Expr} {b : Block} {span : Span} : ¬ (loop e b span).LoopFree :=
  fun h => h _ .self e b span rfl

/-- A tree is free of loops if it is not a loop and its parts are. -/
theorem loopFree_of_children {root : Node} (hroot : ∀ e b span, root ≠ .loop e b span)
    (h : ∀ k ∈ root.children, k.LoopFree) : root.LoopFree :=
  Everywhere.of_children hroot h

/-! ## Sizes -/

theorem sizeOf_ofStmt (t : Stmt) : sizeOf (ofStmt t) = sizeOf t := by
  cases t <;> simp [ofStmt]

theorem sizeOf_lt_of_mem_body {k : Node} {body : List Stmt} (h : k ∈ body.map ofStmt) :
    sizeOf k < sizeOf body := by
  obtain ⟨t, ht, rfl⟩ := List.mem_map.mp h
  rw [sizeOf_ofStmt]
  exact List.sizeOf_lt_of_mem ht

theorem sizeOf_lt_of_mem_function {k : Node} {f : Function} (h : k ∈ f.body.map ofStmt) :
    sizeOf k < sizeOf f := by
  obtain ⟨parameters, body, span⟩ := f
  have hbody : sizeOf k < sizeOf body := sizeOf_lt_of_mem_body h
  simp only [Function.mk.sizeOf_spec]
  omega

theorem sizeOf_lt_of_mem_childrenOfExpr {k : Node} {e : Expr} (h : k ∈ childrenOfExpr e) :
    sizeOf k < sizeOf (expr e) := by
  rw [expr.sizeOf_spec]
  cases e with
  | number | string | constant | var => cases h
  | array elements span =>
    obtain ⟨e, he, rfl⟩ := List.mem_map.mp h
    have := List.sizeOf_lt_of_mem he
    simp only [expr.sizeOf_spec, Expr.array.sizeOf_spec]
    omega
  | object properties span =>
    obtain ⟨p, hp, rfl⟩ := List.mem_map.mp h
    have := List.sizeOf_lt_of_mem hp
    simp only [property.sizeOf_spec, Expr.object.sizeOf_spec]
    omega
  | function name f =>
    have := sizeOf_lt_of_mem_function h
    simp only [Expr.function.sizeOf_spec]
    omega
  | call callee arguments span =>
    rcases List.mem_cons.mp h with rfl | h
    · simp only [expr.sizeOf_spec, Expr.call.sizeOf_spec]
      omega
    · obtain ⟨e, he, rfl⟩ := List.mem_map.mp h
      have := List.sizeOf_lt_of_mem he
      simp only [expr.sizeOf_spec, Expr.call.sizeOf_spec]
      omega
  | assign | member | unary =>
    cases List.mem_singleton.mp h
    simp only [expr.sizeOf_spec, Expr.assign.sizeOf_spec, Expr.member.sizeOf_spec,
      Expr.unary.sizeOf_spec]
    omega
  | index | logical | binary =>
    simp only [Expr.index.sizeOf_spec, Expr.logical.sizeOf_spec, Expr.binary.sizeOf_spec]
    rcases List.mem_cons.mp h with rfl | h
    · rw [expr.sizeOf_spec]
      omega
    · cases List.mem_singleton.mp h
      rw [expr.sizeOf_spec]
      omega

theorem sizeOf_lt_of_mem_conditional {k : Node} {c : Conditional}
    (h : k ∈ (conditional c).children) : sizeOf k < sizeOf (conditional c) := by
  obtain ⟨condition, consequent, alternate, span⟩ := c
  have h : k ∈ expr condition :: block consequent :: ofAlternate alternate := h
  rw [conditional.sizeOf_spec, Conditional.mk.sizeOf_spec]
  rcases List.mem_cons.mp h with rfl | h
  · rw [expr.sizeOf_spec]
    omega
  rcases List.mem_cons.mp h with rfl | h
  · rw [block.sizeOf_spec]
    omega
  · cases alternate with
    | absent => cases h
    | block b =>
      cases List.mem_singleton.mp h
      rw [block.sizeOf_spec, Alternate.block.sizeOf_spec]
      omega
    | conditional c =>
      cases List.mem_singleton.mp h
      rw [conditional.sizeOf_spec, Alternate.conditional.sizeOf_spec]
      omega

/-- A part of a node is smaller than the node. -/
theorem sizeOf_lt_of_mem_children {m k : Node} (h : k ∈ m.children) : sizeOf k < sizeOf m := by
  cases m with
  | expr e => exact sizeOf_lt_of_mem_childrenOfExpr h
  | property p =>
    cases p with
    | keyed key value span =>
      cases List.mem_singleton.mp h
      simp only [expr.sizeOf_spec, property.sizeOf_spec, Property.keyed.sizeOf_spec]
      omega
    | shorthand => cases h
  | declarator d =>
    obtain ⟨name, value, span⟩ := d
    cases List.mem_singleton.mp h
    simp only [expr.sizeOf_spec, declarator.sizeOf_spec, Declarator.mk.sizeOf_spec]
    omega
  | declaration kind declarators span =>
    obtain ⟨d, hd, rfl⟩ := List.mem_map.mp h
    have := List.sizeOf_lt_of_mem hd
    simp only [declarator.sizeOf_spec, declaration.sizeOf_spec]
    omega
  | function name f =>
    have := sizeOf_lt_of_mem_function h
    simp only [function.sizeOf_spec]
    omega
  | conditional c => exact sizeOf_lt_of_mem_conditional h
  | loop condition body span =>
    obtain ⟨first, last⟩ := span
    rw [loop.sizeOf_spec, Span.mk.sizeOf_spec]
    rcases List.mem_cons.mp h with rfl | h
    · rw [expr.sizeOf_spec]
      omega
    · cases List.mem_singleton.mp h
      rw [block.sizeOf_spec]
      omega
  | block b =>
    obtain ⟨body, span⟩ := b
    have hbody : sizeOf k < sizeOf body := sizeOf_lt_of_mem_body h
    simp only [block.sizeOf_spec, Block.mk.sizeOf_spec]
    omega

end Node

/-- There is no loop in the body of the function. -/
def Function.LoopFree (f : Function) : Prop := ∀ t ∈ f.body, (Node.ofStmt t).LoopFree

/-- There is no loop in what the task evaluates. -/
def Task.LoopFree : Task → Prop
  | .program body _ | .invocation body _ => ∀ t ∈ body, (Node.ofStmt t).LoopFree
  | .expr e _ => (Node.expr e).LoopFree
  | .stmt t _ => (Node.ofStmt t).LoopFree
  | .loop _ _ _ _ => False

namespace Likeness

/-- The comparison of an evaluation with itself, where all functions are free of loops. -/
def withoutLoops (limit : Nat) (origin : Store) : Likeness :=
  region limit limit Function.LoopFree (fun _ => True) origin

/-- The nodes without loops that are smaller than a bound. -/
def Small (bound : Nat) (m : Node) : Prop := m.LoopFree ∧ sizeOf m < bound

variable {limit : Nat} {origin : Store}

theorem withoutLoops_lawful : (withoutLoops limit origin).Lawful :=
  region_lawful (Nat.le_refl _) fun _ _ _ => trivial

theorem withoutLoops_reflexive (bound : Nat) :
    (withoutLoops limit origin).Reflexive (Small bound) :=
  region_reflexive
    (fun _ _ h hmem => ⟨h.1.child hmem, Nat.lt_trans (Node.sizeOf_lt_of_mem_children hmem) h.2⟩)
    fun _ h t ht => (h t ht).1

/-- The parts of a node without loops are smaller than it. -/
theorem small_children {m k : Node} (h : m.LoopFree) (hmem : k ∈ m.children) :
    Small (sizeOf m) k :=
  ⟨h.child hmem, Node.sizeOf_lt_of_mem_children hmem⟩

theorem sequence_small {body : List Stmt} (h : ∀ t ∈ body, (Node.ofStmt t).LoopFree) :
    List.Forall₂ (Trees.same (Small (sizeOf body))).stmt body body := by
  refine Admits.sequence_same fun k hk => ⟨?_, Node.sizeOf_lt_of_mem_body hk⟩
  obtain ⟨t, ht, rfl⟩ := List.mem_map.mp hk
  exact h t ht

theorem expr_small {e : Expr} (h : (Node.expr e).LoopFree) :
    Expr.Like (withoutLoops limit origin) (Trees.same (Small (sizeOf (Node.expr e)))) e e :=
  (withoutLoops_reflexive _).expr_same fun _ hk => small_children h hk

theorem stmt_small {t : Stmt} (h : (Node.ofStmt t).LoopFree) (ht : ∀ e, t ≠ .expr e) :
    Stmt.Like (withoutLoops limit origin) (Trees.same (Small (sizeOf (Node.ofStmt t)))) t t := by
  refine (withoutLoops_reflexive _).stmt_same (fun _ hk => small_children h hk) ?_
  rintro (⟨e, rfl⟩ | ⟨e, b, span, rfl⟩)
  · exact absurd rfl (ht e)
  · exact absurd h Node.LoopFree.ne_loop

/-- **Work on small pieces of syntax ends.**  By induction on the room that is left for calls, and
within that on the bound for the pieces. -/
theorem Layer.ends (depth bound : Nat) {w : Nat → Prop} {t t' : Task} {s s' : State}
    (h : (withoutLoops limit origin).Layer (Trees.same (Small bound)) w t t')
    (hat : (withoutLoops limit origin).At w depth s s') :
    (withoutLoops limit origin).Ending depth w
      (fun w => (withoutLoops limit origin).Outcome ((withoutLoops limit origin).value w))
      (Eval.body limit t s) := by
  have hlawful := @withoutLoops_lawful limit origin
  refine (h.alike hlawful s s' hat).ends hlawful ?_ ?_
  · rintro _ ⟨e, -, hlt, -⟩
    exact Nat.lt_irrefl _ hlt
  · intro w₁ _ _ s₁ s₁' htask hfits hat₁
    cases htask with
    | @invocation f _ _ _ function scope =>
      obtain ⟨rfl, hfree⟩ := function
      have hroom : depth < limit := hfits.resolve_left Nat.one_ne_zero
      exact Layer.ends (depth + 1) (sizeOf f.body) (.invocation (sequence_small hfree) scope) hat₁
    | @expr e _ _ _ here scope =>
      obtain ⟨rfl, hfree, hsize⟩ := here
      exact Layer.ends depth (sizeOf (Node.expr e)) (.expr (expr_small hfree) scope) hat₁
    | @stmt t _ _ _ here scope place =>
      obtain ⟨rfl, hfree, hsize⟩ := here
      by_cases ht : ∃ e, t = .expr e
      · -- The statement is as large as the expression, which it calls for at once.
        obtain ⟨e, rfl⟩ := ht
        obtain ⟨w₂, out, out', s₂, s₂', k, hends, hrest⟩ :=
          Layer.ends depth (sizeOf (Node.expr e)) (.expr (expr_small hfree) scope) hat₁
        exact ⟨w₂, out, out', s₂, s₂', k + 1, .call hends, hrest⟩
      · have hne : ∀ e, t ≠ .expr e := fun e he => ht ⟨e, he⟩
        have hlayer := Layer.of_stmt (stmt_small hfree hne) scope place
        exact Layer.ends depth (sizeOf (Node.ofStmt t)) hlayer hat₁
    | loop again scope last =>
      obtain ⟨-, -, span, hfree, -⟩ := again
      exact absurd hfree Node.LoopFree.ne_loop
termination_by (limit - depth, bound)

end Likeness

namespace Task

variable {limit : Nat} {task : Task} {state : State}

/-- **Without loops, evaluation always ends**, with a value or a failure, whatever it calls.  There
is no loop in the task, nor in any function that can be reached from where it takes place. -/
theorem ends_of_loopFree (htask : task.LoopFree)
    (hreach : ∀ s x v f t, state.store.Reaches (· = task.scope) s →
      (state.store.bindings s.frame).lookup x = some v → v.Encloses f t → f.LoopFree) :
    ∃ steps outcome state', task.run limit steps state = some (outcome, state') := by
  let L := Likeness.withoutLoops limit state.store
  let region := state.store.Reached (· = task.scope)
  have hscope : task.scope.Inside region := Store.Reaches.inside (.root rfl)
  have hat : L.At region state.depth state state :=
    ⟨⟨rfl, Store.sealed_reached hreach, trivial⟩, rfl, rfl⟩
  obtain ⟨bound, hlayer⟩ :
      ∃ bound, L.Layer (Trees.same (Likeness.Small bound)) region task task := by
    cases task with
    | program body scope => exact ⟨_, .program (Likeness.sequence_small htask) ⟨rfl, hscope⟩⟩
    | invocation body scope => exact ⟨_, .invocation (Likeness.sequence_small htask) ⟨rfl, hscope⟩⟩
    | expr e scope => exact ⟨_, .expr (Likeness.expr_small htask) ⟨rfl, hscope⟩⟩
    | stmt t scope =>
      have hlike := (Likeness.withoutLoops_reflexive (sizeOf (Node.ofStmt t) + 1)).stmt_same
        (L := L) (fun k hk => (Likeness.small_children htask hk).imp_right Nat.lt_succ_of_lt)
        fun _ => ⟨htask, Nat.lt_succ_self _⟩
      exact ⟨_, .stmt hlike ⟨rfl, hscope⟩⟩
    | loop => cases htask
  obtain ⟨_, outcome, -, state', -, steps, hends, -⟩ := hlayer.ends state.depth bound hat
  exact ⟨steps + 2, outcome, state', hends.perform (Nat.le_refl _)⟩

end Task

/-- A session that has just started has no functions but native ones. -/
theorem Session.not_encloses_of_start {callLimit : Nat} {output : Output} {f : Function} {t : Scope}
    {x : String} {v : Value}
    (h : ((start callLimit output).state.store.bindings 0).lookup x = some v) :
    ¬ v.Encloses f t := by
  have hbindings : (start callLimit output).state.store.bindings 0 =
      [("assert", .native 3 .assert),
       ("log", .object 2 [("write", .native 0 .write), ("writeln", .native 1 .writeLine)])] := rfl
  have hmem := Bindings.mem_of_lookup h
  rw [hbindings] at hmem
  simp only [List.mem_cons, Prod.mk.injEq, List.not_mem_nil, or_false] at hmem
  intro hinside
  rcases hmem with ⟨-, rfl⟩ | ⟨-, rfl⟩
  · cases hinside
  · cases hinside with
    | object _ mem inside =>
      simp only [List.mem_cons, List.not_mem_nil, or_false] at mem
      rcases mem with rfl | rfl <;> cases inside

/-- A function that calls itself without end is stopped, in a session that has just started. -/
theorem Task.ends_of_loopFree_recursion :
    let span : Span := ⟨.start, .start⟩
    let again : Stmt := .expr (.call (.var "f" span) [] span)
    let session := Session.start 1000 .unbounded
    let task := Task.program [.function "f" ⟨[], [again], span⟩, again] session.scope
    task.LoopFree ∧ ∃ steps outcome state', task.run 1000 steps session.state =
      some (outcome, state') := by
  intro span again session task
  have hvar : (Node.expr (.var "f" span)).LoopFree :=
    Node.loopFree_of_children nofun fun k hk => by cases hk
  have hagain : (Node.ofStmt again).LoopFree := by
    refine Node.loopFree_of_children nofun fun k hk => ?_
    rw [List.mem_singleton.mp hk]
    exact hvar
  have htask : task.LoopFree := by
    intro t ht
    rcases List.mem_cons.mp ht with rfl | ht
    · refine Node.loopFree_of_children nofun fun k hk => ?_
      rw [List.mem_singleton.mp hk]
      exact hagain
    · rw [List.mem_singleton.mp ht]
      exact hagain
  refine ⟨htask, ends_of_loopFree htask fun s x v f t hs hv hinside => ?_⟩
  have hroot : s = .root 0 :=
    Store.Reaches.eq_root hs fun _ _ _ _ => Session.not_encloses_of_start
  subst hroot
  exact absurd hinside (Session.not_encloses_of_start hv)

end Script
