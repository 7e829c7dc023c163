import Script.Proofs.Braces.Trees
import Script.Proofs.Lockstep.Answers
import Script.Proofs.Lockstep.Padding
import Script.Proofs.Scopes.Isolation

/-!
# Braces around statements that declare nothing

A block has a scope of its own.  When it holds a single statement that declares nothing, nobody can
tell: the frame of the block stays empty for ever, wherever it gets to in the chains of the
functions that are made inside (`braces_alike`).  Two comparisons say so, both of padded heaps.

* `Padding.spare` compares an evaluation with one that has had one block more.  The syntax is the
  same from then on, and the runs go in lockstep.
* `Padding.braced` compares a program with the same program after conditionals behind an `else` have
  been put in braces.  Each time such a conditional is reached there is one more blank frame.  Its
  runs take more steps, so answers are compared.
-/

namespace Script

/-! ## A heap stands for itself -/

/-- The first frames of two stores stand for each other, each for the one with its number. -/
def Correspondence.upTo (size : Nat) : Correspondence where
  frame n n' := n = n' ∧ n < size
  blank _ := False
  oneToOne n n' k k' hn hk := by omega
  apart _ _ _ := id

section Self

variable {store : Store} {scopes : List Scope} {scope : Scope}

theorem Store.Hosts.frame_self (h : store.Hosts scopes) (hscope : scope ∈ scopes) :
    (Correspondence.upTo store.frames.size).frame scope.frame scope.frame :=
  ⟨rfl, h.size ▸ h.frame_lt hscope⟩

theorem Store.Hosts.padded_self (h : store.Hosts scopes) (hscope : scope ∈ scopes) :
    scope.Padded (.upTo store.frames.size) scope := by
  induction scope with
  | root frame => exact .root (h.frame_self hscope)
  | inner frame parent ih =>
    exact .inner (h.frame_self hscope) (ih (h.parents _ parent hscope rfl))

end Self

namespace Padding

variable {π : Padding}

/-- The states are the same but for what does not matter in the heaps. -/
structure Same (π : Padding) (κ : Correspondence) (s s' : State) : Prop where
  heap : π.Relates κ s s'
  depth : s.depth = s'.depth
  output : s.output = s'.output

/-- A heap is the same as itself, if the comparison is about all names and each identity and each
function stands for itself. -/
theorem same_self {scopes : List Scope} {state : State} (h : state.store.Hosts scopes)
    (hidentity : ∀ i, π.identity i i) (hfunction : ∀ f, π.function f f) (hname : ∀ x, π.name x) :
    π.Same (.upTo state.store.frames.size) state state := by
  have hvalue : ∀ v : Value, v.Sound scopes →
      v.Match (π.matching (.upTo state.store.frames.size)) v := by
    intro v hv
    refine hv.match_self hidentity (fun f s hs => ⟨hfunction f, h.padded_self hs⟩) ?_
    exact fun n hn => ⟨hn, fun _ => hname⟩
  refine ⟨⟨⟨?_, nofun, ?_, nofun⟩, fun k => hidentity _, nofun⟩, rfl, rfl⟩
  · rintro n _ ⟨rfl, hn⟩
    exact ⟨hn, hn⟩
  · rintro n _ ⟨rfl, hn⟩ x _
    cases hfound : (state.store.bindings n).lookup x with
    | none => exact .none
    | some v => exact .some (hvalue v (h.values n _ (Bindings.mem_of_lookup hfound)))

/-- Two runs came to the same: values that match and look alike or the same failure, and states that
are the same.  So a name has the same value wherever it is looked up. -/
def Agrees (π : Padding) (κ : Correspondence) (r r' : Task.Result × State) : Prop :=
  ∃ κ₁, κ.Extends κ₁ ∧
    SameOutcome (fun v v' => v.Match (π.matching κ₁) v' ∧ v.LooksLike v') r.1 r'.1 ∧
    π.Same κ₁ r.2 r'.2 ∧
    ∀ t t' : Scope, t.Padded κ₁ t' → ∀ x, π.name x →
      Option.Rel (fun v v' => v.Match (π.matching κ₁) v' ∧ v.LooksLike v')
        (r.2.store.lookup x t) (r'.2.store.lookup x t')

variable {κ : Correspondence} {limit depth : Nat} {output : Output} {r r' : Task.Result × State}
  {s s' : State}

theorem Same.at_depth (h : π.Same κ s s') :
    (Likeness.padded limit π s.output s.output).At κ s.depth s s' := by
  refine ⟨⟨h.heap, .empty, ?_, ?_⟩, rfl, h.depth.symm⟩
  · exact s.output.append_empty.symm
  · exact h.output ▸ s.output.append_empty.symm

theorem agrees_of_final (h : (Likeness.padded limit π output output).Final κ depth r r') :
    π.Agrees κ r r' := by
  obtain ⟨κ₁, hextends, hout, ⟨hrelates, bytes, hbytes, hbytes'⟩, hdepth, hdepth'⟩ := h
  refine ⟨κ₁, hextends, ?_, ⟨hrelates, hdepth.trans hdepth'.symm, hbytes.trans hbytes'.symm⟩, ?_⟩
  · generalize r.1 = out, r'.1 = out' at hout ⊢
    cases hout with
    | ok hv => exact .ok ⟨hv, hv.looksLike⟩
    | error he => exact he ▸ .error _
  · intro t t' ht x hx
    have hlookup := hrelates.store.lookup ht hx
    generalize r.2.store.lookup x t = o, r'.2.store.lookup x t' = o' at hlookup ⊢
    cases hlookup with
    | none => exact .none
    | some hv => exact .some ⟨hv, hv.looksLike⟩

/-! ## One more block -/

/-- Heaps of which the second one has a frame more, which is blank. -/
def spare (extra : Nat) : Padding where
  identity := Eq
  function := Eq
  name _ := True
  blank n := n = extra
  identity_inj i i' j j' hi hj := by omega
  parameters f g h := ⟨congrArg Function.parameters h, fun _ _ => trivial⟩

variable {extra : Nat}

theorem spare_admits :
    (Likeness.padded limit (spare extra) output output).Admits fun _ => True where
  children _ _ := trivial
  suits _ := ⟨fun _ => trivial, fun _ => trivial, fun _ => rfl, fun _ => rfl⟩

theorem spare_closed :
    (Likeness.padded limit (spare extra) output output).Closed (Trees.same fun _ => True) :=
  spare_admits.closed fun _ _ h => ⟨h, fun _ _ => trivial⟩

/-- **What comes after goes in lockstep.**  Every further task comes to the same in both heaps. -/
theorem Same.endAlike (h : (spare extra).Same κ s s') (limit : Nat) {task task' : Task}
    (htask : task.Match (fun t t' => t.Padded κ t' ∧ κ.frame t.frame t'.frame)
      (Value.Match ((spare extra).matching κ)) task') :
    Task.EndAlike limit ((spare extra).Agrees κ) task s task' s' := by
  let L := Likeness.padded limit (spare extra) s.output s.output
  have hlayer : L.Layer (Trees.same fun _ => True) κ task task' :=
    spare_admits.layer (htask.imp fun _ _ hplace => ⟨hplace.1, hplace⟩)
  have hrun := fun steps => Likeness.run_rel (Likeness.padded_lawful rfl rfl) spare_closed
    (fun _ => id) steps hlayer h.at_depth
  exact (Task.EndAlike.of_run hrun).imp fun _ _ => agrees_of_final

end Padding

/-- A block that holds one statement hands on what that comes to. -/
theorem Eval.answer_block_singleton (reply : Task → State → Option (Task.Result × State))
    (t : Stmt) (span : Span) (scope : Scope) (s : State) :
    (Eval.block scope ⟨[t], span⟩ s).answer reply =
      reply (.stmt t (s.store.newInner scope []).1)
        { s with store := (s.store.newInner scope []).2 } :=
  Action.answer_bind_pure (Eval.stmt _ t) _

theorem Task.run_block_singleton {limit : Nat} {t : Stmt} {span : Span} {scope : Scope} {s : State}
    {r : Task.Result × State} :
    (∃ k, (Task.stmt (.block ⟨[t], span⟩) scope).run limit k s = some r) ↔
      ∃ k, (Task.stmt t (s.store.newInner scope []).1).run limit k
        { s with store := (s.store.newInner scope []).2 } = some r := by
  refine Routine.perform_eq_some_iff.trans (Iff.trans ?_ Routine.perform_eq_some_iff.symm)
  constructor
  · rintro ⟨depth, hdepth⟩
    cases depth with
    | zero => cases hdepth
    | succ depth => exact ⟨depth, (Eval.answer_block_singleton _ t span scope s).symm.trans hdepth⟩
  · rintro ⟨depth, hdepth⟩
    exact ⟨depth + 1, (Eval.answer_block_singleton _ t span scope s).trans hdepth⟩

namespace Padding

variable {π : Padding} {κ κ₁ : Correspondence}

theorem Agrees.of_extends {r r' : Task.Result × State} (hextends : κ.Extends κ₁)
    (h : π.Agrees κ₁ r r') : π.Agrees κ r r' := by
  obtain ⟨κ₂, hextends₂, hrest⟩ := h
  exact ⟨κ₂, hextends.trans hextends₂, hrest⟩

/-- **Braces around one statement.** -/
theorem endAlike_block {scopes : List Scope} {state : State} (h : state.store.Hosts scopes)
    {scope : Scope} (hscope : scope ∈ scopes) (limit : Nat) {t : Stmt} (ht : t.declares = [])
    (span : Span) :
    Task.EndAlike limit ((spare state.store.frames.size).Agrees (.upTo state.store.frames.size))
      (.stmt t scope) state (.stmt (.block ⟨[t], span⟩) scope) state := by
  let π := spare state.store.frames.size
  have hself : π.Same (.upTo state.store.frames.size) state state :=
    same_self h (fun _ => rfl) (fun _ => rfl) fun _ => trivial
  -- The frame of the block is blank, and the statement itself runs in lockstep from there.
  have hblank := hself.heap.allocate_blank rfl
  have hextends := Correspondence.extends_addBlank hself.heap.store
  have hinner : scope.Padded (Correspondence.addBlank _ hself.heap.store)
      (state.store.newInner scope []).1 :=
    .blank (.inr rfl) (hextends.padded (h.padded_self hscope))
  let L := Likeness.padded limit π state.output state.output
  have hlayer : L.Layer (Trees.same fun _ => True) _ (.stmt t scope)
      (.stmt t (state.store.newInner scope []).1) :=
    .plain (spare_admits.stmt_same (fun _ _ => trivial) (spare_admits.suits trivial)
      fun _ => trivial) hinner ht
  have hsame : π.Same (Correspondence.addBlank _ hself.heap.store) state
      { state with store := (state.store.newInner scope []).2 } := ⟨hblank, rfl, rfl⟩
  have hrun := fun steps => Likeness.run_rel (Likeness.padded_lawful rfl rfl) spare_closed
    (fun _ => id) steps hlayer hsame.at_depth
  have hends := (Task.EndAlike.of_run hrun).imp fun _ _ hfinal =>
    (agrees_of_final hfinal).of_extends hextends
  exact hends.of_right fun r => Task.run_block_singleton

end Padding

/-! ## Conditionals in braces -/

/-- Heaps of which the second one may have any blank frames, and whose functions are the same up to
braces. -/
def Padding.braced : Padding where
  identity := Eq
  function f g := ∃ braces, g = f.braced braces
  name _ := True
  blank _ := True
  identity_inj i i' j j' hi hj := by omega
  parameters f g h := by
    obtain ⟨braces, rfl⟩ := h
    obtain ⟨ps, body, span⟩ := f
    exact ⟨rfl, fun _ _ => trivial⟩

/-- Trees may be asked for on the left as they are, and on the right after conditionals have been
put in braces. -/
def Trees.braced : Trees where
  expr e e' := ∃ braces, e' = e.braced braces
  stmt s s' := ∃ braces, s' = s.braced braces
  loop e b e' b' := ∃ braces, e' = e.braced braces ∧ b' = b.braced braces

/-- The comparison of an evaluation with that of a tree in which conditionals have been put in
braces. -/
abbrev Likeness.braced (limit : Nat) (output : Output) : Likeness :=
  .padded limit .braced output output

namespace Likeness

variable {limit depth : Nat} {output : Output} {braces : Braces} {κ : Correspondence}

theorem braced_lawful : (braced limit output).Lawful := padded_lawful rfl rfl

theorem sequence_braced (body : List Stmt) :
    List.Forall₂ Trees.braced.stmt body (bracedStmts braces body) := by
  induction body with
  | nil => exact .nil
  | cons s body ih => exact .cons ⟨braces, rfl⟩ ih

theorem values_braced (es : List Expr) :
    List.Forall₂ Trees.braced.expr es (bracedExprs braces es) := by
  induction es with
  | nil => exact .nil
  | cons e es ih => exact .cons ⟨braces, rfl⟩ ih

theorem properties_braced (ps : List Property) :
    List.Forall₂ (Property.Like (braced limit output) Trees.braced) ps
      (bracedProperties braces ps) := by
  induction ps with
  | nil => exact .nil
  | cons p ps ih =>
    refine .cons ?_ ih
    cases p with
    | keyed key e span => exact .keyed ⟨braces, rfl⟩
    | shorthand name span => exact .shorthand trivial rfl

theorem declarators_braced (ds : List Declarator) :
    List.Forall₂ (Declarator.Like (braced limit output) Trees.braced) ds
      (bracedDeclarators braces ds) := by
  induction ds with
  | nil => exact .nil
  | cons d ds ih =>
    obtain ⟨name, e, span⟩ := d
    exact .cons ⟨rfl, trivial, ⟨braces, rfl⟩, rfl⟩ ih

theorem block_braced (b : Block) : Block.Like Trees.braced b (b.braced braces) := by
  obtain ⟨body, span⟩ := b
  exact sequence_braced body

theorem site_self (span : Span) : (braced limit output).Site span span :=
  ⟨fun _ => rfl, fun _ => rfl, fun _ => rfl⟩

theorem expr_braced (e : Expr) :
    Expr.Like (braced limit output) Trees.braced e (e.braced braces) := by
  cases e with
  | number n span => exact .number n
  | string s span => exact .string s
  | constant c span => exact .constant c
  | var x span => exact .var trivial rfl
  | array es span => exact .array (values_braced es)
  | object ps span => exact .object (properties_braced ps)
  | function name f => exact .function name ⟨braces, rfl⟩
  | assign x op e span => exact .assign op trivial rfl ⟨braces, rfl⟩
  | member e x span => exact .member x ⟨braces, rfl⟩ fun _ => rfl
  | index e key span => exact .index ⟨braces, rfl⟩ ⟨braces, rfl⟩ fun _ => rfl
  | call e es span => exact .call ⟨braces, rfl⟩ (values_braced es) (site_self span)
  | logical op left right span => exact .logical op ⟨braces, rfl⟩ ⟨braces, rfl⟩
  | binary op left right span => exact .binary op ⟨braces, rfl⟩ ⟨braces, rfl⟩
  | unary op e span => exact .unary op ⟨braces, rfl⟩

/-- The statement of a block, in the scope of the block. -/
def inside (scope : Scope) (t : Stmt) : Eval Value := Eval.newInner scope [] >>= (Eval.stmt · t)

variable {scope scope' : Scope} {s s' : State}

/-- The frame of the block is one more that is blank. -/
theorem alike_inside (hscope : scope.Padded κ scope') (c : Conditional) :
    (braced limit output).Alike Trees.braced depth κ (braced limit output).value
      (Eval.stmt scope (.conditional c)) (inside scope' (.conditional (c.braced braces))) := by
  intro s s' hat
  obtain ⟨⟨hrelates, hwritten⟩, hdepth, hdepth'⟩ := hat
  have hextends := Correspondence.extends_addBlank hrelates.store
  have hinner : scope.Padded (κ.addBlank hrelates.store) (s'.store.newInner scope' []).1 :=
    .blank (.inr rfl) (hextends.padded hscope)
  refine .call hextends ⟨⟨hrelates.allocate_blank trivial, hwritten⟩, hdepth, hdepth'⟩
    (.stmt ⟨braces, rfl⟩ hinner fun h => absurd rfl h) rfl (fun _ => id) fun _ _ _ _ => id

/-- A conditional goes in lockstep, up to blocks that only hand on what their statement comes to. -/
theorem conditional_braced (hscope : scope.Padded κ scope') (c : Conditional)
    (hat : (braced limit output).At κ depth s s') :
    (braced limit output).Answered Trees.braced depth κ (Eval.conditional scope c s)
      (Eval.conditional scope' (c.braced braces) s') := by
  obtain ⟨e, b, alternate, span⟩ := c
  have hcondition : Trees.braced.expr e (e.braced braces) := ⟨braces, rfl⟩
  have hlike : Alternate.Like Trees.braced alternate (alternate.braced braces) →
      (braced limit output).Answered Trees.braced depth κ
        (Eval.conditional scope ⟨e, b, alternate, span⟩ s)
        (Eval.conditional scope' (Conditional.braced braces ⟨e, b, alternate, span⟩) s') := by
    intro halternate
    have hconditional : Conditional.Like Trees.braced ⟨e, b, alternate, span⟩
        (Conditional.braced braces ⟨e, b, alternate, span⟩) :=
      ⟨hcondition, block_braced b, halternate⟩
    exact InStep.answered (braced_lawful.alike_conditional hconditional hscope s s' hat)
  cases alternate with
  | absent => exact hlike .absent
  | block b' => exact hlike (.block (block_braced b'))
  | conditional nested =>
    rw [Conditional.braced, Alternate.braced] at hlike ⊢
    cases hbraces : braces nested with
    | none =>
      rw [hbraces] at hlike
      exact hlike (.conditional ⟨braces, rfl⟩)
    | some outer =>
      let otherwise := inside scope' (.conditional (nested.braced braces))
      refine ⟨(Eval.expr scope' (e.braced braces) >>= fun v =>
        if v.isTruthy then Eval.block scope' (b.braced braces) else otherwise) s', ?_, ?_⟩
      · refine Alike.bind braced_lawful (braced_lawful.alike_expr hcondition hscope) ?_ s s' hat
        intro κ₁ v v' hextends hv
        have hscope₁ := hextends.padded hscope
        rw [Value.Match.isTruthy hv]
        split
        · exact braced_lawful.alike_block (block_braced b) hscope₁
        · exact alike_inside hscope₁ nested
      · intro reply
        refine Action.answer_bind_congr fun v s => ?_
        split
        · rfl
        · exact Eval.answer_block_singleton reply _ outer scope' s

/-- The work of two tasks that are the same up to braces is answered alike. -/
theorem braced_answered {t t' : Task} (h : (braced limit output).Tasks Trees.braced κ t t')
    (hat : (braced limit output).At κ depth s s') :
    (braced limit output).Answered Trees.braced depth κ (Eval.body limit t s)
      (Eval.body limit t' s') := by
  have hlayer : (braced limit output).Layer Trees.braced κ t t' →
      (braced limit output).Answered Trees.braced depth κ (Eval.body limit t s)
        (Eval.body limit t' s') :=
    fun hlayer => InStep.answered (hlayer.alike braced_lawful s s' hat)
  cases h with
  | @invocation f f' _ _ function place =>
    obtain ⟨braces, rfl⟩ := function
    obtain ⟨ps, body, span⟩ := f
    exact hlayer (.invocation (sequence_braced body) place)
  | @expr e _ _ _ here scope =>
    obtain ⟨braces, rfl⟩ := here
    exact hlayer (.expr (expr_braced e) scope)
  | @stmt t _ _ _ here scope place =>
    obtain ⟨braces, rfl⟩ := here
    cases t with
    | expr e => exact hlayer (.of_stmt (.expr ⟨braces, rfl⟩) scope place)
    | declaration kind ds span =>
      exact hlayer (.of_stmt (.declaration (declarators_braced ds)) scope place)
    | function x f =>
      obtain ⟨ps, body, span⟩ := f
      exact hlayer (.of_stmt (.function trivial ⟨braces, rfl⟩ rfl) scope place)
    | conditional c => exact conditional_braced scope c hat
    | loop e b span =>
      exact hlayer (.of_stmt (.loop ⟨braces, rfl⟩ (block_braced b) ⟨braces, rfl, rfl⟩) scope place)
    | block b => exact hlayer (.of_stmt (.block (block_braced b)) scope place)
  | @loop e _ b _ _ _ _ _ again scope last =>
    obtain ⟨braces, rfl, rfl⟩ := again
    exact hlayer (.loop ⟨braces, rfl⟩ (block_braced b) ⟨braces, rfl, rfl⟩ scope last)

end Likeness

namespace Padding

variable {κ : Correspondence} {s s' : State} {scope scope' : Scope}

/-- **Braces around conditionals behind an else.** -/
theorem Same.endAlike_program (h : braced.Same κ s s') (hscope : scope.Padded κ scope')
    (hframe : κ.frame scope.frame scope'.frame) (limit : Nat) (braces : Braces)
    (body : List Stmt) :
    Task.EndAlike limit (braced.Agrees κ) (.program body scope) s
      (.program (bracedStmts braces body) scope') s' := by
  let L := Likeness.braced limit s.output
  have hlayer : L.Layer Trees.braced κ (.program body scope)
      (.program (bracedStmts braces body) scope') :=
    .program (Likeness.sequence_braced body) ⟨hscope, hframe⟩
  have hwork := Likeness.InStep.answered
    (hlayer.alike Likeness.braced_lawful s s' h.at_depth)
  have hends : Task.EndAlike limit (L.Final κ s.depth) (.program body scope) s
      (.program (bracedStmts braces body) scope') s' := by
    refine .of_resolve fun depth => ?_
    cases depth with
    | zero => exact .none
    | succ depth =>
      exact hwork.resolve Likeness.braced_lawful (fun _ => id)
        (fun _ _ _ _ _ _ => Likeness.braced_answered) depth
  exact hends.imp fun _ _ => agrees_of_final

end Padding

/-- **Braces do not matter around statements that declare nothing.**  In a heap without native
functions that declare variables, and in any of its scopes:

* Such a statement comes to the same with braces around it, and afterwards every name has the same
  value in every scope that there was.  Only functions that were made meanwhile may have the frame
  of the block in their chains.
* Every further task comes to the same in the two heaps that this leaves, and leaves two that are
  the same again.
* A program comes to the same after conditionals behind an `else` have been put in braces, any of
  them or all, and so does every program after it. -/
theorem braces_alike {scopes : List Scope} {state : State} (hhosts : state.store.Hosts scopes)
    {scope : Scope} (hscope : scope ∈ scopes) (limit : Nat) :
    let size := state.store.frames.size
    let κ : Correspondence := .upTo size
    (∀ t : Stmt, t.declares = [] → ∀ span, Task.EndAlike limit
      (fun r r' => (Padding.spare size).Agrees κ r r' ∧ ∀ s ∈ scopes, ∀ x,
        Option.Rel Value.LooksLike (r.2.store.lookup x s) (r'.2.store.lookup x s))
      (.stmt t scope) state (.stmt (.block ⟨[t], span⟩) scope) state) ∧
    (∀ κ₁ s s' task task', (Padding.spare size).Same κ₁ s s' →
      task.Match (fun t t' => t.Padded κ₁ t' ∧ κ₁.frame t.frame t'.frame)
        (Value.Match ((Padding.spare size).matching κ₁)) task' →
      Task.EndAlike limit ((Padding.spare size).Agrees κ₁) task s task' s') ∧
    Padding.braced.Same κ state state ∧ scope.Padded κ scope ∧ κ.frame scope.frame scope.frame ∧
    ∀ κ₁ s s' t t', Padding.braced.Same κ₁ s s' → t.Padded κ₁ t' → κ₁.frame t.frame t'.frame →
      ∀ body braces, Task.EndAlike limit (Padding.braced.Agrees κ₁) (.program body t) s
        (.program (bracedStmts braces body) t') s' := by
  intro size κ
  refine ⟨?_, ?_, ?_, hhosts.padded_self hscope, hhosts.frame_self hscope, ?_⟩
  · intro t ht span
    refine (Padding.endAlike_block hhosts hscope limit ht span).imp fun r r' hagrees => ?_
    refine ⟨hagrees, fun s hs x => ?_⟩
    obtain ⟨κ₁, hextends, -, -, hlookup⟩ := hagrees
    have hfound := hlookup s s (hextends.padded (hhosts.padded_self hs)) x trivial
    generalize r.2.store.lookup x s = o, r'.2.store.lookup x s = o' at hfound ⊢
    cases hfound with
    | none => exact .none
    | some hv => exact .some hv.2
  · exact fun κ₁ s s' task task' hsame htask => hsame.endAlike limit htask
  · exact Padding.same_self hhosts (fun _ => rfl) (fun f => ⟨.nowhere, f.braced_nowhere.symm⟩)
      fun _ => trivial
  · exact fun κ₁ s s' t t' hsame ht hframe body braces =>
      hsame.endAlike_program ht hframe limit braces body

/-- A function that is made in a block, and a conditional behind an `else`. -/
theorem braces_alike_function :
    let span : Span := ⟨.start, .start⟩
    let made : Stmt := .expr (.function none ⟨[], [], span⟩)
    let nested : Conditional := ⟨.constant .true span, ⟨[made], span⟩, .absent, span⟩
    let program : List Stmt :=
      [.conditional ⟨.constant .false span, ⟨[], span⟩, .conditional nested, span⟩]
    let session := Session.bare 1 .unbounded
    (made.declares = [] ∧ ∃ r steps' r', (Task.stmt made session.scope).run 1 9 session.state =
        some r ∧ (Task.stmt (.block ⟨[made], span⟩) session.scope).run 1 steps' session.state =
        some r' ∧ (Padding.spare 1).Agrees (.upTo 1) r r') ∧
    ∃ r steps' r', (Task.program program session.scope).run 1 29 session.state = some r ∧
      (Task.program (bracedStmts (fun _ => some span) program) session.scope).run 1 steps'
        session.state = some r' ∧ Padding.braced.Agrees (.upTo 1) r r' := by
  intro span made nested program session
  have hroot : session.scope ∈ [Scope.root 0] := List.mem_cons_self
  obtain ⟨hblock, -, hself, hpadded, hframe, hprogram⟩ :=
    braces_alike (Session.bare_hosts 1 .unbounded) hroot 1
  have hmade : ∃ r, (Task.stmt made session.scope).run 1 9 session.state = some r := ⟨_, rfl⟩
  have hprograms : ∃ r, (Task.program program session.scope).run 1 29 session.state = some r :=
    ⟨_, rfl⟩
  obtain ⟨r, hr⟩ := hmade
  obtain ⟨q, hq⟩ := hprograms
  obtain ⟨steps, r', hr', hagrees, -⟩ := (hblock made rfl span).1 9 r hr
  obtain ⟨steps', q', hq', hagrees'⟩ :=
    (hprogram _ _ _ _ _ hself hpadded hframe program fun _ => some span).1 29 q hq
  exact ⟨⟨rfl, r, steps, r', hr, hr', hagrees⟩, q, steps', q', hq, hq', hagrees'⟩

end Script
