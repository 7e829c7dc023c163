import Script.Proofs.Lockstep.Likeness

/-!
# Every rule of the evaluation goes in lockstep

For every lawful likeness, the work of two tasks that are alike goes in lockstep
(`Likeness.Layer.alike`).  `Likeness.Alike` is lockstep from all states that are alike.  It has one
rule for each way to put evaluations together, so that the lemma for a piece of syntax follows the
text of its evaluation.
-/

namespace Script

/-- The body of a function is asked for with one more active call, and there is one less afterwards,
however it has ended. -/
theorem Eval.invoke_eq (body : List Stmt) (scope : Scope) (s : State) :
    Eval.invoke body scope s = .ask (.invocation body scope) { s with depth := s.depth + 1 }
      fun out s => .done out { s with depth := s.depth - 1 } := by
  show Routine.ask _ _ _ = Routine.ask _ _ _
  congr 1
  funext out s
  cases out with
  | ok value => rfl
  | error e => rfl

theorem Native.invoke_depth (native : Native) (arguments : List Value) (scope : Scope)
    (s : State) : (native.invoke arguments scope s).2.depth = s.depth := by
  cases native with
  | peek =>
    simp only [Native.invoke]
    split <;> rfl
  | _ => rfl

namespace Likeness

variable {L : Likeness} {T : Trees} {α β : Type} {depth : Nat} {w w₁ : L.World}
  {good : L.World → α → β → Prop} {s s' scope scope' : Scope}

/-- From states that are alike, the two evaluations go in lockstep. -/
def Alike (L : Likeness) (T : Trees) (depth : Nat) (w : L.World) (good : L.World → α → β → Prop)
    (work : Eval α) (work' : Eval β) : Prop :=
  ∀ s s', L.At w depth s s' →
    L.Lockstep T depth w L.Lost (fun w => L.Outcome (good w)) (work s) (work' s')

section Rules

theorem Alike.pure (hL : L.Lawful) {a : α} {b : β} (h : good w a b) :
    L.Alike T depth w good (Pure.pure a) (Pure.pure b) :=
  fun _ _ hat => .done (hL.refl w) hat (.ok h)

theorem Alike.throw (hL : L.Lawful) {e e' : RuntimeError} (h : L.error e e') :
    L.Alike T depth w good (MonadExcept.throw e) (MonadExcept.throw e') :=
  fun _ _ hat => .done (hL.refl w) hat (.error h)

theorem Alike.lost {e : RuntimeError} (h : L.lost e) (work' : Eval β) :
    L.Alike T depth w good (MonadExcept.throw e) work' :=
  fun _ _ _ => .lost ⟨e, rfl, h⟩

theorem Alike.bind (hL : L.Lawful) {γ δ : Type} {good' : L.World → γ → δ → Prop}
    {first : Eval α} {first' : Eval β} {next : α → Eval γ} {next' : β → Eval δ}
    (h : L.Alike T depth w good first first')
    (hnext : ∀ w₁ a b, L.le w w₁ → good w₁ a b → L.Alike T depth w₁ good' (next a) (next' b)) :
    L.Alike T depth w good' (first >>= next) (first' >>= next') := by
  intro s s' hat
  refine Lockstep.bind hL (h s s' hat) ?_ ?_
  · rintro _ s ⟨e, rfl, he⟩
    exact ⟨.error e, s, rfl, e, rfl, he⟩
  · intro w₁ out out' s s' hle hat hout
    cases hout with
    | ok hgood => exact hnext w₁ _ _ hle hgood s s' hat
    | error he => exact .done (hL.refl w₁) hat (.error he)

/-- A task that is not the body of a function may be asked for as it is. -/
theorem Alike.task (hL : L.Lawful) {t t' : Task} (h : L.Tasks T w t t') (calls : t.calls = 0) :
    L.Alike T depth w L.value (Action.call t) (Action.call t') :=
  fun _ _ hat => .call (hL.refl w) hat h calls (fun _ hout => hout) fun _ _ _ _ hout => hout

/-- A step that is over at once, with a result. -/
theorem Alike.step (f : State → α × State) (f' : State → β × State)
    (h : ∀ s s', L.At w depth s s' → ∃ w₁, L.le w w₁ ∧ L.At w₁ depth (f s).2 (f' s').2 ∧
      good w₁ (f s).1 (f' s').1) :
    L.Alike T depth w good (fun s => .done (.ok (f s).1) (f s).2)
      (fun s => .done (.ok (f' s).1) (f' s).2) := by
  intro s s' hat
  obtain ⟨w₁, hle, hat₁, hgood⟩ := h s s' hat
  exact .done hle hat₁ (.ok hgood)

end Rules

/-! ## Operations on the state -/

namespace Lawful

variable (hL : L.Lawful)
include hL

theorem alike_lookup? {x : String} (hscope : L.scope w scope scope') (hx : L.name x) :
    L.Alike T depth w (fun w => Option.Rel (L.value w)) (Eval.lookup? scope x)
      (Eval.lookup? scope' x) :=
  Alike.step (fun s => (s.store.lookup x scope, s)) (fun s => (s.store.lookup x scope', s))
    fun _ _ hat => ⟨w, hL.refl w, hat, hL.lookup hat.state hscope hx⟩

theorem alike_freshIdentity :
    L.Alike T depth w L.identity Eval.freshIdentity Eval.freshIdentity := by
  refine Alike.step State.freshIdentity State.freshIdentity ?_
  intro s s' hat
  obtain ⟨w₁, hle, hstate, hidentity⟩ := hL.fresh hat.state
  exact ⟨w₁, hle, ⟨hstate, hat.left, hat.right⟩, hidentity⟩

theorem alike_declare {x : String} {v v' : Value} (hplace : L.place w scope scope')
    (hx : L.binder x) (hv : L.value w v v') :
    L.Alike T depth w (fun _ => Eq) (Eval.declare scope x v) (Eval.declare scope' x v') := by
  refine Alike.step
    (fun s => ((s.store.declare scope x v).1,
      { s with store := (s.store.declare scope x v).2 }))
    (fun s => ((s.store.declare scope' x v').1,
      { s with store := (s.store.declare scope' x v').2 })) ?_
  intro s s' hat
  obtain ⟨hfree, hstate⟩ := hL.declare hat.state hplace hx hv
  exact ⟨w, hL.refl w, ⟨hstate, hat.left, hat.right⟩, hfree⟩

theorem alike_assign {x : String} {v v' : Value} (hscope : L.scope w scope scope')
    (hx : L.name x) (hv : L.value w v v') :
    L.Alike T depth w (fun _ => Eq) (Eval.assign scope x v) (Eval.assign scope' x v') := by
  refine Alike.step
    (fun s => ((s.store.set scope x v).1, { s with store := (s.store.set scope x v).2 }))
    (fun s => ((s.store.set scope' x v').1,
      { s with store := (s.store.set scope' x v').2 })) ?_
  intro s s' hat
  obtain ⟨hthere, hstate⟩ := hL.set hat.state hscope hx hv
  exact ⟨w, hL.refl w, ⟨hstate, hat.left, hat.right⟩, hthere⟩

theorem alike_newInner {b b' : Bindings} (hscope : L.scope w scope scope')
    (hnames : ∀ x ∈ b, L.binder x.1) (hentries : L.entries w b b') :
    L.Alike T depth w L.place (Eval.newInner scope b) (Eval.newInner scope' b') := by
  refine Alike.step
    (fun s => ((s.store.newInner scope b).1,
      { s with store := (s.store.newInner scope b).2 }))
    (fun s => ((s.store.newInner scope' b').1,
      { s with store := (s.store.newInner scope' b').2 })) ?_
  intro s s' hat
  obtain ⟨w₁, hle, hstate, hinner⟩ := hL.newInner hat.state hscope hnames hentries
  exact ⟨w₁, hle, ⟨hstate, hat.left, hat.right⟩, hinner⟩

theorem alike_depth :
    L.Alike T depth w (fun _ a b => a = depth ∧ b = depth) Eval.depth Eval.depth :=
  Alike.step (fun s => (s.depth, s)) (fun s => (s.depth, s))
    fun _ _ hat => ⟨w, hL.refl w, hat, hat.left, hat.right⟩

/-! ## Native functions -/

omit hL in
theorem value_headD {vs vs' : List Value} (h : List.Forall₂ (L.value w) vs vs') :
    L.value w (vs.headD .undefined) (vs'.headD .undefined) := by
  cases h with
  | nil => exact .undefined
  | cons hv _ => exact hv

omit hL in
theorem values_tail {vs vs' : List Value} (h : List.Forall₂ (L.value w) vs vs') :
    List.Forall₂ (L.value w) vs.tail vs'.tail := by
  cases h with
  | nil => exact .nil
  | cons _ hrest => exact hrest

omit hL in
theorem outcome_boolean {b b' : Bool} (h : b = b') :
    L.Outcome (L.value w) (.ok (.boolean b)) (.ok (.boolean b')) := by
  rw [h]
  exact .ok (.boolean _)

theorem writeText {s s' : State} (text : String) (hstate : L.state w s s') {span span' : Span}
    (site : L.Site span span') :
    L.state w (Native.writeText text s).2 (Native.writeText text s').2 ∧
      L.Outcome (L.value w) ((Native.writeText text s).1.mapError (.nativeFailure · span))
        ((Native.writeText text s').1.mapError (.nativeFailure · span')) := by
  obtain ⟨hresult, hwritten⟩ := hL.write text hstate
  refine ⟨hwritten, ?_⟩
  simp only [Native.writeText]
  rw [hresult]
  cases (s'.output.write text).1 with
  | ok _ => exact .ok .undefined
  | error e => exact .error (site.native _)

/-- A native function does the same on both sides. -/
theorem invoke {native : Native} {vs vs' : List Value} {s s' : State} {span span' : Span}
    (hnative : L.native native) (hvs : List.Forall₂ (L.value w) vs vs')
    (hscope : L.scope w scope scope') (hstate : L.state w s s') (site : L.Site span span') :
    ∃ w₁, L.le w w₁ ∧
      L.state w₁ (native.invoke vs scope s).2 (native.invoke vs' scope' s').2 ∧
      L.Outcome (L.value w₁) ((native.invoke vs scope s).1.mapError (.nativeFailure · span))
        ((native.invoke vs' scope' s').1.mapError (.nativeFailure · span')) := by
  have hfirst := value_headD hvs
  have hsecond := value_headD (values_tail hvs)
  have hdisplay : (vs.headD .undefined).display = (vs'.headD .undefined).display := hfirst.display
  cases native with
  | write =>
    simp only [Native.invoke, hdisplay]
    exact ⟨w, hL.refl w, hL.writeText _ hstate site⟩
  | writeLine =>
    simp only [Native.invoke, hdisplay]
    exact ⟨w, hL.refl w, hL.writeText _ hstate site⟩
  | assert =>
    simp only [Native.invoke, hfirst.isTruthy]
    refine ⟨w, hL.refl w, hstate, ?_⟩
    split
    · exact .ok (.boolean _)
    · exact .error (site.native _)
  | peek =>
    have hlookup := hL.lookup hstate hscope
      (hL.named hnative (by simp) (vs'.headD .undefined).display)
    simp only [Native.invoke, hdisplay]
    generalize s.store.lookup _ scope = found, s'.store.lookup _ scope' = found' at hlookup ⊢
    refine ⟨w, hL.refl w, ?_⟩
    cases hlookup with
    | none => exact ⟨hstate, .error (site.native _)⟩
    | some hv => exact ⟨hstate, .ok hv⟩
  | poke =>
    simp only [Native.invoke, hdisplay]
    obtain ⟨hthere, hset⟩ := hL.set hstate hscope
      (hL.named hnative (by simp) (vs'.headD .undefined).display) hsecond
    exact ⟨w, hL.refl w, hset, outcome_boolean hthere⟩
  | define =>
    simp only [Native.invoke, hdisplay]
    obtain ⟨hbinder, hplace⟩ := hL.defined hnative
    obtain ⟨hfree, hdeclare⟩ := hL.declare hstate (hplace w _ _ hscope)
      (hbinder (vs'.headD .undefined).display) hsecond
    exact ⟨w, hL.refl w, hdeclare, outcome_boolean hfree⟩
  | fail =>
    simp only [Native.invoke, hdisplay]
    exact ⟨w, hL.refl w, hstate, .error (site.native _)⟩
  | typeName =>
    simp only [Native.invoke, hfirst.typeName]
    exact ⟨w, hL.refl w, hstate, .ok (.string _)⟩
  | collect name =>
    obtain ⟨w₁, hle, hfresh, hidentity⟩ := hL.fresh hstate
    exact ⟨w₁, hle, hfresh, .ok (.ofElements hidentity (hL.values_mono hle hvs))⟩

theorem alike_native {native : Native} {vs vs' : List Value} {span span' : Span} {i i' : Nat}
    (hnative : L.native native) (hvs : List.Forall₂ (L.value w) vs vs')
    (hscope : L.scope w scope scope') (site : L.Site span span') :
    L.Alike T depth w L.value (Eval.call L.limit (.native i native) vs span scope)
      (Eval.call L.limit' (.native i' native) vs' span' scope') := by
  rw [Eval.call_native, Eval.call_native]
  intro s s' hat
  obtain ⟨w₁, hle, hstate, hout⟩ := hL.invoke hnative hvs hscope hat.state site
  refine .done hle ⟨hstate, ?_, ?_⟩ hout
  · exact (native.invoke_depth vs scope s).trans hat.left
  · exact (native.invoke_depth vs' scope' s').trans hat.right

/-! ## Calls -/

omit hL in
theorem entries_bindParameters {vs vs' : List Value} (h : List.Forall₂ (L.value w) vs vs')
    (xs : List String) :
    L.entries w (Eval.bindParameters xs vs) (Eval.bindParameters xs vs') := by
  induction xs generalizing vs vs' with
  | nil => exact .nil
  | cons x xs ih => exact .cons ⟨rfl, value_headD h⟩ (ih (values_tail h))

omit hL in
theorem mem_of_mem_bindParameters {xs : List String} {vs : List Value} {p : String × Value}
    (h : p ∈ Eval.bindParameters xs vs) : p.1 ∈ xs := by
  induction xs generalizing vs with
  | nil => cases h
  | cons x xs ih =>
    rcases List.mem_cons.mp h with rfl | h
    · exact List.mem_cons_self
    · exact List.mem_cons_of_mem _ (ih h)

/-- The body of a function runs with one more active call. -/
theorem alike_invoke {f f' : Function} (hf : L.function f f') (hplace : L.place w scope scope')
    (fits : depth < L.limit) :
    L.Alike T depth w L.value (Eval.invoke f.body scope) (Eval.invoke f'.body scope') := by
  intro s s' hat
  rw [Eval.invoke_eq, Eval.invoke_eq, hat.left, hat.right]
  refine .ask (hL.refl w) ⟨hL.depth _ hat.state, rfl, rfl⟩ (.invocation hf hplace) ?_ ?_ ?_
  · exact .inr ⟨fits, .done, fun _ _ => rfl⟩
  · exact fun out s hout => ⟨out, _, rfl, hout⟩
  · intro w₂ out out' s s' hle hat hout
    rw [hat.left, hat.right]
    exact .done (hL.refl w₂) ⟨hL.depth _ hat.state, rfl, rfl⟩ hout

theorem alike_call {callee callee' : Value} {vs vs' : List Value} {span span' : Span}
    (hcallee : L.value w callee callee') (hvs : List.Forall₂ (L.value w) vs vs')
    (hscope : L.scope w scope scope') (site : L.Site span span') :
    L.Alike T depth w L.value (Eval.call L.limit callee vs span scope)
      (Eval.call L.limit' callee' vs' span' scope') := by
  cases hcallee with
  | native identity here => exact hL.alike_native here hvs hscope site
  | @function i i' name f f' closure closure' identity here =>
    obtain ⟨hf, hclosure⟩ := here
    refine hL.alike_depth.bind hL fun w₁ d d' hle hd => ?_
    obtain ⟨rfl, rfl⟩ := hd
    by_cases hover : L.limit ≤ d'
    · rw [if_pos hover]
      rcases Nat.lt_or_eq_of_le hL.limit_le with hlt | heq
      · -- There may be room for the call on the right, and nothing is compared any more.
        exact .lost (hL.overflow span hlt) _
      · rw [if_pos (heq ▸ hover)]
        exact .throw hL (site.overflow heq)
    · have hover' : ¬ L.limit' ≤ d' := fun h => hover (Nat.le_trans hL.limit_le h)
      rw [if_neg hover, if_neg hover']
      obtain ⟨hparameters, hnames⟩ := hL.parameters hf
      have hentries := entries_bindParameters (hL.values_mono hle hvs) f.parameters
      rw [← hparameters]
      refine (hL.alike_newInner (hL.scope_mono hle hclosure) ?_ hentries).bind hL ?_
      · exact fun p hp => hnames p.1 (mem_of_mem_bindParameters hp)
      · exact fun w₂ inner inner' _ hinner => hL.alike_invoke hf hinner (Nat.lt_of_not_le hover)
  | _ => exact .throw hL (site.callable _)

/-! ## Lists -/

theorem alike_expr {e e' : Expr} (h : T.expr e e') (hscope : L.scope w scope scope') :
    L.Alike T depth w L.value (Eval.expr scope e) (Eval.expr scope' e') :=
  .task hL (.expr h hscope) rfl

theorem alike_stmt {t t' : Stmt} (h : T.stmt t t') (hscope : L.scope w scope scope')
    (hplace : t.declares ≠ [] → L.place w scope scope') :
    L.Alike T depth w L.value (Eval.stmt scope t) (Eval.stmt scope' t') :=
  .task hL (.stmt h hscope hplace) rfl

theorem alike_sequence {b b' : List Stmt} (h : List.Forall₂ T.stmt b b')
    (hplace : L.place w scope scope') {last last' : Value} (hlast : L.value w last last') :
    L.Alike T depth w L.value (Eval.sequence scope last b) (Eval.sequence scope' last' b') := by
  induction h generalizing w last last' with
  | nil => exact .pure hL hlast
  | cons ht _ ih =>
    have hscope := hL.scope_of_place hplace
    refine (hL.alike_stmt ht hscope fun _ => hplace).bind hL fun w₁ v v' hle hv => ?_
    exact ih (hL.place_mono hle hplace) hv

theorem alike_values {es es' : List Expr} (h : List.Forall₂ T.expr es es')
    (hscope : L.scope w scope scope') {done done' : List Value}
    (hdone : List.Forall₂ (L.value w) done done') :
    L.Alike T depth w (fun w => List.Forall₂ (L.value w)) (Eval.values scope done es)
      (Eval.values scope' done' es') := by
  induction h generalizing w done done' with
  | nil => exact .pure hL (List.rel_reverse hdone)
  | cons he _ ih =>
    refine (hL.alike_expr he hscope).bind hL fun w₁ v v' hle hv => ?_
    exact ih (hL.scope_mono hle hscope) (.cons hv (hL.values_mono hle hdone))

theorem alike_properties {ps ps' : List Property} (h : List.Forall₂ (Property.Like L T) ps ps')
    (hscope : L.scope w scope scope') {done done' : List (String × Value)}
    (hdone : L.entries w done done') :
    L.Alike T depth w L.entries (Eval.properties scope done ps)
      (Eval.properties scope' done' ps') := by
  induction h generalizing w done done' with
  | nil => exact .pure hL hdone
  | cons hp _ ih =>
    cases hp with
    | keyed value =>
      refine (hL.alike_expr value hscope).bind hL fun w₁ v v' hle hv => ?_
      exact ih (hL.scope_mono hle hscope)
        (forall₂_insertProperty (hL.entries_mono hle hdone) _ hv)
    | shorthand name unknown =>
      refine (hL.alike_lookup? hscope name).bind hL fun w₁ found found' hle hfound => ?_
      cases hfound with
      | none => exact .throw hL unknown
      | some hv =>
        exact ih (hL.scope_mono hle hscope)
          (forall₂_insertProperty (hL.entries_mono hle hdone) _ hv)

theorem alike_declarators {ds ds' : List Declarator}
    (h : List.Forall₂ (Declarator.Like L T) ds ds') (hplace : L.place w scope scope')
    {last last' : Value} (hlast : L.value w last last') :
    L.Alike T depth w L.value (Eval.declarators scope last ds)
      (Eval.declarators scope' last' ds') := by
  induction h generalizing w last last' with
  | nil => exact .pure hL hlast
  | @cons d d' _ _ hd _ ih =>
    have hscope := hL.scope_of_place hplace
    refine (hL.alike_expr hd.value hscope).bind hL fun w₁ v v' hle hv => ?_
    have hplace₁ := hL.place_mono hle hplace
    rw [← hd.name_eq]
    refine (hL.alike_declare hplace₁ hd.binder hv).bind hL fun w₂ free free' hle' hfree => ?_
    subst hfree
    cases free with
    | true => exact ih (hL.place_mono hle' hplace₁) (hL.value_mono hle' hv)
    | false => exact .throw hL (hd.name_eq ▸ hd.taken)

/-! ## Expressions -/

theorem alike_member {target target' key key' : Value} {span span' : Span}
    (htarget : L.value w target target') (hkey : L.value w key key')
    (indexable : ∀ t, L.error (.notIndexable t span) (.notIndexable t span')) :
    L.Alike T depth w L.value (Eval.member target key span) (Eval.member target' key' span') := by
  have hmember := Value.Match.member? htarget hkey
  unfold Eval.member
  rw [Value.Match.typeName htarget]
  generalize target.member? key = found, target'.member? key' = found' at hmember ⊢
  cases hmember with
  | none => exact .throw hL (indexable _)
  | some hv => exact .pure hL hv

theorem alike_assignment {x : String} (op : AssignOp) {e e' : Expr} {span span' : Span}
    (hx : L.name x)
    (unknown : L.error (.assignmentToUndeclared x span) (.assignmentToUndeclared x span'))
    (he : T.expr e e') (hscope : L.scope w scope scope') :
    L.Alike T depth w L.value (Eval.assignment scope x op e span)
      (Eval.assignment scope' x op e' span') := by
  refine (hL.alike_lookup? hscope hx).bind hL fun w₁ found found' hle hfound => ?_
  cases hfound with
  | none => exact .throw hL unknown
  | some hold =>
    have hscope₁ := hL.scope_mono hle hscope
    refine (hL.alike_expr he hscope₁).bind hL fun w₂ new new' hle' hnew => ?_
    have hscope₂ := hL.scope_mono hle' hscope₁
    have hvalue := Value.Match.assigned (hL.oneToOne w₂) op (hL.value_mono hle' hold) hnew
    refine (hL.alike_assign hscope₂ hx hvalue).bind hL fun w₃ there there' hle'' hthere => ?_
    subst hthere
    cases there with
    | true => exact .pure hL (hL.value_mono hle'' hvalue)
    | false => exact .throw hL unknown

theorem alike_exprBody {e e' : Expr} (h : Expr.Like L T e e') (hscope : L.scope w scope scope') :
    L.Alike T depth w L.value (Eval.exprBody L.limit scope e)
      (Eval.exprBody L.limit' scope' e') := by
  cases h with
  | number n => exact .pure hL (.number n)
  | string s => exact .pure hL (.string s)
  | constant c => exact .pure hL (.ofConstant c)
  | var name unknown =>
    refine (hL.alike_lookup? hscope name).bind hL fun w₁ found found' _ hfound => ?_
    cases hfound with
    | none => exact .throw hL unknown
    | some hv => exact .pure hL hv
  | array elements =>
    refine (hL.alike_values elements hscope .nil).bind hL fun w₁ vs vs' _ hvs => ?_
    refine hL.alike_freshIdentity.bind hL fun w₂ i i' hle hi => ?_
    exact .pure hL (.ofElements hi (hL.values_mono hle hvs))
  | object properties =>
    refine (hL.alike_properties properties hscope .nil).bind hL fun w₁ ps ps' _ hps => ?_
    refine hL.alike_freshIdentity.bind hL fun w₂ i i' hle hi => ?_
    exact .pure hL (.ofProperties hi (hL.entries_mono hle hps))
  | function name here =>
    refine hL.alike_freshIdentity.bind hL fun w₁ i i' hle hi => ?_
    exact .pure hL (.function name hi ⟨here, hL.scope_mono hle hscope⟩)
  | assign op name unknown value => exact hL.alike_assignment op name unknown value hscope
  | member x target indexable =>
    refine (hL.alike_expr target hscope).bind hL fun w₁ v v' _ hv => ?_
    exact hL.alike_member hv (.string x) indexable
  | index target key indexable =>
    refine (hL.alike_expr target hscope).bind hL fun w₁ v v' hle hv => ?_
    refine (hL.alike_expr key (hL.scope_mono hle hscope)).bind hL fun w₂ k k' hle' hk => ?_
    exact hL.alike_member (hL.value_mono hle' hv) hk indexable
  | call callee arguments site =>
    refine (hL.alike_expr callee hscope).bind hL fun w₁ v v' hle hv => ?_
    have hscope₁ := hL.scope_mono hle hscope
    refine (hL.alike_values arguments hscope₁ .nil).bind hL fun w₂ vs vs' hle' hvs => ?_
    exact hL.alike_call (hL.value_mono hle' hv) hvs (hL.scope_mono hle' hscope₁) site
  | logical op left right =>
    refine (hL.alike_expr left hscope).bind hL fun w₁ a a' hle ha => ?_
    refine (hL.alike_expr right (hL.scope_mono hle hscope)).bind hL fun w₂ b b' hle' hb => ?_
    rw [Value.Match.logical op (hL.value_mono hle' ha) hb]
    exact .pure hL (.logical_self op a' b')
  | binary op left right =>
    refine (hL.alike_expr left hscope).bind hL fun w₁ a a' hle ha => ?_
    refine (hL.alike_expr right (hL.scope_mono hle hscope)).bind hL fun w₂ b b' hle' hb => ?_
    rw [Value.Match.binary (hL.oneToOne w₂) op (hL.value_mono hle' ha) hb]
    exact .pure hL (.binary_self op a' b')
  | unary op operand =>
    refine (hL.alike_expr operand hscope).bind hL fun w₁ v v' _ hv => ?_
    rw [Value.Match.unary op hv]
    exact .pure hL (.unary_self op v')

/-! ## Statements -/

theorem alike_block {b b' : Block} (h : Block.Like T b b') (hscope : L.scope w scope scope') :
    L.Alike T depth w L.value (Eval.block scope b) (Eval.block scope' b') := by
  refine (hL.alike_newInner hscope (by simp) .nil).bind hL fun w₁ inner inner' _ hinner => ?_
  exact hL.alike_sequence h hinner .undefined

theorem alike_conditional {c c' : Conditional} (h : Conditional.Like T c c')
    (hscope : L.scope w scope scope') :
    L.Alike T depth w L.value (Eval.conditional scope c) (Eval.conditional scope' c') := by
  refine (hL.alike_expr h.condition hscope).bind hL fun w₁ v v' hle hv => ?_
  have hscope₁ := hL.scope_mono hle hscope
  rw [Value.Match.isTruthy hv]
  split
  · exact hL.alike_block h.consequent hscope₁
  · have halternate := h.alternate
    generalize c.alternate = a, c'.alternate = a' at halternate ⊢
    cases halternate with
    | absent => exact .pure hL .undefined
    | block here => exact hL.alike_block here hscope₁
    | conditional here => exact hL.alike_stmt here hscope₁ fun h => absurd rfl h

theorem alike_loop {e e' : Expr} {b b' : Block} (condition : T.expr e e')
    (body : Block.Like T b b') (again : T.loop e b e' b') (hscope : L.scope w scope scope')
    {last last' : Value} (hlast : L.value w last last') :
    L.Alike T depth w L.value (Eval.loop e b scope last) (Eval.loop e' b' scope' last') := by
  refine (hL.alike_expr condition hscope).bind hL fun w₁ v v' hle hv => ?_
  have hscope₁ := hL.scope_mono hle hscope
  rw [Value.Match.isTruthy hv]
  split
  · refine (hL.alike_block body hscope₁).bind hL fun w₂ value value' hle' hvalue => ?_
    exact .task hL (.loop again (hL.scope_mono hle' hscope₁) hvalue) rfl
  · exact .pure hL (hL.value_mono hle hlast)

theorem alike_stmtBody {t t' : Stmt} (h : Stmt.Like L T t t') (hscope : L.scope w scope scope')
    (hplace : t.declares ≠ [] → L.place w scope scope') :
    L.Alike T depth w L.value (Eval.stmtBody scope t) (Eval.stmtBody scope' t') := by
  cases h with
  | expr here => exact hL.alike_expr here hscope
  | declaration declarators =>
    cases declarators with
    | nil => exact .pure hL .undefined
    | cons hd hrest =>
      exact hL.alike_declarators (.cons hd hrest) (hplace (List.cons_ne_nil _ _)) .undefined
  | @function x f f' binder here taken =>
    refine hL.alike_freshIdentity.bind hL fun w₁ i i' hle hi => ?_
    have hplace₁ := hL.place_mono hle (hplace (List.cons_ne_nil _ _))
    have hvalue : L.value w₁ (.function i (some x) f scope) (.function i' (some x) f' scope') :=
      .function (some x) hi ⟨here, hL.scope_of_place hplace₁⟩
    refine (hL.alike_declare hplace₁ binder hvalue).bind hL fun w₂ free free' hle' hfree => ?_
    subst hfree
    cases free with
    | true => exact .pure hL (hL.value_mono hle' hvalue)
    | false => exact .throw hL taken
  | conditional here => exact hL.alike_conditional here hscope
  | loop condition body again => exact hL.alike_loop condition body again hscope .undefined
  | block here => exact hL.alike_block here hscope

end Lawful

/-- **One task.**  The work of two tasks that are alike goes in lockstep. -/
theorem Layer.alike {t t' : Task} (h : L.Layer T w t t') (hL : L.Lawful) :
    L.Alike T depth w L.value (Eval.body L.limit t) (Eval.body L.limit' t') := by
  cases h with
  | program body hplace => exact hL.alike_sequence body hplace .undefined
  | invocation body hplace => exact hL.alike_sequence body hplace .undefined
  | expr here hscope => exact hL.alike_exprBody here hscope
  | stmt here hplace =>
    exact hL.alike_stmtBody here (hL.scope_of_place hplace) fun _ => hplace
  | plain here hscope hdeclares =>
    exact hL.alike_stmtBody here hscope fun hne => absurd hdeclares hne
  | loop condition body again hscope last =>
    exact hL.alike_loop condition body again hscope last

end Likeness

end Script
