import Script.Proofs.Lockstep.Runs
import Script.Proofs.Scopes.Value

/-!
# A catalogue of all identities

Arrays, objects and functions are told apart by their identities, and a value holds its contents
next to its identity.  That the one goes with the other is an invariant of the evaluation: there is
a catalogue that lists, under each identity given out so far, the value that was built with it, and
whatever the evaluation gets hold of is as listed (`Value.Filed`).  The catalogue only grows, by the
value that takes the next identity.

`Routine.Files` says of a routine that it keeps to the catalogue, whatever the tasks it asks for
come to, as long as these do too.  It has one rule for each way to put evaluations together, and one
lemma for each piece of syntax; so every moment of a run keeps to the catalogue
(`Moment.Files.next`), and all moments of a run to the one at its end (`Moment.Files.after`).
-/

namespace Script

namespace Value

/-- The identity of a value that has one. -/
def identity? : Value → Option Nat
  | array i _ | object i _ | function i _ _ _ | native i _ => some i
  | number _ | string _ | boolean _ | null | undefined => none

/-- The elements of an array, or the values of an object. -/
def parts : Value → List Value
  | array _ vs => vs
  | object _ ps => ps.map Prod.snd
  | number _ | string _ | boolean _ | null | undefined | function _ _ _ _ | native _ _ => []

/-- The keys of an object. -/
def keys : Value → List String
  | object _ ps => ps.map Prod.fst
  | number _ | string _ | boolean _ | null | undefined | array _ _ | function _ _ _ _
  | native _ _ => []

/-- If the value has an identity, it is listed under it. -/
def Filed (catalogue : List Value) (v : Value) : Prop :=
  ∀ i, v.identity? = some i → catalogue[i]? = some v

/-- What the value is made of is as listed, and an object has each of its keys once. -/
structure Composed (catalogue : List Value) (v : Value) : Prop where
  parts : ∀ u ∈ v.parts, u.Filed catalogue
  keys : v.keys.Nodup

variable {catalogue catalogue' : List Value} {u v w a b : Value} {i : Nat}

theorem Filed.plain (h : v.identity? = none) : v.Filed catalogue := by
  intro i hi
  rw [h] at hi
  cases hi

theorem Filed.mono (h : v.Filed catalogue) (hle : catalogue <+: catalogue') :
    v.Filed catalogue' := by
  intro i hi
  obtain ⟨more, rfl⟩ := hle
  have hlt : i < catalogue.length := (List.getElem?_eq_some_iff.mp (h i hi)).1
  rw [List.getElem?_append_left hlt]
  exact h i hi

theorem Composed.mono (h : v.Composed catalogue) (hle : catalogue <+: catalogue') :
    v.Composed catalogue' :=
  ⟨fun u hu => (h.parts u hu).mono hle, h.keys⟩

/-- What is not made of anything. -/
theorem Composed.simple (hparts : v.parts = []) (hkeys : v.keys = []) : v.Composed catalogue :=
  ⟨hparts ▸ List.forall_mem_nil _, hkeys ▸ List.nodup_nil⟩

/-- A value that takes the next identity can be listed. -/
theorem Filed.new (h : v.identity? = some catalogue.length) : v.Filed (catalogue ++ [v]) := by
  intro i hi
  cases h.symm.trans hi
  rw [List.getElem?_append_right (Nat.le_refl _), Nat.sub_self]
  rfl

/-- **An identity determines its value.** -/
theorem Filed.eq (ha : a.Filed catalogue) (hb : b.Filed catalogue) (hi : a.identity? = some i)
    (hi' : b.identity? = some i) : a = b :=
  Option.some.inj ((ha i hi).symm.trans (hb i hi'))

/-- What has parts has an identity. -/
theorem identity?_of_mem_parts (h : u ∈ v.parts) : ∃ i, v.identity? = some i := by
  cases v with
  | array i vs => exact ⟨i, rfl⟩
  | object i ps => exact ⟨i, rfl⟩
  | _ => cases h

/-! ## Operators and accesses

What they give has no identity, or it was there before. -/

theorem identity?_ofConstant (c : Constant) : (ofConstant c).identity? = none := by
  cases c <;> rfl

theorem identity?_binary (op : BinaryOp) (a b : Value) : (binary op a b).identity? = none := by
  cases op <;> rfl

theorem identity?_logical (op : LogicalOp) (a b : Value) : (logical op a b).identity? = none := by
  cases op <;> rfl

theorem identity?_unary (op : UnaryOp) (a : Value) : (unary op a).identity? = none := by
  cases op <;> rfl

theorem Filed.assigned (op : AssignOp) (old : Value) (h : v.Filed catalogue) :
    (Value.assigned op old v).Filed catalogue := by
  have hstored := combines_assigned op old v
  generalize Value.assigned op old v = stored at hstored ⊢
  cases hstored with
  | assign => exact h
  | join | add | sub | mul | div | mod => exact .plain rfl

theorem plain_or_mem_parts {key : Value} (h : v.member? key = some w) :
    w.identity? = none ∨ w ∈ v.parts := by
  cases v with
  | array i vs =>
    rw [member?] at h
    split at h
    · cases h
      exact .inl rfl
    · cases h
      cases hat : key.toIndex?.bind fun i => vs[i]? with
      | none => exact .inl rfl
      | some element =>
        obtain ⟨n, -, hn⟩ := Option.bind_eq_some_iff.mp hat
        exact .inr (List.mem_of_getElem? hn)
  | string s =>
    rw [member?] at h
    split at h
    · cases h
      exact .inl rfl
    · cases h
      cases key.toIndex?.bind fun i => s.toList[i]? with
      | none => exact .inl rfl
      | some c => exact .inl rfl
  | object i ps =>
    cases h
    cases hat : ps.lookup key.display with
    | none => exact .inl rfl
    | some value => exact .inr (List.mem_map_of_mem (Bindings.mem_of_lookup hat))
  | _ => cases h

end Value

/-! ## States -/

/-- The catalogue has an entry for each identity that was given out, and everything is as listed:
what the entries are made of, and the variables. -/
structure State.Filed (catalogue : List Value) (s : State) : Prop where
  next : s.nextIdentity = catalogue.length
  entries : ∀ v ∈ catalogue, v.Composed catalogue
  bound : ∀ frame, ∀ p ∈ s.store.bindings frame, p.2.Filed catalogue

namespace State.Filed

variable {catalogue : List Value} {s : State} {scope : Scope} {x : String} {u v w : Value}

theorem part (h : s.Filed catalogue) (hv : v.Filed catalogue) (hu : u ∈ v.parts) :
    u.Filed catalogue := by
  obtain ⟨i, hi⟩ := Value.identity?_of_mem_parts hu
  exact (h.entries v (List.mem_of_getElem? (hv i hi))).parts u hu

theorem nodup_keys (h : s.Filed catalogue) (hv : v.Filed catalogue) : v.keys.Nodup := by
  cases v with
  | object i ps => exact (h.entries _ (List.mem_of_getElem? (hv i rfl))).keys
  | _ => exact List.nodup_nil

theorem member (h : s.Filed catalogue) {key : Value} (hv : v.Filed catalogue)
    (hw : v.member? key = some w) : w.Filed catalogue := by
  rcases Value.plain_or_mem_parts hw with hplain | hmem
  · exact .plain hplain
  · exact h.part hv hmem

theorem lookup (h : s.Filed catalogue) (hv : s.store.lookup x scope = some v) :
    v.Filed catalogue := by
  obtain ⟨frame, hmem⟩ := Store.mem_of_lookup hv
  exact h.bound frame _ hmem

theorem depth (h : s.Filed catalogue) (n : Nat) : State.Filed catalogue { s with depth := n } :=
  ⟨h.next, h.entries, h.bound⟩

theorem output (h : s.Filed catalogue) (output : Output) :
    State.Filed catalogue { s with output } :=
  ⟨h.next, h.entries, h.bound⟩

theorem declare (h : s.Filed catalogue) (hv : v.Filed catalogue) :
    State.Filed catalogue { s with store := (s.store.declare scope x v).2 } := by
  refine ⟨h.next, h.entries, fun frame p hp => ?_⟩
  rcases Store.mem_bindings_declare hp with hp | hp
  · exact h.bound frame p hp
  · rwa [hp]

theorem set (h : s.Filed catalogue) (hv : v.Filed catalogue) :
    State.Filed catalogue { s with store := (s.store.set scope x v).2 } := by
  refine ⟨h.next, h.entries, fun frame p hp => ?_⟩
  rcases Store.mem_bindings_set hp with hp | hp
  · exact h.bound frame p hp
  · rwa [hp]

theorem allocate (h : s.Filed catalogue) {bindings : Bindings}
    (hbindings : ∀ p ∈ bindings, p.2.Filed catalogue) :
    State.Filed catalogue { s with store := (s.store.allocate bindings).2 } := by
  refine ⟨h.next, h.entries, fun frame p hp => ?_⟩
  rcases Store.mem_bindings_allocate hp with hp | hp
  · exact h.bound frame p hp
  · exact hbindings p hp

/-- The value that is built with the next identity is listed. -/
theorem fresh (h : s.Filed catalogue) (hv : v.Composed catalogue) :
    s.freshIdentity.2.Filed (catalogue ++ [v]) := by
  have hle : catalogue <+: catalogue ++ [v] := List.prefix_append _ _
  refine ⟨?_, fun w hw => ?_, fun frame p hp => (h.bound frame p hp).mono hle⟩
  · show s.nextIdentity + 1 = _
    rw [h.next, List.length_append, List.length_singleton]
  · rcases List.mem_append.mp hw with hw | hw
    · exact (h.entries w hw).mono hle
    · rw [List.mem_singleton.mp hw]
      exact hv.mono hle

end State.Filed

/-! ## Native functions -/

namespace Native

variable {catalogue : List Value} {s : State} {arguments : List Value}

theorem filed_headD (h : ∀ v ∈ arguments, v.Filed catalogue) :
    (arguments.headD .undefined).Filed catalogue := by
  cases arguments with
  | nil => exact .plain rfl
  | cons v vs => exact h v List.mem_cons_self

/-- A native function keeps to the catalogue, which may grow by an array of the arguments. -/
theorem filed_invoke (native : Native) (scope : Scope) (h : s.Filed catalogue)
    (harguments : ∀ v ∈ arguments, v.Filed catalogue) :
    ∃ catalogue', catalogue <+: catalogue' ∧ (native.invoke arguments scope s).2.Filed catalogue' ∧
      ∀ v, (native.invoke arguments scope s).1 = .ok v → v.Filed catalogue' := by
  have hsecond : (arguments.tail.headD .undefined).Filed catalogue :=
    filed_headD fun v hv => harguments v (List.mem_of_mem_tail hv)
  have hwrite : ∀ text, (writeText text s).2.Filed catalogue ∧
      ∀ v, (writeText text s).1 = .ok v → v.Filed catalogue := by
    intro text
    refine ⟨h.output _, fun v hv => ?_⟩
    simp only [writeText] at hv
    split at hv
    · cases hv
      exact .plain rfl
    · cases hv
  cases native with
  | write => exact ⟨catalogue, List.prefix_refl _, hwrite _⟩
  | writeLine => exact ⟨catalogue, List.prefix_refl _, hwrite _⟩
  | assert =>
    refine ⟨catalogue, List.prefix_refl _, h, fun v hv => ?_⟩
    simp only [invoke] at hv
    split at hv
    · cases hv
      exact .plain rfl
    · cases hv
  | peek =>
    refine ⟨catalogue, List.prefix_refl _, ?_⟩
    simp only [invoke]
    cases hlookup : s.store.lookup (arguments.headD .undefined).display scope with
    | none =>
      refine ⟨h, ?_⟩
      rintro v ⟨⟩
    | some value =>
      refine ⟨h, ?_⟩
      rintro v ⟨⟩
      exact h.lookup hlookup
  | poke =>
    refine ⟨catalogue, List.prefix_refl _, h.set hsecond, ?_⟩
    rintro v ⟨⟩
    exact .plain rfl
  | define =>
    refine ⟨catalogue, List.prefix_refl _, h.declare hsecond, ?_⟩
    rintro v ⟨⟩
    exact .plain rfl
  | fail =>
    refine ⟨catalogue, List.prefix_refl _, h, ?_⟩
    rintro v ⟨⟩
  | typeName =>
    refine ⟨catalogue, List.prefix_refl _, h, ?_⟩
    rintro v ⟨⟩
    exact .plain rfl
  | collect name =>
    let value : Value := .array s.nextIdentity arguments
    have hvalue : value.Composed catalogue := ⟨harguments, List.nodup_nil⟩
    refine ⟨catalogue ++ [value], List.prefix_append _ _, h.fresh hvalue, ?_⟩
    rintro v ⟨⟩
    exact .new (congrArg some h.next)

end Native

/-! ## Routines -/

open Likeness (Work)

/-- What a task is given is as listed. -/
def Task.Filed (catalogue : List Value) : Task → Prop
  | .loop _ _ _ last => last.Filed catalogue
  | .program _ _ | .invocation _ _ | .expr _ _ | .stmt _ _ => True

/-- If the outcome is a result, it is `good`. -/
def Gives {α : Type} (good : α → Prop) (outcome : Except RuntimeError α) : Prop :=
  ∀ a, outcome = .ok a → good a

/-- The routine keeps to a catalogue that begins as given, until it is done with a result that is
`good`. -/
inductive Routine.Files : {α : Type} → List Value → (List Value → α → Prop) → Work α → Prop
  | done {α : Type} {c c₁ : List Value} {good : List Value → α → Prop} {a : α} {s : State}
      (le : c <+: c₁) (here : s.Filed c₁) (result : good c₁ a) : Files c good (.done a s)
  | call {c c₁ : List Value} {good : List Value → Task.Result → Prop} {t : Task} {s : State}
      (le : c <+: c₁) (here : s.Filed c₁) (task : t.Filed c₁)
      (result : ∀ c₂ out, c₁ <+: c₂ → Gives (Value.Filed c₂) out → good c₂ out) :
      Files c good (.call t s)
  | ask {α : Type} {c c₁ : List Value} {good : List Value → α → Prop} {t : Task} {s : State}
      {next : Task.Result → State → Work α} (le : c <+: c₁) (here : s.Filed c₁)
      (task : t.Filed c₁)
      (goes : ∀ c₂ out s, c₁ <+: c₂ → s.Filed c₂ → Gives (Value.Filed c₂) out →
        Files c₂ good (next out s)) : Files c good (.ask t s next)

namespace Routine.Files

variable {α β : Type} {c c₁ : List Value} {good : List Value → α → Prop} {work : Work α}

theorem of_le (hle : c <+: c₁) (h : Files c₁ good work) : Files c good work := by
  cases h with
  | done le here result => exact .done (hle.trans le) here result
  | call le here task result => exact .call (hle.trans le) here task result
  | ask le here task goes => exact .ask (hle.trans le) here task goes

/-- One routine after another. -/
theorem bind {good' : List Value → β → Prop} {next : α → State → Work β}
    (h : Files c good work)
    (hnext : ∀ c₁ a s, c <+: c₁ → s.Filed c₁ → good c₁ a → Files c₁ good' (next a s)) :
    Files c good' (work.bind next) := by
  induction h with
  | done le here result => exact (hnext _ _ _ le here result).of_le le
  | call le here task result =>
    refine .ask le here task fun c₂ out s hle hs hout => ?_
    exact hnext c₂ out s (le.trans hle) hs (result c₂ out hle hout)
  | ask le here task goes ih =>
    refine .ask le here task fun c₂ out s hle hs hout => ih c₂ out s hle hs hout ?_
    exact fun c₂ a s hle' => hnext c₂ a s (le.trans (hle.trans hle'))

end Routine.Files

/-! ## The rules of the evaluation -/

namespace Eval

/-- From every state that is filed, the evaluation keeps to the catalogue. -/
def Files {α : Type} (c : List Value) (good : List Value → α → Prop) (work : Eval α) : Prop :=
  ∀ s : State, s.Filed c → Routine.Files c (fun c => Gives (good c)) (work s)

variable {α β : Type} {c c₁ : List Value} {good : List Value → α → Prop} {scope : Scope}

theorem Files.pure {a : α} (h : good c a) : Files c good (Pure.pure a) := by
  intro s hs
  refine .done (List.prefix_refl _) hs ?_
  rintro _ ⟨⟩
  exact h

theorem Files.throw (e : RuntimeError) : Files c good (MonadExcept.throw e) :=
  fun _ hs => .done (List.prefix_refl _) hs nofun

theorem Files.bind {good' : List Value → β → Prop} {first : Eval α} {next : α → Eval β}
    (h : Files c good first)
    (hnext : ∀ c₁ a, c <+: c₁ → good c₁ a → Files c₁ good' (next a)) :
    Files c good' (first >>= next) := by
  intro s hs
  refine (h s hs).bind fun c₁ out s hle hs hout => ?_
  cases out with
  | ok a => exact hnext c₁ a hle (hout a rfl) s hs
  | error e => exact .done (List.prefix_refl _) hs nofun

theorem Files.task {t : Task} (h : t.Filed c) : Files c Value.Filed (Action.call t) :=
  fun _ hs => .call (List.prefix_refl _) hs h fun _ _ _ hout => hout

/-- A step that leaves the catalogue as it is. -/
theorem Files.step (f : State → α × State)
    (h : ∀ s : State, s.Filed c → (f s).2.Filed c ∧ good c (f s).1) :
    Files c good (fun s => .done (.ok (f s).1) (f s).2) := by
  intro s hs
  refine .done (List.prefix_refl _) (h s hs).1 ?_
  rintro _ ⟨⟩
  exact (h s hs).2

/-- A new identity is for a value that is built with it. -/
theorem Files.fresh {next : Nat → Eval α} (build : Nat → Value)
    (hidentity : ∀ i, (build i).identity? = some i)
    (hbuild : ∀ i, (build i).Composed c)
    (hnext : ∀ c₁ i, c <+: c₁ → (build i).Filed c₁ → Files c₁ good (next i)) :
    Files c good (freshIdentity >>= next) := by
  intro s hs
  have hle : c <+: c ++ [build s.nextIdentity] := List.prefix_append _ _
  have hfresh := hs.fresh (hbuild s.nextIdentity)
  have hnew : (build s.nextIdentity).Filed (c ++ [build s.nextIdentity]) :=
    .new (hs.next ▸ hidentity s.nextIdentity)
  exact (hnext _ _ hle hnew _ hfresh).of_le hle

theorem files_lookup? (x : String) :
    Files c (fun c found => ∀ v, found = some v → v.Filed c) (lookup? scope x) :=
  .step (fun s => (s.store.lookup x scope, s)) fun _ hs => ⟨hs, fun _ => hs.lookup⟩

theorem files_declare (x : String) {v : Value} (hv : v.Filed c) :
    Files c (fun _ _ => True) (declare scope x v) :=
  .step (fun s => ((s.store.declare scope x v).1,
    { s with store := (s.store.declare scope x v).2 })) fun _ hs => ⟨hs.declare hv, trivial⟩

theorem files_assign (x : String) {v : Value} (hv : v.Filed c) :
    Files c (fun _ _ => True) (assign scope x v) :=
  .step (fun s => ((s.store.set scope x v).1, { s with store := (s.store.set scope x v).2 }))
    fun _ hs => ⟨hs.set hv, trivial⟩

theorem files_newInner {bindings : Bindings} (h : ∀ p ∈ bindings, p.2.Filed c) :
    Files c (fun _ _ => True) (newInner scope bindings) :=
  .step (fun s => ((s.store.newInner scope bindings).1,
    { s with store := (s.store.newInner scope bindings).2 })) fun _ hs => ⟨hs.allocate h, trivial⟩

theorem files_depth : Files c (fun _ _ => True) depth :=
  .step (fun s => (s.depth, s)) fun _ hs => ⟨hs, trivial⟩

/-! ### Lists -/

theorem files_expr (e : Expr) : Files c Value.Filed (expr scope e) := .task trivial

theorem files_stmt (t : Stmt) : Files c Value.Filed (stmt scope t) := .task trivial

theorem files_sequence {last : Value} (hlast : last.Filed c) (body : List Stmt) :
    Files c Value.Filed (sequence scope last body) := by
  induction body generalizing c last with
  | nil => exact .pure hlast
  | cons t rest ih => exact (files_stmt t).bind fun c₁ v _ hv => ih hv

theorem files_values {done : List Value} (hdone : ∀ v ∈ done, v.Filed c) (es : List Expr) :
    Files c (fun c vs => ∀ v ∈ vs, v.Filed c) (values scope done es) := by
  induction es generalizing c done with
  | nil => exact .pure fun v hv => hdone v (List.mem_reverse.mp hv)
  | cons e rest ih =>
    refine (files_expr e).bind fun c₁ v hle hv => ih ?_
    exact List.forall_mem_cons.mpr ⟨hv, fun u hu => (hdone u hu).mono hle⟩

theorem filed_insertProperty {ps : List (String × Value)} (hps : ∀ p ∈ ps, p.2.Filed c)
    (key : String) {v : Value} (hv : v.Filed c) :
    ∀ p ∈ insertProperty ps key v, p.2.Filed c := by
  intro p hp
  rcases mem_insertProperty hp with hp | hp
  · exact hps p hp
  · rwa [hp]

/-- A key keeps its place, or goes behind the others. -/
theorem map_fst_insertProperty (ps : List (String × Value)) (key : String) (v : Value) :
    (insertProperty ps key v).map Prod.fst =
      if key ∈ ps.map Prod.fst then ps.map Prod.fst else ps.map Prod.fst ++ [key] := by
  induction ps with
  | nil => rfl
  | cons p ps ih =>
    obtain ⟨k, w⟩ := p
    rw [insertProperty]
    by_cases hk : k = key
    · simp [hk]
    · rw [if_neg hk, List.map_cons, ih]
      by_cases hmem : key ∈ ps.map Prod.fst
      · simp [hmem]
      · simp [hmem, Ne.symm hk]

theorem nodup_insertProperty {ps : List (String × Value)} (hps : (ps.map Prod.fst).Nodup)
    (key : String) (v : Value) : ((insertProperty ps key v).map Prod.fst).Nodup := by
  rw [map_fst_insertProperty]
  split
  · exact hps
  · next hnew =>
    exact (List.perm_append_singleton key _).nodup_iff.mpr (List.nodup_cons.mpr ⟨hnew, hps⟩)

/-- The properties come with their keys distinct. -/
theorem files_properties {done : List (String × Value)} (hdone : ∀ p ∈ done, p.2.Filed c)
    (hkeys : (done.map Prod.fst).Nodup) (entries : List Property) :
    Files c (fun c ps => (∀ p ∈ ps, p.2.Filed c) ∧ (ps.map Prod.fst).Nodup)
      (properties scope done entries) := by
  induction entries generalizing c done with
  | nil => exact .pure ⟨hdone, hkeys⟩
  | cons entry rest ih =>
    cases entry with
    | keyed key e span =>
      refine (files_expr e).bind fun c₁ v hle hv => ih ?_ (nodup_insertProperty hkeys key v)
      exact filed_insertProperty (fun p hp => (hdone p hp).mono hle) key hv
    | shorthand name span =>
      refine (files_lookup? name).bind fun c₁ found hle hfound => ?_
      cases found with
      | none => exact .throw _
      | some v =>
        refine ih ?_ (nodup_insertProperty hkeys name v)
        exact filed_insertProperty (fun p hp => (hdone p hp).mono hle) name (hfound v rfl)

theorem files_declarators {last : Value} (hlast : last.Filed c) (ds : List Declarator) :
    Files c Value.Filed (declarators scope last ds) := by
  induction ds generalizing c last with
  | nil => exact .pure hlast
  | cons d rest ih =>
    refine (files_expr d.value).bind fun c₁ v _ hv => ?_
    refine (files_declare d.name hv).bind fun c₂ free hle _ => ?_
    cases free with
    | true => exact ih (hv.mono hle)
    | false => exact .throw _

/-! ### Calls -/

theorem filed_bindParameters {arguments : List Value} (h : ∀ v ∈ arguments, v.Filed c)
    (names : List String) : ∀ p ∈ bindParameters names arguments, p.2.Filed c := by
  induction names generalizing arguments with
  | nil => exact nofun
  | cons name names ih =>
    refine List.forall_mem_cons.mpr ⟨Native.filed_headD h, ih fun v hv => ?_⟩
    exact h v (List.mem_of_mem_tail hv)

theorem files_invoke (body : List Stmt) : Files c Value.Filed (invoke body scope) := by
  intro s hs
  rw [invoke_eq]
  refine .ask (List.prefix_refl _) (hs.depth _) trivial fun c₁ out s _ hs hout => ?_
  exact .done (List.prefix_refl _) (hs.depth _) hout

theorem files_native (limit identity : Nat) (native : Native) {arguments : List Value}
    (h : ∀ v ∈ arguments, v.Filed c) (span : Span) :
    Files c Value.Filed (call limit (.native identity native) arguments span scope) := by
  rw [call_native]
  intro s hs
  obtain ⟨c₁, hle, hs₁, hresult⟩ := native.filed_invoke scope hs h
  refine .done hle hs₁ fun v hv => hresult v ?_
  cases hout : (native.invoke arguments scope s).1 with
  | ok value =>
    rw [hout] at hv
    cases hv
    rfl
  | error message =>
    rw [hout] at hv
    cases hv

theorem files_call (limit : Nat) (callee : Value) {arguments : List Value}
    (h : ∀ v ∈ arguments, v.Filed c) (span : Span) :
    Files c Value.Filed (call limit callee arguments span scope) := by
  cases callee with
  | native identity native => exact files_native limit identity native h span
  | function identity name function closure =>
    refine files_depth.bind fun c₁ d hle _ => ?_
    split
    · exact .throw _
    · have hbindings := filed_bindParameters (fun v hv => (h v hv).mono hle) function.parameters
      exact (files_newInner hbindings).bind fun c₂ inner _ _ => files_invoke function.body
  | _ => exact .throw _

/-! ### Expressions -/

theorem files_member {target : Value} (h : target.Filed c) (key : Value) (span : Span) :
    Files c Value.Filed (member target key span) := by
  intro s hs
  unfold member
  cases hmember : target.member? key with
  | none => exact Files.throw _ s hs
  | some v => exact Files.pure (hs.member h hmember) s hs

theorem files_assignment (x : String) (op : AssignOp) (e : Expr) (span : Span) :
    Files c Value.Filed (assignment scope x op e span) := by
  refine (files_lookup? x).bind fun c₁ found _ _ => ?_
  cases found with
  | none => exact .throw _
  | some old =>
    refine (files_expr e).bind fun c₂ new _ hnew => ?_
    refine (files_assign x (hnew.assigned op old)).bind fun c₂ there hle _ => ?_
    cases there with
    | true => exact .pure ((hnew.assigned op old).mono hle)
    | false => exact .throw _

theorem files_exprBody (limit : Nat) (e : Expr) : Files c Value.Filed (exprBody limit scope e) := by
  cases e with
  | number n span => exact .pure (.plain rfl)
  | string s span => exact .pure (.plain rfl)
  | constant k span => exact .pure (.plain (Value.identity?_ofConstant k))
  | var x span =>
    refine (files_lookup? x).bind fun c₁ found _ hfound => ?_
    cases found with
    | none => exact .throw _
    | some v => exact .pure (hfound v rfl)
  | array elements span =>
    refine (files_values (List.forall_mem_nil _) elements).bind fun c₁ vs _ hvs => ?_
    exact .fresh (fun i => .array i vs) (fun _ => rfl) (fun _ => ⟨hvs, List.nodup_nil⟩)
      fun c₂ i _ hi => .pure hi
  | object entries span =>
    refine (files_properties (List.forall_mem_nil _) List.nodup_nil entries).bind ?_
    rintro c₁ ps - ⟨hps, hkeys⟩
    refine .fresh (fun i => .object i ps) (fun _ => rfl) (fun _ => ⟨fun u hu => ?_, hkeys⟩)
      fun c₂ i _ hi => .pure hi
    obtain ⟨p, hp, rfl⟩ := List.mem_map.mp hu
    exact hps p hp
  | function name function =>
    exact .fresh (fun i => .function i name function scope) (fun _ => rfl)
      (fun _ => .simple rfl rfl) fun c₁ i _ hi => .pure hi
  | assign x op e span => exact files_assignment x op e span
  | member target x span =>
    exact (files_expr target).bind fun c₁ v _ hv => files_member hv _ span
  | index target key span =>
    refine (files_expr target).bind fun c₁ v _ hv => ?_
    exact (files_expr key).bind fun c₂ k hle _ => files_member (hv.mono hle) k span
  | call callee arguments span =>
    refine (files_expr callee).bind fun c₁ v _ _ => ?_
    refine (files_values (List.forall_mem_nil _) arguments).bind fun c₂ vs _ hvs => ?_
    exact files_call limit v hvs span
  | logical op left right span =>
    refine (files_expr left).bind fun c₁ a _ _ => ?_
    exact (files_expr right).bind fun c₂ b _ _ => .pure (.plain (Value.identity?_logical op a b))
  | binary op left right span =>
    refine (files_expr left).bind fun c₁ a _ _ => ?_
    exact (files_expr right).bind fun c₂ b _ _ => .pure (.plain (Value.identity?_binary op a b))
  | unary op operand span =>
    exact (files_expr operand).bind fun c₁ a _ _ => .pure (.plain (Value.identity?_unary op a))

/-! ### Statements -/

theorem files_block (b : Block) : Files c Value.Filed (block scope b) :=
  (files_newInner (List.forall_mem_nil _)).bind fun _ _ _ _ => files_sequence (.plain rfl) b.body

theorem files_conditional (k : Conditional) : Files c Value.Filed (conditional scope k) := by
  refine (files_expr k.condition).bind fun c₁ v _ _ => ?_
  split
  · exact files_block k.consequent
  · cases k.alternate with
    | absent => exact .pure (.plain rfl)
    | block b => exact files_block b
    | conditional nested => exact files_stmt (.conditional nested)

theorem files_loop (condition : Expr) (b : Block) {last : Value} (hlast : last.Filed c) :
    Files c Value.Filed (loop condition b scope last) := by
  refine (files_expr condition).bind fun c₁ v hle _ => ?_
  split
  · exact (files_block b).bind fun c₂ value _ hvalue => .task hvalue
  · exact .pure (hlast.mono hle)

theorem files_stmtBody (t : Stmt) : Files c Value.Filed (stmtBody scope t) := by
  cases t with
  | expr e => exact files_expr e
  | declaration kind ds span => exact files_declarators (.plain rfl) ds
  | function name function =>
    refine .fresh (fun i => .function i (some name) function scope) (fun _ => rfl)
      (fun _ => .simple rfl rfl) fun c₁ i _ hi => ?_
    refine (files_declare name hi).bind fun c₂ free hle _ => ?_
    cases free with
    | true => exact .pure (hi.mono hle)
    | false => exact .throw _
  | conditional k => exact files_conditional k
  | loop condition b span => exact files_loop condition b (.plain rfl)
  | block b => exact files_block b

/-- **One task** keeps to the catalogue. -/
theorem files_body (limit : Nat) {t : Task} (h : t.Filed c) :
    Files c Value.Filed (body limit t) := by
  cases t with
  | program body scope => exact files_sequence (.plain rfl) body
  | invocation body scope => exact files_sequence (.plain rfl) body
  | expr e scope => exact files_exprBody limit e
  | stmt t scope => exact files_stmtBody t
  | loop condition b scope last => exact files_loop condition b h

end Eval

/-! ## Moments -/

/-- What waits keeps to the catalogue when it goes on. -/
inductive Stack.Files (c : List Value) : Stack → Prop
  | nothing : Files c .nothing
  | waiting {t : Task} {next : Task.Result → State → Work Task.Result} {rest : Stack}
      (goes : ∀ c₁ out s, c <+: c₁ → s.Filed c₁ → Gives (Value.Filed c₁) out →
        Routine.Files c₁ (fun c => Gives (Value.Filed c)) (next out s))
      (below : Files c rest) : Files c (.waiting t next rest)

/-- The work and all that waits keep to the catalogue. -/
inductive Moment.Files (c : List Value) : Moment → Prop
  | mk {w : Work Task.Result} {p : Stack}
      (work : Routine.Files c (fun c => Gives (Value.Filed c)) w) (stack : Stack.Files c p) :
      Files c ⟨w, p⟩

/-- The values that one gets to see at a moment are as listed: those of the variables, and the
result of the task that has just been done. -/
structure Moment.Shown (c : List Value) (m : Moment) : Prop where
  bound : ∀ frame, ∀ p ∈ m.state.store.bindings frame, p.2.Filed c
  result : ∀ (v : Value) (s : State) (p : Stack), m = ⟨.done (.ok v) s, p⟩ → v.Filed c

variable {c c₁ : List Value} {m m' : Moment} {limit n : Nat}

theorem Stack.Files.mono {p : Stack} (h : Stack.Files c p) (hle : c <+: c₁) :
    Stack.Files c₁ p := by
  induction h with
  | nothing => exact .nothing
  | waiting goes _ ih => exact .waiting (fun c₂ out s hle' => goes c₂ out s (hle.trans hle')) ih

namespace Moment

theorem Shown.mono (h : Shown c m) (hle : c <+: c₁) : Shown c₁ m :=
  ⟨fun frame p hp => (h.bound frame p hp).mono hle, fun v s p hm => (h.result v s p hm).mono hle⟩

/-- **One step.**  There is a catalogue that the moment is filed in, and with which it goes on. -/
theorem Files.next (h : Files c m) (limit : Nat) : ∃ c₁, c <+: c₁ ∧ m.state.Filed c₁ ∧
    Shown c₁ m ∧ ∀ m', m.next (Eval.body limit) = some m' → Files c₁ m' := by
  obtain ⟨work, stack⟩ := h
  cases work with
  | @done _ _ c₁ _ _ _ le here result =>
    refine ⟨c₁, le, here, ⟨here.bound, ?_⟩, fun m' hnext => ?_⟩
    · rintro v s p ⟨⟩
      exact result v rfl
    · cases stack with
      | nothing => cases hnext
      | waiting goes below =>
        cases hnext
        exact .mk (goes c₁ _ _ le here result) (below.mono le)
  | @call _ c₁ _ t s le here task result =>
    refine ⟨c₁, le, here, ⟨here.bound, fun _ _ _ hm => nomatch hm⟩, fun m' hnext => ?_⟩
    cases hnext
    exact .mk (Eval.files_body limit task s here) (stack.mono le)
  | @ask _ _ c₁ _ t s next le here task goes =>
    refine ⟨c₁, le, here, ⟨here.bound, fun _ _ _ hm => nomatch hm⟩, fun m' hnext => ?_⟩
    cases hnext
    exact .mk (Eval.files_body limit task s here) (.waiting goes (stack.mono le))

/-- **Some steps.**  What one gets to see on the way is listed where they lead to, and the
identities given out are among those given out there. -/
theorem Files.after (h : Files c m) (hafter : m.after (Eval.body limit) n = some m') :
    ∃ c₁, c <+: c₁ ∧ m'.state.Filed c₁ ∧ ∀ i ≤ n, ∀ x, m.after (Eval.body limit) i = some x →
      Shown c₁ x ∧ x.state.nextIdentity ≤ c₁.length := by
  induction n generalizing c m with
  | zero =>
    cases hafter
    obtain ⟨c₁, hle, hstate, hshown, -⟩ := h.next limit
    refine ⟨c₁, hle, hstate, fun i hi x hx => ?_⟩
    obtain rfl : i = 0 := by omega
    cases hx
    exact ⟨hshown, Nat.le_of_eq hstate.next⟩
  | succ n ih =>
    obtain ⟨m₁, hnext, hrest⟩ := Option.bind_eq_some_iff.mp hafter
    obtain ⟨c₁, hle, hstate, hshown, hgoes⟩ := h.next limit
    obtain ⟨c₂, hle₂, hstate₂, hall⟩ := ih (hgoes m₁ hnext) hrest
    refine ⟨c₂, hle.trans hle₂, hstate₂, fun i hi x hx => ?_⟩
    cases i with
    | zero =>
      cases hx
      have hlength := hle₂.length_le
      exact ⟨hshown.mono hle₂, hstate.next ▸ hlength⟩
    | succ i =>
      rw [Routine.Configuration.after_of_next hnext] at hx
      exact hall i (by omega) x hx

/-- A moment that comes later keeps to a catalogue, too. -/
theorem Files.of_after (h : Files c m) (hafter : m.after (Eval.body limit) n = some m') :
    ∃ c₁, Files c₁ m' := by
  induction n generalizing c m with
  | zero =>
    cases hafter
    exact ⟨c, h⟩
  | succ n ih =>
    obtain ⟨m₁, hnext, hrest⟩ := Option.bind_eq_some_iff.mp hafter
    obtain ⟨c₁, -, -, -, hgoes⟩ := h.next limit
    exact ih (hgoes m₁ hnext) hrest

/-- Identities are given out one after another. -/
theorem Files.nextIdentity_le (h : Files c m) {i : Nat} {x : Moment} (hi : i ≤ n)
    (hx : m.after (Eval.body limit) i = some x) (hafter : m.after (Eval.body limit) n = some m') :
    x.state.nextIdentity ≤ m'.state.nextIdentity := by
  obtain ⟨c₁, -, hstate, hall⟩ := h.after hafter
  rw [hstate.next]
  exact (hall i hi x hx).2

end Moment

end Script
