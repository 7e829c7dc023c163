import Script.Proofs.Scopes.Value
import Script.Session

/-!
# Stores that host scopes

A store knows its frames by number only; which frame lies around which is in the scopes that
functions hold.  `Store.Hosts scopes store` is what makes the two one heap: `scopes` lists all
scopes there are, the one with the innermost frame `f` at position `f`, each with its parent, and
all functions that any variable holds were made in one of them.  No native function among the
variables declares anything.

`Confined frame names scopes store scopes' store'` says how a heap may grow: the old scopes stay
what they were, parents included, all names stay, and of the old frames only `frame` gets new names,
which are among `names`.
-/

namespace Script

/-- The scope around a scope. -/
def Scope.parent? : Scope → Option Scope
  | root _ => none
  | inner _ parent => some parent

/-- The functions inside a value were made in one of the scopes, and no native one declares
variables. -/
def Value.Sound (scopes : List Scope) : Value → Prop :=
  Value.Holds (fun _ scope => scope ∈ scopes) (· ≠ .define)

theorem Value.Sound.mono {scopes scopes' : List Scope} {v : Value} (h : v.Sound scopes)
    (hsub : scopes ⊆ scopes') : v.Sound scopes' :=
  Value.Holds.mono h fun _ _ hscope => hsub hscope

namespace Store

/-- The scopes are those of the store. -/
structure Hosts (scopes : List Scope) (store : Store) : Prop where
  size : store.frames.size = scopes.length
  named : ∀ (f : Nat) (s : Scope), scopes[f]? = some s → s.frame = f
  parents : ∀ (s p : Scope), s ∈ scopes → s.parent? = some p → p ∈ scopes
  values : ∀ f, ∀ x ∈ store.bindings f, x.2.Sound scopes

/-- The heap grows, and what is there gets no names but `names` in the frame `frame`. -/
structure Confined (frame : Nat) (names : List String) (scopes : List Scope) (store : Store)
    (scopes' : List Scope) (store' : Store) : Prop where
  grown : scopes <+: scopes'
  hosts : store'.Hosts scopes'
  kept : ∀ f < scopes.length, ∀ name, store.owns f name = true → store'.owns f name = true
  gained : ∀ f < scopes.length, ∀ name, store'.owns f name = true →
    store.owns f name = true ∨ f = frame ∧ name ∈ names

section

variable {scopes scopes₁ scopes₂ : List Scope} {store store₁ store₂ : Store} {frame : Nat}
  {names : List String} {scope : Scope} {name : String} {value : Value}

theorem Hosts.frame_lt (h : store.Hosts scopes) (hscope : scope ∈ scopes) :
    scope.frame < scopes.length := by
  obtain ⟨f, hf⟩ := List.mem_iff_getElem?.mp hscope
  rw [h.named f scope hf]
  exact (List.getElem?_eq_some_iff.mp hf).1

/-- What is looked up is as good as all variables are. -/
theorem Hosts.lookup (h : store.Hosts scopes) (hlookup : store.lookup name scope = some value) :
    value.Sound scopes := by
  obtain ⟨f, hf⟩ := mem_of_lookup hlookup
  exact h.values f _ hf

theorem Confined.refl (h : store.Hosts scopes) : Confined frame names scopes store scopes store :=
  ⟨⟨[], List.append_nil _⟩, h, fun _ _ _ h => h, fun _ _ _ h => .inl h⟩

/-- One change after another.  The second one may be confined to a frame that was not there before
the first. -/
theorem Confined.trans {frame' : Nat} {names' : List String}
    (h₁ : Confined frame names scopes store scopes₁ store₁)
    (h₂ : Confined frame' names' scopes₁ store₁ scopes₂ store₂)
    (hinside : frame' < scopes.length → frame' = frame ∧ names' ⊆ names) :
    Confined frame names scopes store scopes₂ store₂ where
  grown := h₁.grown.trans h₂.grown
  hosts := h₂.hosts
  kept f hf name howns :=
    h₂.kept f (Nat.lt_of_lt_of_le hf h₁.grown.length_le) name (h₁.kept f hf name howns)
  gained f hf name howns := by
    have hf₁ := Nat.lt_of_lt_of_le hf h₁.grown.length_le
    rcases h₂.gained f hf₁ name howns with howns | ⟨rfl, hname⟩
    · exact h₁.gained f hf name howns
    · obtain ⟨hframe, hsub⟩ := hinside hf
      exact .inr ⟨hframe, hsub hname⟩

theorem Confined.weaken {names' : List String}
    (h : Confined frame names scopes store scopes₁ store₁) (hsub : names ⊆ names') :
    Confined frame names' scopes store scopes₁ store₁ :=
  ⟨h.grown, h.hosts, h.kept, fun f hf name howns =>
    (h.gained f hf name howns).imp_right fun hnew => ⟨hnew.1, hsub hnew.2⟩⟩

/-! ## The operations -/

/-- A declaration in a scope is confined to its innermost frame. -/
theorem Hosts.declare (h : store.Hosts scopes) (hvalue : value.Sound scopes)
    (hname : name ∈ names) : Confined scope.frame names scopes store scopes
      (store.declare scope name value).2 where
  grown := ⟨[], List.append_nil _⟩
  hosts :=
    { size := size_declare.trans h.size
      named := h.named
      parents := h.parents
      values := fun f x hx => by
        rcases mem_bindings_declare hx with hx | hx
        · exact h.values f x hx
        · exact hx ▸ hvalue }
  kept f _ m howns := owns_declare.mpr (.inl howns)
  gained f _ m howns := by
    rcases owns_declare.mp howns with howns | ⟨hframe, rfl, -⟩
    · exact .inl howns
    · exact .inr ⟨hframe, hname⟩

/-- An assignment adds no names. -/
theorem Hosts.set (h : store.Hosts scopes) (hvalue : value.Sound scopes) :
    Confined frame names scopes store scopes (store.set scope name value).2 where
  grown := ⟨[], List.append_nil _⟩
  hosts :=
    { size := size_set.trans h.size
      named := h.named
      parents := h.parents
      values := fun f x hx => by
        rcases mem_bindings_set hx with hx | hx
        · exact h.values f x hx
        · exact hx ▸ hvalue }
  kept f _ m howns := owns_set.trans howns
  gained f _ m howns := .inl (owns_set.symm.trans howns)

/-- A new scope comes behind all others. -/
theorem Hosts.newScope {bindings : Bindings} (h : store.Hosts scopes)
    (hframe : scope.frame = scopes.length) (hparent : ∀ p, scope.parent? = some p → p ∈ scopes)
    (hbindings : ∀ x ∈ bindings, x.2.Sound scopes) :
    Confined frame names scopes store (scopes ++ [scope]) (store.allocate bindings).2 := by
  have hsub : scopes ⊆ scopes ++ [scope] := fun s hs => List.mem_append_left _ hs
  refine ⟨⟨[scope], rfl⟩, ⟨?_, ?_, ?_, ?_⟩, ?_, ?_⟩
  · show (store.frames.push bindings).size = _
    rw [Array.size_push, h.size, List.length_append]
    rfl
  · intro f s hs
    rw [List.getElem?_append] at hs
    split at hs
    · exact h.named f s hs
    · next hf =>
      obtain ⟨hlt, rfl⟩ := List.getElem?_eq_some_iff.mp hs
      rw [List.length_singleton] at hlt
      rw [List.getElem_singleton, hframe]
      omega
  · intro s p hs hp
    rcases List.mem_append.mp hs with hs | hs
    · exact hsub (h.parents s p hs hp)
    · rw [List.mem_singleton.mp hs] at hp
      exact hsub (hparent p hp)
  · intro f x hx
    rcases mem_bindings_allocate hx with hx | hx
    · exact (h.values f x hx).mono hsub
    · exact (hbindings x hx).mono hsub
  · intro f hf m howns
    rwa [owns_allocate (h.size ▸ hf)]
  · intro f hf m howns
    rw [owns_allocate (h.size ▸ hf)] at howns
    exact .inl howns

end

end Store

/-! ## Native functions -/

namespace Native

variable {scopes : List Scope} {frame : Nat} {names : List String}

theorem writeText_ok {text : String} {state : State} {v : Value}
    (h : (writeText text state).1 = .ok v) : v = .undefined := by
  simp only [writeText] at h
  split at h
  · cases h
    rfl
  · cases h

theorem sound_headD {arguments : List Value} (h : ∀ v ∈ arguments, v.Sound scopes) :
    (arguments.headD .undefined).Sound scopes := by
  cases arguments with
  | nil => exact .undefined
  | cons v _ => exact h v List.mem_cons_self

/-- A native function that does not declare variables adds no names, and gives a value that is as
good as its arguments and the variables. -/
theorem invoke_confined {native : Native} {arguments : List Value} {scope : Scope} {state : State}
    (hnative : native ≠ .define) (harguments : ∀ v ∈ arguments, v.Sound scopes)
    (h : state.store.Hosts scopes) :
    Store.Confined frame names scopes state.store scopes
        (native.invoke arguments scope state).2.store ∧
      ∀ v, (native.invoke arguments scope state).1 = .ok v → v.Sound scopes := by
  cases native with
  | write => exact ⟨.refl h, fun v hv => writeText_ok hv ▸ .undefined⟩
  | writeLine => exact ⟨.refl h, fun v hv => writeText_ok hv ▸ .undefined⟩
  | assert =>
    refine ⟨.refl h, fun v hv => ?_⟩
    simp only [invoke] at hv
    split at hv
    · cases hv
      exact .boolean _
    · cases hv
  | peek =>
    simp only [invoke]
    split
    · next value hlookup =>
      refine ⟨.refl h, fun v hv => ?_⟩
      cases hv
      exact h.lookup hlookup
    · exact ⟨.refl h, nofun⟩
  | poke =>
    have hsecond : (arguments.tail.headD .undefined).Sound scopes :=
      sound_headD fun v hv => harguments v (List.mem_of_mem_tail hv)
    refine ⟨h.set hsecond, fun v hv => ?_⟩
    cases hv
    exact .boolean _
  | define => exact absurd rfl hnative
  | fail => exact ⟨.refl h, nofun⟩
  | typeName =>
    refine ⟨.refl h, fun v hv => ?_⟩
    cases hv
    exact .string _
  | collect name =>
    refine ⟨.refl h, fun v hv => ?_⟩
    cases hv
    exact .array _ harguments

end Native

/-! ## Sessions -/

namespace Session

/-- The variables of the session and its global scope make up a heap. -/
def Sound (session : Session) : Prop :=
  ∃ scopes, session.state.store.Hosts scopes ∧ session.scope ∈ scopes

variable {session : Session}

/-- An empty global scope is a heap by itself. -/
theorem bare_hosts (callLimit : Nat) (output : Output) :
    (bare callLimit output).state.store.Hosts [.root 0] := by
  have hempty : Store.empty.Hosts [] := ⟨rfl, nofun, nofun, nofun⟩
  have hroot : Store.Confined 0 [] [] .empty [.root 0] (Store.empty.allocate []).2 :=
    hempty.newScope rfl nofun nofun
  exact hroot.hosts

theorem Sound.freshIdentity (h : session.Sound) : session.freshIdentity.2.Sound := h

theorem Sound.define (h : session.Sound) (name : String) {value : Value}
    (hvalue : ∀ scopes, value.Sound scopes) : (session.define name value).Sound := by
  obtain ⟨scopes, hhosts, hscope⟩ := h
  have hdeclare : Store.Confined session.scope.frame [name] scopes session.state.store scopes
      (session.define name value).state.store := hhosts.declare (hvalue scopes) List.mem_cons_self
  exact ⟨scopes, hdeclare.hosts, hscope⟩

theorem Sound.defineNative (h : session.Sound) {native : Native} (hnative : native ≠ .define) :
    (session.defineNative native).Sound :=
  h.freshIdentity.define native.name fun _ => .native _ hnative

/-- None of the built-ins declares variables. -/
theorem Sound.withBuiltins (h : session.Sound) : session.withBuiltins.Sound := by
  have hfresh := h.freshIdentity.freshIdentity.freshIdentity
  refine Sound.defineNative (hfresh.define "log" ?_) nofun
  intro scopes
  refine .object _ (List.forall_mem_cons.mpr ⟨.native _ nofun, ?_⟩)
  exact List.forall_mem_cons.mpr ⟨.native _ nofun, List.forall_mem_nil _⟩

theorem start_sound (callLimit : Nat) (output : Output) : (start callLimit output).Sound :=
  Sound.withBuiltins ⟨[.root 0], bare_hosts callLimit output, List.mem_cons_self⟩

end Session

end Script
